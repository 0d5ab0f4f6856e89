/-
# Reading YAML

A YAML text becomes a `Document`: every part gets a node of the table, and an alias refers to the node
of its anchor, also from inside that node. The entries of a mapping have different keys, all of them
scalars. Under `<<` stand mappings whose entries are added in front; the mapping's own entries
take their place.

* `Yaml.read`: the document of a text.
-/
import Statechart.Document
import Statechart.Value.Compare
import Statechart.Yaml.Lexer
import Statechart.Yaml.Node
import Statechart.Yaml.Word

namespace Statechart

namespace Yaml

/-! ## 1. Entries -/

/-- Entries that refer to nodes. -/
abbrev Links := List (Key × Nat)

/-- Store under a key: in place when it is there, at the end otherwise. -/
def Links.put (k : Key) (i : Nat) : Links → Links
  | [] => [(k, i)]
  | (j, n) :: es => if j.same k then (j, i) :: es else (j, n) :: Links.put k i es

def Links.has (k : Key) (es : Links) : Bool := es.any (·.1.same k)

/-- Whether two entries have equal keys. -/
def hasDuplicates : Links → Bool
  | [] => false
  | (k, _) :: es => Links.has k es || hasDuplicates es

/-- Entries with others in front, of which they replace those of equal keys. -/
def Links.merge (front own : Links) : Links :=
  (front ++ own).foldl (fun es (k, i) => Links.put k i es) []

/-- A scalar as a key. -/
def ofScalar? : Value → Option Key
  | .text s => some (.text s)
  | .int n => some (.int n)
  | .float x => some (.float x)
  | .bool b => some (.bool b)
  | .null => some .null
  | _ => none

/-- The value of a scalar; one without a tag is text unless it is plain. -/
def scalarValue (p : Properties) (text : String) (isPlain : Bool) : Except Trouble Value :=
  match p.tag with
  | none => if isPlain then ofWord text else .ok (.text text)
  | some "!" => ofWord text
  | some t => ofTagged t text

/-- What the key of an entry is. -/
inductive Role where
  /-- The entries below it belong to the mapping around it. -/
  | merge
  /-- The equals sign, which is text as a key. -/
  | sign
  | other

def roleOf : Node → Role
  | .scalar { tag := none, .. } "<<" true => .merge
  | .scalar { tag := none, .. } "=" true => .sign
  | _ => .other

/-! ## 2. The table -/

/-- The nodes so far and the nodes of anchors, the latest first. -/
structure Table where
  nodes : Array Content := #[]
  anchors : List (String × Nat) := []

abbrev Filling := StateT Table (Except Trouble)

/-- A new node, known by its anchor. -/
def place (p : Properties) (c : Content) : Filling Nat := do
  let t ← get
  let i := t.nodes.size
  set { t with
    nodes := t.nodes.push c
    anchors := match p.anchor with
      | some a => (a, i) :: t.anchors
      | none => t.anchors }
  return i

/-- Give a node its content. -/
def fill (i : Nat) (c : Content) : Filling Unit :=
  modify fun t => { t with nodes := t.nodes.set! i c }

/-- The entries of a node, which must be a mapping. -/
def linksOf (i : Nat) : Filling Links := do
  match (← get).nodes[i]? with
  | some (.dict es) => return es
  | _ => throw .badMerge

/-- The entries that a node under `<<` stands for; of several mappings the first counts most. -/
def mergedLinks (i : Nat) : Filling Links := do
  match (← get).nodes[i]? with
  | some (.dict es) => return es
  | some (.list items) => return (← items.reverse.mapM linksOf).flatten
  | _ => throw .badMerge

/-- The key that a node is. -/
def keyOf (i : Nat) : Filling Key := do
  match (← get).nodes[i]? with
  | some (.scalar v) =>
    match ofScalar? v with
    | some k => return k
    | none => throw .badKey
  | _ => throw .badKey

/-- Whether the kind of a node is the one its tag asks for. -/
def checkTag (expected : String) (p : Properties) : Filling Unit :=
  if p.tag = none ∨ p.tag = some "!" ∨ p.tag = some expected then pure () else throw .unknownTag

mutual

/-- Enter a part into the table. -/
def enter : Node → Filling Nat
  | .alias name => do
    match (← get).anchors.lookup name with
    | some i => return i
    | none => throw .unknownAlias
  | .scalar p text isPlain => do
    place p (.scalar (← scalarValue p text isPlain))
  | .sequence p items => do
    checkTag "!!seq" p
    let i ← place p (.list [])
    fill i (.list (← enterItems items))
    return i
  | .mapping p entries => do
    checkTag "!!map" p
    let i ← place p (.dict [])
    let (front, own) ← enterEntries none [] entries
    match front with
    | some front => fill i (.dict (Links.merge front own))
    | none =>
      if hasDuplicates own then throw .duplicateKey
      fill i (.dict own)
    return i

def enterItems : List Node → Filling (List Nat)
  | [] => return []
  | n :: ns => return (← enter n) :: (← enterItems ns)

/-- Enter entries after others, apart from those that a mapping under `<<` adds. -/
def enterEntries (front : Option Links) (own : Links) :
    List (Node × Node) → Filling (Option Links × Links)
  | [] => return (front, own)
  | (key, value) :: es => do
    match roleOf key with
    | .merge =>
      if front.isSome then throw .duplicateKey
      let links ← mergedLinks (← enter value)
      enterEntries (some links) own es
    | .sign =>
      let i ← enter value
      enterEntries front (own ++ [(.text "=", i)]) es
    | .other =>
      let k ← keyOf (← enter key)
      let i ← enter value
      enterEntries front (own ++ [(k, i)]) es

end

/-- The document of a text; an empty text is null. -/
def read (s : String) : Except Trouble Document := do
  match ← document (← tokens s) with
  | none => return ⟨#[.scalar .null], 0⟩
  | some n =>
    let (root, t) ← (enter n).run {}
    return ⟨t.nodes, root⟩

end Yaml

end Statechart
