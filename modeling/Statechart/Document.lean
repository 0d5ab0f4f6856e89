/-
# Documents with shared parts

A file may name a part of it and use that part again in other places, even inside itself. A document
is therefore a table of nodes that refer to each other by number. As a value, every use of a part is
spelled out, and a use of a part inside itself is null.

* `Document.value`: the value of a document;
* `Document.field?`: the document below a field of the root;
* `valueAt_scalar`, `valueAt_below`: a scalar is its value, a part inside itself is null.
-/
import Statechart.Value

namespace Statechart

/-- What a node holds: a scalar, or further nodes by number. -/
inductive Content where
  | scalar (v : Value)
  | list (items : List Nat)
  | dict (entries : List (Key × Nat))
deriving Inhabited

/-- The node under a text key. -/
def Content.field? (name : String) : Content → Option Nat
  | .dict es => (es.find? fun (k, _) => k = .text name).map (·.2)
  | _ => none

/-- Nodes that refer to each other, and the one the document begins with. -/
structure Document where
  nodes : Array Content
  root : Nat
deriving Inhabited

namespace Document

def content? (d : Document) (i : Nat) : Option Content := d.nodes[i]?

/-- The value of a node that lies below others. -/
def valueAt (d : Document) : Nat → List Nat → Nat → Value
  | 0, _, _ => .null
  | fuel + 1, above, i =>
    if i ∈ above then .null
    else match d.content? i with
      | some (.scalar v) => v
      | some (.list items) => .list (items.map (valueAt d fuel (i :: above)))
      | some (.dict es) => .dict (es.map fun (k, j) => (k, valueAt d fuel (i :: above) j))
      | none => .null

/-- The value of a node. No way down without a repetition is longer than the table. -/
def valueOf (d : Document) (i : Nat) : Value := d.valueAt (d.nodes.size + 1) [] i

/-- The value of a document. -/
def value (d : Document) : Value := d.valueOf d.root

/-- The document that begins below a field of the root. -/
def field? (d : Document) (name : String) : Option Document :=
  ((d.content? d.root).bind (·.field? name)).map fun i => { d with root := i }

/-- Whether the root is a mapping. -/
def isMapping (d : Document) : Bool :=
  match d.content? d.root with
  | some (.dict _) => true
  | _ => false

theorem valueAt_scalar {d : Document} {i : Nat} {v : Value} (h : d.content? i = some (.scalar v))
    {fuel : Nat} {above : List Nat} (hi : i ∉ above) : d.valueAt (fuel + 1) above i = v := by
  simp [valueAt, h, hi]

theorem valueAt_below {d : Document} {i : Nat} {above : List Nat} (hi : i ∈ above) (fuel : Nat) :
    d.valueAt fuel above i = .null := by
  cases fuel <;> simp [valueAt, hi]

end Document

end Statechart
