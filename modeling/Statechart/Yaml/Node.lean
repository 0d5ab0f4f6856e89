/-
# From YAML tokens to nodes

A document is a tree of scalars, sequences and mappings, written in blocks or in brackets. Anchors
and aliases are still names here. What is missing, such as the value after a last colon, is an empty
scalar.

* `Yaml.Node`;
* `Yaml.document`: the only document among tokens, if there is one.
-/
import Statechart.Yaml.Token

namespace Statechart

namespace Yaml

/-- What may stand before a node. -/
structure Properties where
  anchor : Option String := none
  tag : Option String := none
deriving DecidableEq, Repr, Inhabited

/-- A part of a document. -/
inductive Node where
  | scalar (p : Properties) (text : String) (isPlain : Bool)
  | sequence (p : Properties) (items : List Node)
  | mapping (p : Properties) (entries : List (Node × Node))
  | alias (name : String)
deriving Inhabited

namespace Node

/-- What stands where nothing is written. -/
def empty (p : Properties := {}) : Node := .scalar p "" true

end Node

/-- The properties in front: an anchor and a tag in either order. -/
def properties : List Token → Properties × List Token
  | .anchor a :: .tag t :: ts | .tag t :: .anchor a :: ts => (⟨a, t⟩, ts)
  | .anchor a :: ts => (⟨a, none⟩, ts)
  | .tag t :: ts => (⟨none, t⟩, ts)
  | ts => ({}, ts)

/-- Whether one of some marks comes next, or nothing. -/
def comesNext (marks : List Token) (ts : List Token) : Bool :=
  match ts with
  | t :: _ => marks.contains t
  | [] => false

/-- Where nothing is written there is an empty scalar, if it has properties. -/
def absent (p : Properties) (ts : List Token) : Except Trouble (Node × List Token) :=
  if p = {} then .error .unexpectedToken else .ok (.empty p, ts)

mutual

/-- A node; blocks only where `inBlock`, and dashes without a block of their own only where `mayDash`. -/
def node (inBlock mayDash : Bool) : Nat → List Token → Except Trouble (Node × List Token)
  | 0, _ => .error .unexpectedToken
  | _ + 1, .alias name :: ts => .ok (.alias name, ts)
  | fuel + 1, ts =>
    let (p, ts) := properties ts
    match ts with
    | .scalar text isPlain :: ts => .ok (.scalar p text isPlain, ts)
    | .sequenceStart :: ts => do
      let (items, ts) ← bracketItems true fuel ts
      return (.sequence p items, ts)
    | .mappingStart :: ts => do
      let (entries, ts) ← bracketEntries true fuel ts
      return (.mapping p entries, ts)
    | .entry :: _ =>
      if mayDash then do
        let (items, ts) ← dashes fuel ts
        return (.sequence p items, ts)
      else absent p ts
    | .blockSequence :: rest =>
      if inBlock then do
        let (items, ts) ← blockItems fuel rest
        return (.sequence p items, ts)
      else absent p ts
    | .blockMapping :: rest =>
      if inBlock then do
        let (entries, ts) ← blockEntries fuel rest
        return (.mapping p entries, ts)
      else absent p ts
    | _ => absent p ts

/-- A node, or nothing before one of some marks. -/
def nodeUnless (marks : List Token) (inBlock mayDash : Bool) : Nat → List Token → Except Trouble (Node × List Token)
  | 0, _ => .error .unexpectedToken
  | fuel + 1, ts => if comesNext marks ts then .ok (.empty, ts) else node inBlock mayDash fuel ts

/-- The value after a key, which may be missing. -/
def valueUnless (marks : List Token) (inBlock : Bool) : Nat → List Token → Except Trouble (Node × List Token)
  | 0, _ => .error .unexpectedToken
  | fuel + 1, .value :: ts => nodeUnless marks inBlock inBlock fuel ts
  | _ + 1, ts => .ok (.empty, ts)

/-- The items of a block. -/
def blockItems : Nat → List Token → Except Trouble (List Node × List Token)
  | 0, _ => .error .unexpectedToken
  | fuel + 1, .entry :: ts => do
    let (item, ts) ← nodeUnless [.entry, .blockEnd] true false fuel ts
    let (items, ts) ← blockItems fuel ts
    return (item :: items, ts)
  | _ + 1, .blockEnd :: ts => .ok ([], ts)
  | _ + 1, _ => .error .unexpectedToken

/-- Items with dashes as far below a key as the key itself. -/
def dashes : Nat → List Token → Except Trouble (List Node × List Token)
  | 0, _ => .error .unexpectedToken
  | fuel + 1, .entry :: ts => do
    let (item, ts) ← nodeUnless [.entry, .key, .value, .blockEnd] true false fuel ts
    let (items, ts) ← dashes fuel ts
    return (item :: items, ts)
  | _ + 1, ts => .ok ([], ts)

/-- The entries of a block. -/
def blockEntries : Nat → List Token → Except Trouble (List (Node × Node) × List Token)
  | 0, _ => .error .unexpectedToken
  | fuel + 1, .key :: ts => do
    let (key, ts) ← nodeUnless [.key, .value, .blockEnd] true true fuel ts
    let (value, ts) ← valueUnless [.key, .value, .blockEnd] true fuel ts
    let (entries, ts) ← blockEntries fuel ts
    return ((key, value) :: entries, ts)
  | fuel + 1, .value :: ts => do
    let (value, ts) ← valueUnless [.key, .value, .blockEnd] true fuel (.value :: ts)
    let (entries, ts) ← blockEntries fuel ts
    return ((.empty, value) :: entries, ts)
  | _ + 1, .blockEnd :: ts => .ok ([], ts)
  | _ + 1, _ => .error .unexpectedToken

/-- The items up to a closing bracket; an item with a colon is a mapping of one entry. -/
def bracketItems (isFirst : Bool) : Nat → List Token → Except Trouble (List Node × List Token)
  | 0, _ => .error .unexpectedToken
  | _ + 1, .sequenceEnd :: ts => .ok ([], ts)
  | fuel + 1, ts => do
    let ts ← match isFirst, ts with
      | true, ts => pure ts
      | false, .comma :: ts => pure ts
      | false, _ => throw .unexpectedToken
    match ts with
    | .sequenceEnd :: ts => return ([], ts)
    | .key :: ts => do
      let (key, ts) ← nodeUnless [.value, .comma, .sequenceEnd] false false fuel ts
      let (value, ts) ← valueUnless [.comma, .sequenceEnd] false fuel ts
      let (items, ts) ← bracketItems false fuel ts
      return (.mapping {} [(key, value)] :: items, ts)
    | ts => do
      let (item, ts) ← node false false fuel ts
      let (items, ts) ← bracketItems false fuel ts
      return (item :: items, ts)

/-- The entries up to a closing bracket; an entry without a colon is a key alone. -/
def bracketEntries (isFirst : Bool) : Nat → List Token → Except Trouble (List (Node × Node) × List Token)
  | 0, _ => .error .unexpectedToken
  | _ + 1, .mappingEnd :: ts => .ok ([], ts)
  | fuel + 1, ts => do
    let ts ← match isFirst, ts with
      | true, ts => pure ts
      | false, .comma :: ts => pure ts
      | false, _ => throw .unexpectedToken
    match ts with
    | .mappingEnd :: ts => return ([], ts)
    | .key :: ts => do
      let (key, ts) ← nodeUnless [.value, .comma, .mappingEnd] false false fuel ts
      let (value, ts) ← valueUnless [.comma, .mappingEnd] false fuel ts
      let (entries, ts) ← bracketEntries false fuel ts
      return ((key, value) :: entries, ts)
    | .value :: ts => do
      let (value, ts) ← valueUnless [.comma, .mappingEnd] false fuel (.value :: ts)
      let (entries, ts) ← bracketEntries false fuel ts
      return ((.empty, value) :: entries, ts)
    | ts => do
      let (key, ts) ← node false false fuel ts
      let (entries, ts) ← bracketEntries false fuel ts
      return ((key, .empty) :: entries, ts)

end

/-- The only document among tokens; a text without any has none. -/
def document (ts : List Token) : Except Trouble (Option Node) := do
  if ts.isEmpty then return none
  let body := ts.dropWhile (· = .directive)
  let fuel := 4 * ts.length + 4
  let (root, rest) ← match body with
    | [.documentStart] => pure (.empty, [])
    | .documentStart :: ts => nodeUnless [.directive, .documentStart, .documentEnd] true false fuel ts
    | _ => if body.length < ts.length then throw .unexpectedToken else node true false fuel ts
  match rest with
  | [] | [.documentEnd] => return some root
  | _ => throw .severalDocuments

end Yaml

end Statechart
