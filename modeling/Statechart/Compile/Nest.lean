/-
# Nested states

The states of a definition as they lie inside each other: an ordered tree with names at its edges. A
value is nested as it stands. In a document a state may be used in several places, and each use is a
state of its own; a state used somewhere inside itself is marked, which makes the tree finite.

* `Nest.ofValue`: the nest of a value;
* `Document.nest`: the nest of a document;
* `FlowSource`: a definition with its nested states, however it was written down.
-/
import Statechart.Document
import Statechart.Text.Literal

namespace Statechart

/-- What stands where a state is expected. -/
inductive Nest where
  /-- A state and those inside it. -/
  | state (definition : Entries) (inside : List (String × Nest))
  /-- A state that is one of those around it. -/
  | selfContaining
  /-- No mapping. -/
  | malformed
deriving Inhabited

/-- States by name. -/
abbrev Nests := List (String × Nest)

namespace Nest

/-- The states directly inside. -/
def inside : Nest → Nests
  | state _ ns => ns
  | _ => []

mutual

/-- The nest of a value. -/
def ofValue : Value → Nest
  | .dict es => .state es (insideOf es)
  | _ => .malformed

/-- The states under the field that holds them. -/
def insideOf : List (Key × Value) → Nests
  | [] => []
  | (k, v) :: es =>
    if k = .text "states" then statesOf v else insideOf es

/-- The states that a field holds. -/
def statesOf : Value → Nests
  | .dict es => ofEntries es
  | _ => []

/-- Every entry is a state by the name of its key. -/
def ofEntries : List (Key × Value) → Nests
  | [] => []
  | (k, v) :: es => (k.display, ofValue v) :: ofEntries es

end

theorem ofEntries_eq_map (es : Entries) :
    ofEntries es = es.map fun (k, v) => (k.display, ofValue v) := by
  induction es with
  | nil => rfl
  | cons e es ih => obtain ⟨k, v⟩ := e; simp [ofEntries, ih]

/-- The states inside a definition are those under its field `states`. -/
theorem insideOf_eq (es : Entries) :
    insideOf es = ((Entries.lookup "states" es).map statesOf).getD [] := by
  induction es with
  | nil => rfl
  | cons e es ih =>
    obtain ⟨k, v⟩ := e
    by_cases h : k = .text "states"
    · simp [insideOf, h]
    · simp [insideOf, h, ih]

end Nest

namespace Document

/-- The states under the field of a node that holds them. -/
def stateEntries (d : Document) (i : Nat) : List (Key × Nat) :=
  match ((d.content? i).bind (·.field? "states")).bind d.content? with
  | some (.dict es) => es
  | _ => []

/-- The nest of a node with other states around it. -/
def nestAt (d : Document) : Nat → List Nat → Nat → Nest
  | 0, _, _ => .selfContaining
  | fuel + 1, around, i =>
    match d.content? i with
    | some (.dict _) =>
      if i ∈ around then .selfContaining
      else .state (d.valueOf i).entries
        ((d.stateEntries i).map fun (k, j) => (k.display, nestAt d fuel (i :: around) j))
    | _ => .malformed

/-- The nest of a document. No way down without a repetition is longer than the table. -/
def nest (d : Document) : Nest := d.nestAt (d.nodes.size + 1) [] d.root

end Document

/-- A definition and its nested states. -/
structure FlowSource where
  definition : Value
  states : Nests

/-- A value as a definition. -/
def FlowSource.ofValue (v : Value) : FlowSource := ⟨v, (Nest.ofValue v).inside⟩

/-- A document as a definition. -/
def FlowSource.ofDocument (d : Document) : FlowSource := ⟨d.value, d.nest.inside⟩

end Statechart
