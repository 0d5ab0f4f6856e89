/-
# The tree of states

The nested states of a definition, flattened: each gets an identifier made of the names on the way
to it, and knows its parent and its children. Two states of one identifier, which names with dots
make possible, are an issue; the later one is left out with all inside it. So is a state that is one
of those around it.

* `Tree.ofNests`: the states of a definition;
* `Tree.resolve?`: the state a target means, as seen from a state;
* `add_ids`: adding a state adds its identifier.
-/
import Statechart.Compile.Nest
import Statechart.Issue

namespace Statechart

/-- A state as it was defined. -/
structure RawState where
  id : String
  key : String
  parent : Option String
  definition : Entries
  children : List String := []
deriving Inhabited

/-- The states of a definition, parents before children, and what was wrong with the others. -/
structure Tree where
  states : List RawState := []
  issues : List Issue := []
deriving Inhabited

namespace Tree

/-! ## 1. Flattening -/

def ids (t : Tree) : List String := t.states.map (·.id)

/-- The state of an identifier. -/
def find? (t : Tree) (id : String) : Option RawState := t.states.find? (·.id = id)

def has (t : Tree) (id : String) : Bool := (t.find? id).isSome

/-- A state with one more child, if it is the parent. -/
def adopt (parent : Option String) (child : String) (s : RawState) : RawState :=
  if parent = some s.id then { s with children := s.children ++ [child] } else s

/-- One more state, which becomes the last child of its parent. -/
def add (t : Tree) (s : RawState) : Tree :=
  { t with states := t.states.map (adopt s.parent s.id) ++ [s] }

def report (t : Tree) (p : Problem) (id : String) : Tree :=
  { t with issues := t.issues ++ [⟨p, some id⟩] }

/-- The identifier of a state below a parent; a parent without a name leaves no trace. -/
def idBelow (parent : Option String) (key : String) : String :=
  match parent with
  | some p => if p.isEmpty then key else p ++ "." ++ key
  | none => key

mutual

/-- Add a state and all inside it. -/
def addNest (parent : Option String) (key : String) (t : Tree) : Nest → Tree
  | .state es inside =>
    let id := idBelow parent key
    if t.has id then t.report (.duplicateState id) id
    else addNests (some id) (t.add { id, key, parent, definition := es }) inside
  | .selfContaining => t.report (.selfContaining (idBelow parent key)) (idBelow parent key)
  | .malformed => t.report (.notAState (idBelow parent key)) (idBelow parent key)

/-- Add states by name. -/
def addNests (parent : Option String) (t : Tree) : List (String × Nest) → Tree
  | [] => t
  | (key, nest) :: ns => addNests parent (addNest parent key t nest) ns

end

/-- The states of a definition. -/
def ofNests (states : Nests) : Tree := addNests none {} states

/-- Adding a state adds its identifier. -/
theorem add_ids (t : Tree) (s : RawState) : (t.add s).ids = t.ids ++ [s.id] := by
  simp only [add, ids, List.map_append, List.map_map, List.map_cons, List.map_nil]
  congr 1
  apply List.map_congr_left
  intro x _
  simp only [Function.comp_apply, adopt]
  split <;> rfl

/-! ## 2. Targets -/

/-- The levels around a state: its parent and all further ones, at most `fuel`, and at last the
root. -/
def levels (t : Tree) : Nat → Option String → List (Option String)
  | 0, _ => [none]
  | _ + 1, none => [none]
  | fuel + 1, some id => some id :: levels t fuel ((t.find? id).bind (·.parent))

/-- The identifier, if it is that of a state. -/
def known? (t : Tree) (id : String) : Option String := if t.has id then some id else none

/-- A name without the mark of an absolute identifier. -/
def absolute? (name : String) : Option String := afterStart? "#" name

/-- The state a target means, as seen from a state: absolute after a `#`; else the first found among
the siblings, the siblings of its parents, and its own children. -/
def resolve? (t : Tree) (source target : String) : Option String :=
  match absolute? target with
  | some id => t.known? id
  | none =>
    let parent := (t.find? source).bind (·.parent)
    match (t.levels t.states.length parent).findSome? fun level => t.known? (idBelow level target) with
    | some id => some id
    | none => t.known? (source ++ "." ++ target)

theorem has_of_known {t : Tree} {id id' : String} (h : t.known? id = some id') : t.has id' = true := by
  unfold known? at h
  split at h
  · simp_all
  · simp at h

/-- A target that is resolved is a state. -/
theorem has_of_resolve {t : Tree} {source target id : String} (h : t.resolve? source target = some id) :
    t.has id = true := by
  unfold resolve? at h
  split at h
  · exact has_of_known h
  · dsimp only at h
    split at h
    · rename_i hf
      obtain ⟨level, _, hl⟩ := List.exists_of_findSome?_eq_some hf
      simp only [Option.some.injEq] at h
      subst h
      exact has_of_known hl
    · exact has_of_known h

end Tree

end Statechart
