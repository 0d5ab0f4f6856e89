/-
# Reading and writing at a path

A read follows the segments of a path and never fails: a place that does not exist has no value.
A write leaves its input alone and returns a copy in which the containers along the path are
renewed; containers that are missing are created, a list where the next segment is an index.

* `Value.at?`, `Value.put?`, `Value.without`: read, write and remove at a path;
* `at?_append`: reading in two stages;
* `Value.paths`: the dotted paths of all entries of nested mappings.
-/
import Statechart.Path.Basic
import Statechart.Text.Literal

namespace Statechart

/-! ## 1. Positions in a list -/

/-- The offset of a position in a list of `n` items; negative positions count from the end. -/
def offset? (n : Nat) (i : Int) : Option Nat :=
  if 0 ≤ i then if i < n then some i.toNat else none
  else if -i ≤ n then some (n + i).toNat
  else none

theorem offset?_lt {n : Nat} {i : Int} {k : Nat} (h : offset? n i = some k) : k < n := by
  unfold offset? at h
  split at h
  · split at h <;> simp_all; omega
  · split at h <;> simp_all; omega

/-- A list padded with nulls until the position exists. -/
def padded (vs : List Value) (i : Int) : List Value :=
  vs ++ List.replicate ((i + 1).toNat - vs.length) .null

namespace Value

/-! ## 2. Reading -/

/-- One step into a value. -/
def step? (v : Value) (s : Segment) : Option Value :=
  match v with
  | dict es => Entries.lookup s.name es
  | list vs => do vs[← offset? vs.length (← s.position?)]?
  | _ => none

/-- The value at a path. -/
def at? (v : Value) : Path → Option Value
  | [] => some v
  | s :: p => (v.step? s).bind (·.at? p)

@[simp] theorem at?_nil (v : Value) : v.at? [] = some v := rfl

@[simp] theorem at?_cons (v : Value) (s : Segment) (p : Path) :
    v.at? (s :: p) = (v.step? s).bind (·.at? p) := rfl

/-- Reading along a path in two stages. -/
theorem at?_append (v : Value) (p q : Path) : v.at? (p ++ q) = (v.at? p).bind (·.at? q) := by
  induction p generalizing v with
  | nil => simp
  | cons s p ih =>
    simp only [List.cons_append, at?_cons]
    cases v.step? s <;> simp [ih]

/-- Whether a path leads to a value, which may be null. -/
def hasPath (v : Value) (p : Path) : Bool := (v.at? p).isSome

/-! ## 3. Writing -/

/-- Store below one item of a list. -/
def intoItem? (vs : List Value) (i : Int) (store : Value → Option Value) : Option Value := do
  let k ← offset? vs.length i
  return .list (vs.set k (← store (vs[k]?.getD .null)))

/-- A copy with a value stored at a path; none when an index lies before the start of a list. -/
def put? (current : Value) : Path → Value → Option Value
  | [], new => some new
  | .index i :: rest, new =>
    match current with
    | list vs => intoItem? (padded vs i) i (·.put? rest new)
    | null => intoItem? (List.replicate (i + 1).toNat .null) i (·.put? rest new)
    | other => do
      let key := toString i
      return .dict (Entries.insert key (← ((other.getD key).put? rest new)) other.entries)
  | .key s :: rest, new => do
    return .dict (Entries.insert s (← ((current.getD s).put? rest new)) current.entries)

@[simp] theorem put?_nil (v new : Value) : v.put? [] new = some new := rfl

/-! ## 4. Removing -/

/-- A copy without the value at a path; the value itself when there is none at the path. -/
def without (v : Value) : Path → Value
  | [] => v
  | [s] =>
    match v with
    | dict es => .dict (Entries.erase s.name es)
    | list vs =>
      match s.position?.bind (offset? vs.length) with
      | some k => .list (vs.eraseIdx k)
      | none => v
    | _ => v
  | s :: t :: rest =>
    match v with
    | dict es =>
      match Entries.lookup s.name es with
      | some w => .dict (Entries.insert s.name (w.without (t :: rest)) es)
      | none => v
    | list vs =>
      match s.position?.bind (offset? vs.length) with
      | some k => .list (vs.set k ((vs[k]?.getD .null).without (t :: rest)))
      | none => v
    | _ => v

/-- A copy without the value at a path, the value itself when nothing is there. -/
def remove (v : Value) (p : Path) : Value := if v.hasPath p then v.without p else v

/-! ## 5. All paths of nested mappings -/

/-- A key below a dotted path. -/
def dotted (base : String) (k : Key) : String :=
  if base.isEmpty then k.display else base ++ "." ++ k.display

mutual

/-- The dotted paths of all entries, intermediate ones included; lists count as a whole. -/
def paths (base : String) : Value → List String
  | dict es => entryPaths base es
  | _ => []

def entryPaths (base : String) : List (Key × Value) → List String
  | [] => []
  | (k, v) :: es => dotted base k :: (paths (dotted base k) v ++ entryPaths base es)

end

end Value

end Statechart
