/-
# Canonical JSON

A notation that does not depend on the order in which the entries of a mapping were made: entries are
sorted by their keys.  A mapping whose keys cannot be sorted has no such notation, nor has a value that
holds an integer too long to be written.

* `Json.canonical`: a value in this notation, in ASCII.
-/
import Statechart.Json.Writer
import Statechart.Value.Compare

namespace Statechart

namespace Json

/-- The name of an entry in quotes. -/
def canonicalName (k : Key) : Except DataFault String :=
  if k.toValue.writable then .ok (textOf true (nameOf k)) else .error .textTooLong

/-- Parts between brackets. -/
def enclosed (opening closing : String) (parts : List String) : String :=
  opening ++ ", ".intercalate parts ++ closing

/-- An entry whose value has been written. -/
def canonicalEntry (e : Key × Except DataFault String) : Except DataFault String := do
  let name ← canonicalName e.1
  return name ++ ": " ++ (← e.2)

mutual

/-- A value in canonical notation. -/
def canonical : Value → Except DataFault String
  | .null => .ok "null"
  | .bool b => .ok (if b then "true" else "false")
  | .int n => if (Value.int n).writable then .ok (toString n) else .error .textTooLong
  | .float x => .ok (jsonFloat.write x)
  | .text s => .ok (textOf true s)
  | .list vs => enclosed "[" "]" <$> canonicalItems vs
  | .dict es => do
    let ordered ← Key.ordered (·.1) (canonicalEntries es)
    return enclosed "\x7b" "\x7d" (← ordered.mapM canonicalEntry)

def canonicalItems : List Value → Except DataFault (List String)
  | [] => .ok []
  | v :: vs => do
    let s ← canonical v
    return s :: (← canonicalItems vs)

/-- The entries, the value of each one written. -/
def canonicalEntries : List (Key × Value) → List (Key × Except DataFault String)
  | [] => []
  | (k, v) :: es => (k, canonical v) :: canonicalEntries es

end

end Json

end Statechart
