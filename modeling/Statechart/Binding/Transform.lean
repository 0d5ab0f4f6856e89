/-
# Transforms

The transforms that bindings can name without the help of a host.

* `defaultTransforms`.
-/
import Statechart.Binding
import Statechart.Value.Compare
import Statechart.Text.Case

namespace Statechart

namespace Transform

/-- A number as it is, anything else as the number its text denotes. -/
def toNumber (v : Value) : Except DataFault Value := do
  match v with
  | .int _ | .float _ => return v
  | v =>
    let s := strip (← v.shown)
    match Numeral.int? s with
    | some n => return .int n
    | none => return .float (← Value.parseFloat s)

/-- Words that count as true. -/
def trueWords : List String := ["true", "1", "yes", "on"]

def toBoolean (v : Value) : Value :=
  match v with
  | .text s => .bool (trueWords.contains (toLowerCase (strip s)))
  | v => .bool v.isTruthy

/-- The value a JSON text stands for. -/
def jsonParse (v : Value) : Except DataFault Value :=
  match v with
  | .text s => (Json.read s).mapError .json
  | v => .ok v

/-- A function on the text of a value. -/
def onText (f : String → String) (v : Value) : Except DataFault Value :=
  (fun s => .text (f s)) <$> v.shown

end Transform

/-- The transforms that are always there. -/
def defaultTransforms : List (String × Transform) :=
  [("toNumber", Transform.toNumber),
    ("toString", fun v => if v.isNull then .ok (.text "") else Transform.onText id v),
    ("toBoolean", fun v => .ok (Transform.toBoolean v)),
    ("trim", Transform.onText strip),
    ("uppercase", Transform.onText toUpperCase),
    ("lowercase", Transform.onText toLowerCase),
    ("jsonParse", Transform.jsonParse)]

end Statechart
