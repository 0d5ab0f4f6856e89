/-
# Checks on one field

The twelve built-in checks compare the value of one field with a literal. Comparisons of order work
on floats: text is read as a number, and what is no number passes no comparison.

* `FieldCheck.holds`: whether a value passes a check;
* `parseLiteral`: the value of a literal written in a guard.
-/
import Statechart.Value.Compare
import Statechart.Fault
import Statechart.Text.Case

namespace Statechart

/-! ## 1. Literals -/

/-- The number a text denotes: an integer unless it has a point or an exponent. -/
def numberLiteral? (s : String) : Option Value :=
  if s.toList.contains '.' || (toLowerCase s).toList.contains 'e' then Value.float <$> Numeral.float? s
  else Value.int <$> Numeral.int? s

/-- The value of a literal; words that denote nothing else are text. -/
def parseLiteral (s : String) : Value :=
  let s := strip s
  match unquote? s with
  | some body => .text body
  | none =>
    match toLowerCase s with
    | "true" => .bool true
    | "false" => .bool false
    | "null" | "none" => .null
    | _ => (numberLiteral? s).getD (.text s)

/-! ## 2. The checks -/

/-- The built-in checks on one field. -/
inductive FieldCheck where
  | isNull | isNotNull | isTruthy | isFalsy | equals | notEquals
  | greaterThan | greaterThanOrEqual | lessThan | lessThanOrEqual | hasMinLength | contains
deriving DecidableEq, Repr, Inhabited

namespace FieldCheck

/-- The name of a check. -/
def label : FieldCheck → String
  | isNull => "isNull"
  | isNotNull => "isNotNull"
  | isTruthy => "isTruthy"
  | isFalsy => "isFalsy"
  | equals => "equals"
  | notEquals => "notEquals"
  | greaterThan => "greaterThan"
  | greaterThanOrEqual => "greaterThanOrEqual"
  | lessThan => "lessThan"
  | lessThanOrEqual => "lessThanOrEqual"
  | hasMinLength => "hasMinLength"
  | contains => "contains"

def all : List FieldCheck :=
  [isNull, isNotNull, isTruthy, isFalsy, equals, notEquals, greaterThan, greaterThanOrEqual,
    lessThan, lessThanOrEqual, hasMinLength, contains]

/-- The check of a name. -/
def ofLabel? (s : String) : Option FieldCheck := all.find? (·.label = s)

/-- Whether a check compares with a literal. -/
def needsLiteral : FieldCheck → Bool
  | isNull | isNotNull | isTruthy | isFalsy => false
  | _ => true

/-- The float a value is compared as; truth values and what is no number have none. -/
def amount? (v : Value) : Except DataFault (Option Float) :=
  match v with
  | .null | .bool _ => .ok none
  | v =>
    match v.asFloat with
    | .ok x => .ok (some x)
    | .error (.noFloat _) | .error (.notAFloat _) => .ok none
    | .error e => .error e

/-- Compare two values as floats. -/
def compared (test : Float → Float → Bool) (v literal : Value) : Except DataFault Bool := do
  let a ← amount? v
  let b ← amount? literal
  match a, b with
  | some a, some b => return test a b
  | _, _ => return false

/-- The number of characters, items or entries. -/
def length? : Value → Option Nat
  | .text s => some s.length
  | .list vs => some vs.length
  | .dict es => some es.length
  | _ => none

/-- Whether a value passes a check. -/
def holds (check : FieldCheck) (v literal : Value) : Except DataFault Bool :=
  match check with
  | isNull => .ok v.isNull
  | isNotNull => .ok (!v.isNull)
  | isTruthy => .ok v.isTruthy
  | isFalsy => .ok (!v.isTruthy)
  | equals => .ok (v.same literal)
  | notEquals => .ok (!v.same literal)
  | greaterThan => compared (fun a b => a > b) v literal
  | greaterThanOrEqual => compared (fun a b => a ≥ b) v literal
  | lessThan => compared (fun a b => a < b) v literal
  | lessThanOrEqual => compared (fun a b => a ≤ b) v literal
  | hasMinLength => do
    match ← amount? literal, length? v with
    | some least, some n => return (Number.compare? (.int n) (.float least)).any (· ≠ .lt)
    | _, _ => return false
  | contains =>
    match v with
    | .text s => .ok (occurs literal.display s)
    | .list vs => .ok (vs.any (literal.same ·))
    | _ => .ok false

end FieldCheck

end Statechart
