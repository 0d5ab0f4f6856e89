/-
# Quantities

A number given in a configuration, in the form it was written in: truth values count as numbers, and
integers and floats stay apart.

* `Quantity.toNumber`, `Quantity.toValue`;
* `Value.seconds`: a duration.
-/
import Statechart.Fault

namespace Statechart

/-- A number as it was written. -/
inductive Quantity where
  | bool (b : Bool)
  | number (n : Number)
deriving Repr, Inhabited

namespace Quantity

def int (n : Int) : Quantity := .number (.int n)
def float (x : Float) : Quantity := .number (.float x)

/-- The number a quantity is. -/
def toNumber : Quantity → Number
  | bool b => .int (if b then 1 else 0)
  | number n => n

/-- The value a quantity was written as. -/
def toValue : Quantity → Value
  | bool b => .bool b
  | number n => .ofNumber n

/-- The quantity a value is. -/
def ofValue? : Value → Option Quantity
  | .bool b => some (.bool b)
  | .int n => some (.number (.int n))
  | .float x => some (.number (.float x))
  | _ => none

def isZero (q : Quantity) : Bool := q.toNumber.isZero
def isNegative (q : Quantity) : Bool := q.toNumber.isNegative

/-- Zero or less. -/
def isAtMostZero (q : Quantity) : Bool := q.toNumber.le (.int 0)

/-- A value that is a quantity is written as that quantity. -/
theorem toValue_ofValue {v : Value} {q : Quantity} (h : ofValue? v = some q) : q.toValue = v := by
  cases v <;> simp_all [ofValue?] <;> subst h <;> rfl

end Quantity

/-- A duration in milliseconds as seconds. -/
def Value.seconds (v : Value) : Except DataFault Number :=
  match v.number? with
  | some n => liftArith n.thousandth
  | none => .error (.operands "/" v.kind .int)

end Statechart
