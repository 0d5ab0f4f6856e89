/-
# Operands

How operators read their operands. Text that denotes a number is a number, null is zero; loose
equality compares as numbers where it can, strict equality keeps truth values and numbers apart.

* `Operand.toNumber`, `Operand.number?`;
* `Operand.looseEq`, `Operand.strictEq`, `Operand.compare`.
-/
import Statechart.Value.Compare
import Statechart.Fault
import Statechart.Text.Search

namespace Statechart

namespace Operand

/-- The number a text denotes: an integer if it can be one, none for other text. -/
def textNumber? (s : String) : Option Number :=
  let t := strip s
  if t.isEmpty then some (.int 0)
  else match Numeral.int? t with
    | some n => some (.int n)
    | none => (Numeral.float? t).map .float

/-- The number an operand denotes, if any. -/
def denoted? : Value → Option Number
  | .null => some (.int 0)
  | .text s => textNumber? s
  | v => v.number?

/-- The number an operand stands for. -/
def toNumber (v : Value) : Except Fault Number :=
  match denoted? v with
  | some n => .ok n
  | none => .error (complaint v (.notANumber v))

/-- The number an operand stands for in a comparison: none if it is not a number. A value that is
too long to be written cannot be refused either. -/
def number? (v : Value) : Except DataFault (Option Number) :=
  match denoted? v with
  | some n => .ok (if n.isNaN then none else some n)
  | none => if v.writable then .ok none else .error .textTooLong

/-- Whether a value is a number or a truth value. -/
def isNumeric (v : Value) : Bool := v.number?.isSome

/-- Equality after coercion: null equals only null, numbers are compared as numbers. -/
def looseEq (a b : Value) : Except DataFault Bool :=
  if a.isNull || b.isNull then .ok (a.isNull && b.isNull)
  else if isNumeric a || isNumeric b then do
    match ← number? a, ← number? b with
    | some m, some n => return m.eq n
    | _, _ => return a.same b
  else .ok (a.same b)

/-- Equality without coercion; integers and floats are of one kind. -/
def strictEq (a b : Value) : Bool :=
  match a, b with
  | .bool x, .bool y => x = y
  | .bool _, _ => false
  | _, .bool _ => false
  | a, b => a.same b

/-- An order test on two texts, or on two operands that stand for numbers. -/
def compare (onText : String → String → Bool) (onNumber : Number → Number → Bool) (a b : Value) :
    Except DataFault Bool :=
  match a, b with
  | .text s, .text t => .ok (onText s t)
  | a, b => do
    match ← number? a, ← number? b with
    | some m, some n => return onNumber m n
    | _, _ => return false

def lt : Value → Value → Except DataFault Bool := compare (· < ·) Number.lt
def le : Value → Value → Except DataFault Bool := compare (fun s t => !(t < s)) Number.le
def gt : Value → Value → Except DataFault Bool := compare (fun s t => t < s) Number.gt
def ge : Value → Value → Except DataFault Bool := compare (fun s t => !(s < t)) Number.ge

/-- An operand inside concatenated text: null is empty, truth values are in lower case. -/
def catText : Value → Except DataFault String
  | .null => .ok ""
  | .bool b => .ok (if b then "true" else "false")
  | v => v.shown

end Operand

end Statechart
