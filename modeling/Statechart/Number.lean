/-
# Numbers

A number is an integer of any size or a double. Mixed operations convert the integer to a double;
comparisons are exact. An operation whose result does not fit fails with an `ArithFault`.

* `Number.compare?`: the exact order, none for a value that is not a number;
* `Number.add`, `Number.mul`, `Number.div`, `Number.fmod`, `Number.pow`;
* `Number.normalize`: a whole double below `2^53` becomes an integer.
-/
import Statechart.Number.Fixed
import Statechart.Number.Numeral

namespace Statechart

/-- An integer or a double. -/
inductive Number where
  | int (n : Int)
  | float (x : Float)
deriving DecidableEq, Repr, Inhabited

/-- Why an arithmetic operation has no result. -/
inductive ArithFault where
  | intTooLarge
  | quotientTooLarge
  | powerTooLarge
  | domain
  | nanToInt
  | infinityToInt
deriving DecidableEq, Repr, Inhabited

namespace ArithFault

def message : ArithFault → String
  | intTooLarge => "int too large to convert to float"
  | quotientTooLarge => "integer division result too large for a float"
  | powerTooLarge => "(34, 'Numerical result out of range')"
  | domain => "math domain error"
  | nanToInt => "cannot convert float NaN to integer"
  | infinityToInt => "cannot convert float infinity to integer"

end ArithFault

/-! ## 1. Conversions -/

/-- Whether a double is neither infinite nor undefined. -/
def isFinite (x : Float) : Bool := (Binary.ofFloat? x).isSome

/-- The whole part of a double. -/
def truncate (x : Float) : Except ArithFault Int :=
  match Binary.ofFloat? x with
  | some b => .ok b.truncate
  | none => .error (if x != x then .nanToInt else .infinityToInt)

/-- The double nearest to an integer. -/
def intToFloat (n : Int) : Except ArithFault Float :=
  match Binary.ofInt? n with
  | some x => .ok x
  | none => .error .intTooLarge

namespace Number

/-- The number as a double. -/
def toFloat : Number → Except ArithFault Float
  | int n => intToFloat n
  | float x => .ok x

/-- The whole part. -/
def toInt : Number → Except ArithFault Int
  | int n => .ok n
  | float x => truncate x

def isNaN : Number → Bool
  | int _ => false
  | float x => x != x

/-- A whole double below `2^53` becomes the integer it stands for. -/
def normalize : Number → Number
  | int n => .int n
  | float x =>
    match Binary.ofFloat? x with
    | some b => if b.isWhole ∧ b.truncate.natAbs < Nat.pow 2 53 then .int b.truncate else .float x
    | none => .float x

/-- An integer is written in decimal, a double in its shortest form. -/
def text : Number → String
  | int n => toString n
  | float x => floatText x

/-! ## 2. Order -/

/-- How an integer stands to a double. -/
def compareIntFloat (n : Int) (x : Float) : Option Ordering :=
  match Binary.ofFloat? x with
  | some b => some (Binary.compareInt n b)
  | none => if x != x then none else if x < 0 then some .gt else some .lt

/-- The exact order of two numbers, none when one is not a number. -/
def compare? : Number → Number → Option Ordering
  | int a, int b => some (compare a b)
  | int a, float y => compareIntFloat a y
  | float x, int b => (compareIntFloat b x).map Ordering.swap
  | float x, float y =>
    if x < y then some .lt else if y < x then some .gt else if x == y then some .eq else none

def eq (a b : Number) : Bool := compare? a b = some .eq
def lt (a b : Number) : Bool := compare? a b = some .lt
def gt (a b : Number) : Bool := compare? a b = some .gt
def le (a b : Number) : Bool := lt a b || eq a b
def ge (a b : Number) : Bool := gt a b || eq a b

def isZero (a : Number) : Bool := eq a (.int 0)
def isNegative (a : Number) : Bool := lt a (.int 0)

@[simp] theorem compare?_int (a b : Int) : compare? (.int a) (.int b) = some (compare a b) := rfl

/-- The first of the smallest. -/
def least (a : Number) (rest : List Number) : Number :=
  rest.foldl (fun m b => if lt b m then b else m) a

/-- The first of the greatest. -/
def greatest (a : Number) (rest : List Number) : Number :=
  rest.foldl (fun m b => if gt b m then b else m) a

/-! ## 3. Arithmetic -/

/-- An operation on integers, and on doubles as soon as one operand is a double. -/
def lift (onInt : Int → Int → Int) (onFloat : Float → Float → Float) :
    Number → Number → Except ArithFault Number
  | int a, int b => .ok (.int (onInt a b))
  | a, b => return .float (onFloat (← a.toFloat) (← b.toFloat))

def add : Number → Number → Except ArithFault Number := lift (· + ·) (· + ·)
def sub : Number → Number → Except ArithFault Number := lift (· - ·) (· - ·)
def mul : Number → Number → Except ArithFault Number := lift (· * ·) (· * ·)

def neg : Number → Number
  | int n => .int (-n)
  | float x => .float (-x)

/-- The sum, taken from the left. -/
def sum (ns : List Number) : Except ArithFault Number := ns.foldlM add (.int 0)

/-- The product, taken from the left. -/
def product (ns : List Number) : Except ArithFault Number := ns.foldlM mul (.int 1)

/-- The quotient by a number that is not zero; of two integers it is rounded once. -/
def div : Number → Number → Except ArithFault Number
  | int a, int b =>
    match Binary.ofRatio? ((a < 0) != (b < 0)) a.natAbs b.natAbs with
    | some x => .ok (.float x)
    | none => .error .quotientTooLarge
  | a, b => return .float ((← a.toFloat) / (← b.toFloat))

/-- The remainder with the sign of the dividend, on doubles, for a divisor that is not zero. -/
def remainder (x y : Float) : Except ArithFault Float :=
  match Binary.ofFloat? x, Binary.ofFloat? y with
  | some a, some b =>
    let e := min a.exponent b.exponent
    let m := a.mantissa * Nat.pow 2 (a.exponent - e).toNat
    let n := b.mantissa * Nat.pow 2 (b.exponent - e).toNat
    let r := m % n
    .ok ((if 0 ≤ e then Binary.ofRatio? a.negative (r * Nat.pow 2 e.toNat) 1
      else Binary.ofRatio? a.negative r (Nat.pow 2 (-e).toNat)).getD x)
  | none, _ => if x != x || y != y then .ok notANumber else .error .domain
  | some _, none => if y != y then .ok notANumber else .ok x

/-- The remainder of two numbers, taken on doubles. -/
def fmod (a b : Number) : Except ArithFault Number :=
  return .float (← remainder (← a.toFloat) (← b.toFloat))

/-- A power with an integer exponent; an integer stays one unless the exponent is negative. -/
def pow (base : Number) (exponent : Int) : Except ArithFault Number :=
  match base with
  | int n => if 0 ≤ exponent then .ok (.int (Int.pow n exponent.toNat)) else onFloats
  | float _ => onFloats
where
  onFloats : Except ArithFault Number := do
    let x ← base.toFloat
    let y ← intToFloat exponent
    let z := Float.pow x y
    if isFinite x && !isFinite z then .error .powerTooLarge else return .float z

/-- Division by a thousand: milliseconds as seconds. -/
def thousandth (a : Number) : Except ArithFault Number := div a (.int 1000)

/-- Fixed places, on the double nearest to the number. -/
def fixed (a : Number) (places : Nat) : Except ArithFault String :=
  return Fixed.ofFloat (← a.toFloat) places

end Number

end Statechart
