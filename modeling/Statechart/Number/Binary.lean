/-
# Binary floating point, read exactly

A finite double is a sign and a natural number times a power of two. This module takes a double
apart and rounds an exact quotient to the nearest double, a tie going to the even neighbour; every
exact comparison, conversion and rounding of the library goes through it.

* `Binary.ofFloat?`: the exact value of a finite double;
* `Binary.ofRatio?`: the double nearest to a quotient of naturals, none when it is too large;
* `roundHalfEven_of_dvd`: a quotient that is whole is kept.
-/
namespace Statechart

/-- The value `(-1)^negative * mantissa * 2^exponent`. -/
structure Binary where
  negative : Bool
  mantissa : Nat
  exponent : Int
deriving DecidableEq, Repr, Inhabited

/-! ## 1. Rounding quotients -/

/-- The natural number nearest to `num / den`, a tie going to the even one. -/
def roundHalfEven (num den : Nat) : Nat :=
  let q := num / den
  let r := num % den
  if 2 * r < den then q
  else if den < 2 * r then q + 1
  else if q % 2 = 0 then q else q + 1

/-- A whole quotient is kept as it is. -/
theorem roundHalfEven_of_dvd {num den : Nat} (h : den ∣ num) (hd : 0 < den) :
    roundHalfEven num den = num / den := by
  have : num % den = 0 := Nat.mod_eq_zero_of_dvd h
  simp [roundHalfEven, this, hd]

namespace Binary

/-! ## 2. Taking a double apart -/

/-- The exact value of a finite double. -/
def ofFloat? (x : Float) : Option Binary :=
  let bits := x.toBits.toNat
  let negative := bits / Nat.pow 2 63 = 1
  let biased : Nat := bits / Nat.pow 2 52 % 2048
  let fraction := bits % Nat.pow 2 52
  if biased = 2047 then none
  else if biased = 0 then some ⟨negative, fraction, -1074⟩
  else some ⟨negative, fraction + Nat.pow 2 52, (biased : Int) - 1075⟩

/-- Numerator and denominator of the absolute value. -/
def ratio (b : Binary) : Nat × Nat :=
  if 0 ≤ b.exponent then (b.mantissa * Nat.pow 2 b.exponent.toNat, 1)
  else (b.mantissa, Nat.pow 2 (-b.exponent).toNat)

/-- The whole part, fractions dropped toward zero. -/
def truncate (b : Binary) : Int :=
  let (num, den) := b.ratio
  if b.negative then -(num / den : Nat) else (num / den : Nat)

/-- Whether the value is whole. -/
def isWhole (b : Binary) : Bool :=
  let (num, den) := b.ratio
  num % den = 0

/-- The nearest integer, a tie going to the even one. -/
def nearest (b : Binary) : Int :=
  let (num, den) := b.ratio
  if b.negative then -(roundHalfEven num den : Nat) else (roundHalfEven num den : Nat)

/-- How an integer stands to the value. -/
def compareInt (n : Int) (b : Binary) : Ordering :=
  let (num, den) := b.ratio
  let signed : Int := if b.negative then -num else num
  compare (n * den) signed

/-! ## 3. The nearest double -/

/-- Put a double together from sign, mantissa below `2^53` and exponent from `-1074` to `971`. -/
def toFloat (b : Binary) : Float :=
  let sign := if b.negative then Nat.pow 2 63 else 0
  let magnitude :=
    if b.mantissa < Nat.pow 2 52 then b.mantissa
    else (b.exponent + 1075).toNat * Nat.pow 2 52 + (b.mantissa - Nat.pow 2 52)
  Float.ofBits (UInt64.ofNat (sign + magnitude))

/-- `num / den` scaled by `2^(-e)` and rounded to a natural number. -/
def scaled (num den : Nat) (e : Int) : Nat :=
  if 0 ≤ e then roundHalfEven num (den * Nat.pow 2 e.toNat)
  else roundHalfEven (num * Nat.pow 2 (-e).toNat) den

/-- The double nearest to `num / den`, a tie going to the even mantissa; none when it lies beyond
the largest double. -/
def ofRatio? (negative : Bool) (num den : Nat) : Option Float :=
  if num = 0 then some (toFloat ⟨negative, 0, -1074⟩)
  else
    let estimate : Int := (num.log2 : Int) - den.log2 - 53
    let tooFine :=
      if 0 ≤ estimate then Nat.pow 2 53 ≤ num / (den * Nat.pow 2 estimate.toNat)
      else Nat.pow 2 53 ≤ num * Nat.pow 2 (-estimate).toNat / den
    let e := max (if tooFine then estimate + 1 else estimate) (-1074)
    let m := scaled num den e
    let (m, e) := if m = Nat.pow 2 53 then (Nat.pow 2 52, e + 1) else (m, e)
    if 971 < e then none else some (toFloat ⟨negative, m, e⟩)

/-- The double nearest to an integer, none when it lies beyond the largest double. -/
def ofInt? (n : Int) : Option Float := ofRatio? (n < 0) n.natAbs 1

end Binary

/-- Not a number. -/
def notANumber : Float := 0.0 / 0.0

/-- The two infinities. -/
def infinite (negative : Bool) : Float := if negative then -1.0 / 0.0 else 1.0 / 0.0

/-- The double nearest to a decimal `digits * 10^exponent`; infinite when it is too large. Powers of ten
are compared with powers of eight first, which tells where a decimal lies far from all doubles. -/
def Binary.ofDecimal (negative : Bool) (digits : Nat) (exponent : Int) : Float :=
  let size : Int := Nat.log2 digits + 3 * exponent
  if digits = 0 ∨ exponent < 0 ∧ size < -1075 then Binary.toFloat ⟨negative, 0, -1074⟩
  else if 0 ≤ exponent ∧ 1024 ≤ size then infinite negative
  else
    let rounded :=
      if 0 ≤ exponent then Binary.ofRatio? negative (digits * Nat.pow 10 exponent.toNat) 1
      else Binary.ofRatio? negative digits (Nat.pow 10 (-exponent).toNat)
    rounded.getD (infinite negative)

end Statechart
