/-
# The shortest decimal of a double

A finite double is written with the fewest significant digits that read back as the same double;
of several such decimals the one nearest to the exact value is taken. Whether digits are written
positionally or with an exponent is a decision of the format, held in one `FloatStyle`.

* `Shortest.digits?`: digits and decimal exponent of a double;
* `FloatStyle.write`: the text of a float in a style, and `floatText` the style of this library.
-/
import Statechart.Number.Binary

namespace Statechart

namespace Shortest

/-! ## 1. The reals that read back -/

/-- The reals that round to a double, as numerators over one denominator. -/
structure Window where
  low : Nat
  value : Nat
  high : Nat
  den : Nat
  /-- Whether the two ends themselves round to the double. -/
  closed : Bool
deriving Repr

/-- The window of a positive double: half a step to both neighbours, a quarter step below a
power of two. -/
def Window.of (b : Binary) : Window :=
  let narrow := b.mantissa = Nat.pow 2 52 ∧ -1074 < b.exponent
  let low := 4 * b.mantissa - (if narrow then 1 else 2)
  let value := 4 * b.mantissa
  let high := 4 * b.mantissa + 2
  let e := b.exponent - 2
  if 0 ≤ e then
    let s := Nat.pow 2 e.toNat
    ⟨low * s, value * s, high * s, 1, b.mantissa % 2 = 0⟩
  else ⟨low, value, high, Nat.pow 2 (-e).toNat, b.mantissa % 2 = 0⟩

/-- Whether `num / den` lies in the window. -/
def Window.contains (w : Window) (num den : Nat) : Bool :=
  if w.closed then w.low * den ≤ num * w.den ∧ num * w.den ≤ w.high * den
  else w.low * den < num * w.den ∧ num * w.den < w.high * den

/-! ## 2. The first decimal grid that meets the window -/

/-- The point `n * 10^k` as a quotient. -/
def point (n : Nat) (k : Int) : Nat × Nat :=
  if 0 ≤ k then (n * Nat.pow 10 k.toNat, 1) else (n, Nat.pow 10 (-k).toNat)

/-- The multiple of `10^k` in the window next to its value, if any; of two the nearer, of two
equally near the even one. -/
def onGrid? (w : Window) (k : Int) : Option Nat :=
  let below :=
    if 0 ≤ k then w.value / (w.den * Nat.pow 10 k.toNat) else w.value * Nat.pow 10 (-k).toNat / w.den
  let inside := fun n => let (num, den) := point n k; w.contains num den
  let gap := fun n =>
    let (num, den) := point n k
    ((num * w.den : Int) - w.value * den).natAbs
  match inside below, inside (below + 1) with
  | true, true =>
    if gap below < gap (below + 1) then some below
    else if gap (below + 1) < gap below then some (below + 1)
    else if below % 2 = 0 then some below else some (below + 1)
  | true, false => some below
  | false, true => some (below + 1)
  | false, false => none

/-- Try the grids `10^k`, `10^(k-1)`, …, coarsest first. -/
def search (w : Window) : Nat → Int → Nat × Int
  | 0, k => ((onGrid? w k).getD 0, k)
  | fuel + 1, k =>
    match onGrid? w k with
    | some n => if n = 0 then search w fuel (k - 1) else (n, k)
    | none => search w fuel (k - 1)

/-- Move trailing zeros of the digits into the exponent. -/
def trim : Nat → Nat × Int → Nat × Int
  | 0, d => d
  | fuel + 1, (n, k) => if n % 10 = 0 ∧ n ≠ 0 then trim fuel (n / 10, k + 1) else (n, k)

/-- Shortest digits `n` and exponent `k` with `n * 10^k` reading back as the positive double. -/
def digits (b : Binary) : Nat × Int :=
  let w := Window.of b
  let top : Int := ((b.mantissa.log2 : Int) + b.exponent) * 30103 / 100000 + 1
  trim 20 (search w 24 top)

end Shortest

/-! ## 3. Styles -/

/-- How the text of a float is laid out. -/
structure FloatStyle where
  /-- The smallest power of ten that is still written positionally. -/
  leastPositional : Int
  /-- The first power of ten that needs an exponent. -/
  firstScientific : Int
  /-- Digits of an exponent, at least. -/
  exponentDigits : Nat
  nan : String
  infinity : String

namespace FloatStyle

/-- Zeros in front until the text has the width. -/
def padLeft (width : Nat) (s : String) : String :=
  String.ofList (List.replicate (width - s.length) '0') ++ s

/-- Digits with a decimal point after the first `intDigits` of them. -/
def positional (ds : List Char) (intDigits : Int) : String :=
  if intDigits ≤ 0 then
    "0." ++ String.ofList (List.replicate (-intDigits).toNat '0' ++ ds)
  else if ds.length ≤ intDigits.toNat then
    String.ofList (ds ++ List.replicate (intDigits.toNat - ds.length) '0') ++ ".0"
  else
    String.ofList (ds.take intDigits.toNat) ++ "." ++ String.ofList (ds.drop intDigits.toNat)

/-- One digit, the rest after a point, and the power of ten. -/
def scientific (style : FloatStyle) (ds : List Char) (power : Int) : String :=
  let lead := String.ofList (ds.take 1)
  let rest := if ds.length ≤ 1 then "" else "." ++ String.ofList (ds.drop 1)
  let sign := if power < 0 then "-" else "+"
  lead ++ rest ++ "e" ++ sign ++ padLeft style.exponentDigits (toString power.natAbs)

/-- The text of a float. -/
def write (style : FloatStyle) (x : Float) : String :=
  match Binary.ofFloat? x with
  | none =>
    if x != x then style.nan
    else if x < 0 then "-" ++ style.infinity else style.infinity
  | some b =>
    let sign := if b.negative then "-" else ""
    if b.mantissa = 0 then sign ++ "0.0"
    else
      let (n, k) := Shortest.digits { b with negative := false }
      let ds := (toString n).toList
      let power : Int := k + ds.length - 1
      if style.leastPositional ≤ power ∧ power < style.firstScientific then
        sign ++ positional ds (power + 1)
      else sign ++ scientific style ds power

end FloatStyle

/-- Floats are positional from `0.0001` up to below `10^16`, with an exponent of at least two
digits otherwise. -/
def plainFloat : FloatStyle := ⟨-4, 16, 2, "nan", "inf"⟩

/-- JSON text spells the values that are not numbers differently. -/
def jsonFloat : FloatStyle := { plainFloat with nan := "NaN", infinity := "Infinity" }

/-- The text of a float. -/
def floatText (x : Float) : String := plainFloat.write x

end Statechart
