/-
# Numerals

The texts that denote integers and floats. Blanks around a numeral are ignored, digits may be of
any script, and single underscores may stand between digits. An integer has at most
`Numeral.digitLimit` digits; the float words are `inf`, `infinity` and `nan` in any case.

* `Numeral.int?`, `Numeral.float?`: the number a text denotes;
* `Numeral.natural?_append`: the value of a run of digits is positional.
-/
import Statechart.Number.Binary
import Statechart.Text.Blank
import Statechart.Text.Digit
import Statechart.Text.Case

namespace Statechart

namespace Numeral

/-- The most digits an integer text may have. -/
def digitLimit : Nat := 4300

/-- The values of a run of digits in which single underscores may stand between digits. -/
def digitRun? : List Char → Option (List Nat)
  | [] => none
  | [c] => (decimalValue? c).map ([·])
  | c :: d :: rest => do
    let v ← decimalValue? c
    if d = '_' then return v :: (← digitRun? rest)
    return v :: (← digitRun? (d :: rest))

/-- The number that digits stand for, after those already read. -/
def valueOf (digits : List Nat) (start : Nat := 0) : Nat := digits.foldl (fun n d => 10 * n + d) start

/-- The value of a run of digits is positional. -/
theorem valueOf_append (xs ys : List Nat) (start : Nat) :
    valueOf (xs ++ ys) start = valueOf ys (valueOf xs start) := by
  simp [valueOf]

/-- The sign in front of a numeral, and the rest. -/
def sign : List Char → Bool × List Char
  | '-' :: rest => (true, rest)
  | '+' :: rest => (false, rest)
  | cs => (false, cs)

/-- Why a text is no integer numeral. -/
inductive Trouble where
  | malformed
  | tooLong (digits : Nat)
deriving DecidableEq, Repr

/-- The integer a text denotes, or what is wrong with it. -/
def int (s : String) : Except Trouble Int :=
  let (negative, body) := sign (strip s).toList
  match digitRun? body with
  | none => .error .malformed
  | some ds =>
    if digitLimit < ds.length then .error (.tooLong ds.length)
    else .ok (if negative then -(valueOf ds : Int) else valueOf ds)

/-- The integer a text denotes. -/
def int? (s : String) : Option Int := (int s).toOption

/-! ## Floats -/

/-- Split before the first character that satisfies the test. -/
def cut (p : Char → Bool) (cs : List Char) : List Char × List Char :=
  (cs.takeWhile (!p ·), cs.dropWhile (!p ·))

/-- A run of digits that may be missing altogether. -/
def optionalRun? (cs : List Char) : Option (List Nat) := if cs.isEmpty then some [] else digitRun? cs

/-- The exponent after its mark. -/
def exponent? (cs : List Char) : Option Int := do
  let (negative, body) := sign cs
  let n : Int := valueOf (← digitRun? body)
  return if negative then -n else n

/-- Digits before and after the point, and the exponent, of an unsigned decimal. -/
def decimal? (cs : List Char) : Option (List Nat × List Nat × Int) := do
  let (mantissa, tail) := cut (fun c => c = 'e' ∨ c = 'E') cs
  let exponent ← if tail.isEmpty then some 0 else exponent? tail.tail
  let (whole, fraction) := cut (· = '.') mantissa
  let whole ← optionalRun? whole
  let fraction ← optionalRun? fraction.tail
  if whole.isEmpty && fraction.isEmpty then none else return (whole, fraction, exponent)

/-- The float a text denotes. -/
def float? (s : String) : Option Float :=
  let (negative, body) := sign (strip s).toList
  match toLowerCase (String.ofList body) with
  | "inf" | "infinity" => some (infinite negative)
  | "nan" => some notANumber
  | _ => do
    let (whole, fraction, exponent) ← decimal? body
    return Binary.ofDecimal negative (valueOf (whole ++ fraction)) (exponent - fraction.length)

end Numeral

end Statechart
