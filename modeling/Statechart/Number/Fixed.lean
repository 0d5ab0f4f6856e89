/-
# Fixed decimal places

A number written with a fixed count of places after the point. The exact value is rounded once, a
tie going to the even last digit.
-/
import Statechart.Number.Shortest

namespace Statechart

namespace Fixed

/-- Whole part and places of a rounded absolute value. -/
def parts (b : Binary) (places : Nat) : String × String :=
  let (num, den) := b.ratio
  let n := roundHalfEven (num * Nat.pow 10 places) den
  (toString (n / Nat.pow 10 places),
    if places = 0 then "" else FloatStyle.padLeft places (toString (n % Nat.pow 10 places)))

/-- Commas between groups of three digits, counted from the right. -/
def grouped (digits : List Char) : List Char :=
  match digits with
  | [] => []
  | d :: rest =>
    if rest.length % 3 = 0 ∧ rest ≠ [] then d :: ',' :: grouped rest else d :: grouped rest

/-- Whole part and places put together. -/
def join (whole places : String) : String := if places.isEmpty then whole else whole ++ "." ++ places

/-- A float with fixed places. -/
def ofFloat (x : Float) (places : Nat) : String :=
  match Binary.ofFloat? x with
  | none => floatText x
  | some b =>
    let (whole, rest) := parts b places
    (if b.negative then "-" else "") ++ join whole rest

/-- A float with fixed places and commas in its whole part. -/
def groupedFloat (x : Float) (places : Nat) : String :=
  match Binary.ofFloat? x with
  | none => floatText x
  | some b =>
    let (whole, rest) := parts b places
    (if b.negative then "-" else "") ++ join (String.ofList (grouped whole.toList)) rest

end Fixed

end Statechart
