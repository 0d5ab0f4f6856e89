/-
# What YAML words mean

A word without quotes is null, a truth value, a number or text. Underscores inside numbers carry
nothing; a leading zero does not change the base, while `0b`, `0o` and `0x` do.

* `Yaml.ofWord`: the value of a word;
* `Yaml.ofTagged`: the value of a text that is tagged with its kind.
-/
import Statechart.Yaml.Token
import Statechart.Json.Reader

namespace Statechart

namespace Yaml

/-! ## 1. Forms of numbers -/

/-- A digit, or an underscore between digits. -/
def isFiller (c : Char) : Bool := c.isDigit || c = '_'

/-- Without a sign in front. -/
def unsigned : List Char → List Char
  | '-' :: cs | '+' :: cs => cs
  | cs => cs

/-- Whether characters are the exponent of a number. -/
def isExponent (needsSign : Bool) : List Char → Bool
  | c :: cs =>
    (c = 'e' || c = 'E') && !(unsigned cs).isEmpty && (unsigned cs).all Char.isDigit &&
      (!needsSign || (unsigned cs).length < cs.length)
  | [] => false

/-- Whether characters without a sign have the form of a float. -/
def isFloatForm (cs : List Char) : Bool :=
  let whole := cs.takeWhile isFiller
  match cs.drop whole.length with
  | '.' :: rest =>
    let fraction := rest.takeWhile isFiller
    let tail := rest.drop fraction.length
    if whole.isEmpty then !fraction.isEmpty && (tail.isEmpty || isExponent true tail)
    else tail.isEmpty || isExponent false tail
  | tail => !whole.isEmpty && isExponent false tail

/-- The mark of a base, the base and its digits. -/
def bases : List (String × Nat × (Char → Bool)) :=
  [("0b", 2, (· ≤ '1')), ("0o", 8, (· ≤ '7')), ("0x", 16, fun _ => true)]

/-- The base of an integer without a sign, and its digits. -/
def baseOf (cs : List Char) : Option (Nat × List Char) :=
  bases.findSome? fun (mark, base, fits) =>
    let digits := cs.drop 2
    if cs.take 2 = mark.toList ∧ digits ≠ [] ∧
        digits.all fun c => c = '_' || ((Json.hexValue? c).isSome && fits c) then
      some (base, digits)
    else none

/-- Without underscores. -/
def plainDigits (cs : List Char) : List Char := cs.filter (· ≠ '_')

/-! ## 2. Values -/

/-- The integer that characters with the form of one stand for. -/
def toInt (cs : List Char) : Except Trouble Value :=
  let magnitude : Option Nat := match baseOf (unsigned cs) with
    | some (base, digits) =>
      let ds := plainDigits digits
      if ds.isEmpty then none else ds.foldlM (fun n c => (Json.hexValue? c).map (base * n + ·)) 0
    | none => (Numeral.int? (String.ofList (plainDigits (unsigned cs)))).map Int.toNat
  match magnitude with
  | some n => .ok (.int (if cs.head? = some '-' then -(n : Int) else n))
  | none => .error .badScalar

/-- The float that characters with the form of one stand for. -/
def toFloat (cs : List Char) : Except Trouble Value :=
  match Numeral.float? (String.ofList (plainDigits cs)) with
  | some x => .ok (.float x)
  | none => .error .badScalar

def isIntForm (cs : List Char) : Bool :=
  (baseOf (unsigned cs)).isSome || (!(unsigned cs).isEmpty && (unsigned cs).all isFiller)

/-- The words for null and the truth values, and for what is no number. -/
def words : List (String × Value) :=
  [("", .null), ("~", .null), ("null", .null), ("Null", .null), ("NULL", .null),
   ("true", .bool true), ("True", .bool true), ("TRUE", .bool true),
   ("false", .bool false), ("False", .bool false), ("FALSE", .bool false),
   (".nan", .float notANumber), (".NaN", .float notANumber), (".NAN", .float notANumber)]

/-- The words for infinity, without a sign. -/
def infiniteWords : List String := [".inf", ".Inf", ".INF"]

/-- The value of a word. -/
def ofWord (s : String) : Except Trouble Value :=
  let cs := s.toList
  match words.lookup s with
  | some v => .ok v
  | none =>
    if infiniteWords.contains (String.ofList (unsigned cs)) then
      .ok (.float (infinite (cs.head? = some '-')))
    else if isFloatForm (unsigned cs) then toFloat cs
    else if isIntForm cs && cs.head? ≠ some '_' then toInt cs
    else if s = "<<" ∨ s = "=" then .error .badScalar
    else .ok (.text s)

/-- The words for truth values where a truth value is asked for. -/
def truthWords : List (String × Bool) :=
  [("yes", true), ("no", false), ("y", true), ("n", false), ("true", true), ("false", false),
   ("on", true), ("off", false)]

/-- The value of a text that is tagged with its kind. -/
def ofTagged (tag s : String) : Except Trouble Value :=
  match tag with
  | "!!str" => .ok (.text s)
  | "!!null" => .ok .null
  | "!!int" => toInt s.toList
  | "!!float" =>
    match ofWord s with
    | .ok (.float x) => .ok (.float x)
    | _ => toFloat s.toList
  | "!!bool" =>
    match truthWords.lookup (toLowerCase s) with
    | some b => .ok (.bool b)
    | none => .error .badScalar
  | _ => .error .unknownTag

/-- Digits alone are an integer, whatever they begin with. -/
theorem ofWord_leading_zero : ofWord "010" = .ok (.int 10) := by rfl

end Yaml

end Statechart
