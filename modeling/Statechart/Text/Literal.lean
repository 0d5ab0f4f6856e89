/-
# Values as literals

The notation in which messages show a value: `None`, `True`, numbers, quoted text, lists in
brackets and mappings in braces. Text is quoted with the mark that needs no escape when there is
one, and characters without a glyph are escaped.

* `quoted`: a text in quotes;
* `Value.literal`, `Value.display`: a value in this notation, and the same with text left bare.
-/
import Statechart.Value
import Statechart.Number
import Statechart.Text.Printable

namespace Statechart

/-! ## 1. Quoted text -/

/-- The hexadecimal digits of a number, at least `width` of them. -/
def hexDigits (width n : Nat) : List Char :=
  let ds := Nat.toDigits 16 n
  List.replicate (width - ds.length) '0' ++ ds

/-- A character inside a text quoted with `mark`. -/
def escaped (mark c : Char) : List Char :=
  if c = mark ∨ c = '\\' then ['\\', c]
  else if c = '\n' then ['\\', 'n']
  else if c = '\r' then ['\\', 'r']
  else if c = '\t' then ['\\', 't']
  else if isPrintable c then [c]
  else if c.toNat < 0x100 then '\\' :: 'x' :: hexDigits 2 c.toNat
  else if c.toNat < 0x10000 then '\\' :: 'u' :: hexDigits 4 c.toNat
  else '\\' :: 'U' :: hexDigits 8 c.toNat

/-- Single quotes, unless the text holds single quotes and no double ones. -/
def quoteMark (cs : List Char) : Char := if '\'' ∈ cs ∧ '"' ∉ cs then '"' else '\''

/-- A text in quotes. -/
def quoted (s : String) : String :=
  let cs := s.toList
  let mark := quoteMark cs
  String.ofList (mark :: cs.flatMap (escaped mark) ++ [mark])

/-! ## 2. Values -/

/-- A key in literal notation. -/
def Key.literal : Key → String
  | text s => quoted s
  | int n => toString n
  | float x => floatText x
  | bool b => if b then "True" else "False"
  | null => "None"

namespace Value

mutual

/-- A value in literal notation. -/
def literal : Value → String
  | null => "None"
  | bool b => if b then "True" else "False"
  | int n => toString n
  | float x => floatText x
  | text s => quoted s
  | list vs => "[" ++ literalItems vs ++ "]"
  | dict es => "\x7b" ++ literalEntries es ++ "\x7d"

def literalItems : List Value → String
  | [] => ""
  | [v] => literal v
  | v :: vs => literal v ++ ", " ++ literalItems vs

def literalEntries : List (Key × Value) → String
  | [] => ""
  | [(k, v)] => k.literal ++ ": " ++ literal v
  | (k, v) :: es => k.literal ++ ": " ++ literal v ++ ", " ++ literalEntries es

end

/-- A value as text: text itself is left bare. -/
def display : Value → String
  | text s => s
  | v => literal v

end Value

/-- A key as text. -/
def Key.display (k : Key) : String := k.toValue.display

end Statechart
