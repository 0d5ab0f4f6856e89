/-
# Writing JSON

Two layouts of one notation: compact, for text that leaves the program; indented, for people.

* `Json.textOf`, `Json.nameOf`: texts and the names of entries;
* `Json.compact`, `Json.indented`.
-/
import Statechart.Text.Literal

namespace Statechart

namespace Json

/-! ## 1. Text -/

/-- A code unit of sixteen bits as an escape. -/
def unitEscape (n : Nat) : List Char := '\\' :: 'u' :: hexDigits 4 n

/-- A character inside a JSON text. -/
def escapeChar (asciiOnly : Bool) (c : Char) : List Char :=
  if c = '"' ∨ c = '\\' then ['\\', c]
  else if c = '\n' then ['\\', 'n']
  else if c = '\r' then ['\\', 'r']
  else if c = '\t' then ['\\', 't']
  else if c = '\x0c' then ['\\', 'f']
  else if c = '\x08' then ['\\', 'b']
  else
    let n := c.toNat
    if n < 32 ∨ (asciiOnly ∧ 126 < n) then
      if n < 0x10000 then unitEscape n
      else unitEscape (0xD800 + (n - 0x10000) / 0x400) ++ unitEscape (0xDC00 + (n - 0x10000) % 0x400)
    else [c]

/-- A text in double quotes. -/
def textOf (asciiOnly : Bool) (s : String) : String :=
  String.ofList ('"' :: s.toList.flatMap (escapeChar asciiOnly) ++ ['"'])

/-- The name under which an entry is written. -/
def nameOf : Key → String
  | .text s => s
  | .int n => toString n
  | .float x => jsonFloat.write x
  | .bool b => if b then "true" else "false"
  | .null => "null"

/-! ## 2. Layouts -/

/-- How JSON is laid out. -/
structure Layout where
  comma : String
  colon : String
  /-- Items on lines of their own, indented by so many columns a level. -/
  indent : Option Nat

/-- Parts between brackets, each part on its own line when the layout is indented. -/
def Layout.bracket (layout : Layout) (depth : Nat) (opening closing : String) (parts : List String) :
    String :=
  if parts.isEmpty then opening ++ closing
  else match layout.indent with
    | none => opening ++ layout.comma.intercalate parts ++ closing
    | some width =>
      let newline := fun d => "\n" ++ String.ofList (List.replicate (width * d) ' ')
      opening ++ newline (depth + 1) ++
        (layout.comma ++ newline (depth + 1)).intercalate parts ++ newline depth ++ closing

namespace Layout

mutual

/-- A value at a depth. -/
def write (layout : Layout) (depth : Nat) : Value → String
  | .null => "null"
  | .bool b => if b then "true" else "false"
  | .int n => toString n
  | .float x => jsonFloat.write x
  | .text s => textOf false s
  | .list vs => layout.bracket depth "[" "]" (writeItems layout (depth + 1) vs)
  | .dict es =>
    layout.bracket depth "\x7b" "\x7d" (writeEntries layout (depth + 1) es)

def writeItems (layout : Layout) (depth : Nat) : List Value → List String
  | [] => []
  | v :: vs => write layout depth v :: writeItems layout depth vs

def writeEntries (layout : Layout) (depth : Nat) : List (Key × Value) → List String
  | [] => []
  | (k, v) :: es =>
    (textOf false (nameOf k) ++ layout.colon ++ write layout depth v) :: writeEntries layout depth es

end

end Layout

/-- No blanks, characters as they are. -/
def compact (v : Value) : String := Layout.write ⟨",", ":", none⟩ 0 v

/-- One item a line, two columns a level. -/
def indented (v : Value) : String := Layout.write ⟨",", ": ", some 2⟩ 0 v

end Json

end Statechart
