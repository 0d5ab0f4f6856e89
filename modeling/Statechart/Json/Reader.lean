/-
# Reading JSON

A JSON text becomes a `Value`: entries keep their order, numbers with a point or an exponent are
doubles and all others integers of any size. What is wrong with a text is reported with the
position at which it was found.

* `Json.read`: the value of a whole text;
* `Json.Problem.message`, `Json.ReadError.message`: the words for what is wrong.
-/
import Statechart.Value
import Statechart.Number.Numeral

namespace Statechart

namespace Json

/-! ## 1. What can be wrong -/

/-- What is wrong at a place in a JSON text. -/
inductive Problem where
  | expectingValue
  | expectingName
  | expectingColon
  | expectingComma
  | extraData
  | unterminated
  | controlCharacter
  | badEscape
  | badUnicode
  | byteOrderMark
deriving DecidableEq, Repr, Inhabited

def Problem.message : Problem → String
  | expectingValue => "Expecting value"
  | expectingName => "Expecting property name enclosed in double quotes"
  | expectingColon => "Expecting ':' delimiter"
  | expectingComma => "Expecting ',' delimiter"
  | extraData => "Extra data"
  | unterminated => "Unterminated string starting at"
  | controlCharacter => "Invalid control character at"
  | badEscape => "Invalid \\escape"
  | badUnicode => "Invalid \\uXXXX escape"
  | byteOrderMark => "Unexpected UTF-8 BOM (decode using utf-8-sig)"

/-- A problem and where it was found: line and column from 1, position from 0. -/
structure SyntaxError where
  problem : Problem
  position : Nat
  line : Nat
  column : Nat
deriving DecidableEq, Repr, Inhabited

/-- The problem with its place. -/
def SyntaxError.message (e : SyntaxError) : String :=
  e.problem.message ++ ": line " ++ toString e.line ++ " column " ++ toString e.column ++
    " (char " ++ toString e.position ++ ")"

/-- Why a text was not read. -/
inductive ReadError where
  | malformed (e : SyntaxError)
  | duplicateKey (key : String)
  | integerTooLong (digits : Nat)
deriving DecidableEq, Repr, Inhabited

def ReadError.message : ReadError → String
  | malformed e => e.message
  | duplicateKey key => "Duplicate key '" ++ key ++ "'"
  | integerTooLong n =>
    "Exceeds the limit (" ++ toString Numeral.digitLimit ++
      " digits) for integer string conversion: value has " ++ toString n ++
      " digits; use sys.set_int_max_str_digits() to increase the limit"

/-- What happens when a mapping has two entries of one name. -/
inductive Duplicates where
  /-- The later value takes the place of the earlier one. -/
  | keepLast
  /-- The text is refused. -/
  | reject
deriving DecidableEq

/-! ## 2. The text that is left -/

/-- The rest of a text and how many characters came before it. -/
structure Cursor where
  rest : List Char
  position : Nat
deriving Inhabited

/-- A stop at a place of the text, line and column not yet known. -/
inductive Stop where
  | problem (p : Problem) (position : Nat)
  | duplicate (key : String)
  | tooLong (digits : Nat)

namespace Cursor

def stop (c : Cursor) (p : Problem) : Except Stop α := .error (.problem p c.position)

/-- Past the next `n` characters. -/
def skip (c : Cursor) (n : Nat) : Cursor := ⟨c.rest.drop n, c.position + n⟩

/-- The characters that may stand between tokens. -/
def isSpace (ch : Char) : Bool := ch = ' ' ∨ ch = '\t' ∨ ch = '\n' ∨ ch = '\r'

def skipSpace (c : Cursor) : Cursor := c.skip (c.rest.takeWhile isSpace).length

end Cursor

/-! ## 3. Text -/

/-- The value of a hexadecimal digit. -/
def hexValue? (c : Char) : Option Nat :=
  if '0' ≤ c ∧ c ≤ '9' then some (c.toNat - 48)
  else if 'a' ≤ c ∧ c ≤ 'f' then some (c.toNat - 87)
  else if 'A' ≤ c ∧ c ≤ 'F' then some (c.toNat - 55)
  else none

/-- The number that four hexadecimal digits stand for. -/
def fourHex? (cs : List Char) : Option Nat :=
  if cs.length = 4 then cs.foldlM (fun n c => (hexValue? c).map (16 * n + ·)) 0 else none

/-- The character that a single-letter escape stands for. -/
def simpleEscape? : Char → Option Char
  | '"' => some '"'
  | '\\' => some '\\'
  | '/' => some '/'
  | 'b' => some '\x08'
  | 'f' => some '\x0c'
  | 'n' => some '\n'
  | 'r' => some '\r'
  | 't' => some '\t'
  | _ => none

/-- The second half of a surrogate pair written after the first, when it is one. -/
def lowSurrogate? (cs : List Char) : Option (Except Unit Nat) :=
  match cs with
  | '\\' :: 'u' :: rest =>
    if rest.length < 5 then none
    else match fourHex? (rest.take 4) with
      | none => some (.error ())
      | some n => if 0xDC00 ≤ n ∧ n < 0xE000 then some (.ok n) else none
  | _ => none

/-- Characters up to the closing quote; `start` is the position of the opening one. -/
def readText (start : Nat) : Nat → List Char → Nat → List Char → Except Stop (String × Cursor)
  | 0, _, _, _ => .error (.problem .unterminated start)
  | _, [], _, _ => .error (.problem .unterminated start)
  | fuel + 1, c :: rest, pos, done =>
    if c = '"' then .ok (String.ofList done.reverse, ⟨rest, pos + 1⟩)
    else if c = '\\' then
      match rest with
      | [] => .error (.problem .unterminated start)
      | 'u' :: digits =>
        if digits.length < 5 then .error (.problem .badUnicode (pos + 1))
        else match fourHex? (digits.take 4) with
          | none => .error (.problem .badUnicode (pos + 1))
          | some high =>
            let after := digits.drop 4
            if 0xD800 ≤ high ∧ high < 0xDC00 then
              match lowSurrogate? after with
              | some (.ok low) =>
                let code := 0x10000 + (high - 0xD800) * 0x400 + (low - 0xDC00)
                readText start fuel (after.drop 6) (pos + 12) (Char.ofNat code :: done)
              | some (.error _) => .error (.problem .badUnicode (pos + 7))
              | none => readText start fuel after (pos + 6) ('\ufffd' :: done)
            else readText start fuel after (pos + 6)
              ((if 0xDC00 ≤ high ∧ high < 0xE000 then '\ufffd' else Char.ofNat high) :: done)
      | e :: rest =>
        match simpleEscape? e with
        | some ch => readText start fuel rest (pos + 2) (ch :: done)
        | none => .error (.problem .badEscape pos)
    else if c.toNat < 32 then .error (.problem .controlCharacter pos)
    else readText start fuel rest (pos + 1) (c :: done)

/-! ## 4. Numbers -/

/-- How many digits come first. -/
def digitSpan (cs : List Char) : Nat := (cs.takeWhile Char.isDigit).length

/-- The characters of a number before its point; a zero in front stands alone. -/
def wholeSpan : List Char → Nat
  | '0' :: _ => 1
  | cs => digitSpan cs

/-- The characters of a fraction, point included. -/
def fractionSpan : List Char → Nat
  | '.' :: cs => if digitSpan cs = 0 then 0 else digitSpan cs + 1
  | _ => 0

/-- The characters of an exponent, mark and sign included. -/
def exponentSpan : List Char → Nat
  | e :: cs =>
    if e = 'e' ∨ e = 'E' then
      let sign := match cs with
        | '+' :: _ | '-' :: _ => 1
        | _ => 0
      let digits := digitSpan (cs.drop sign)
      if digits = 0 then 0 else 1 + sign + digits
    else 0
  | [] => 0

/-- The characters of the longest number in front, and whether it is a double. -/
def numberSpan? (cs : List Char) : Option (Nat × Bool) :=
  let sign := if cs.head? = some '-' then 1 else 0
  let whole := wholeSpan (cs.drop sign)
  if whole = 0 then none
  else
    let fraction := fractionSpan (cs.drop (sign + whole))
    let exponent := exponentSpan (cs.drop (sign + whole + fraction))
    some (sign + whole + fraction + exponent, fraction + exponent ≠ 0)

/-- The number in front, if one is there. -/
def readNumber (c : Cursor) : Except Stop (Value × Cursor) :=
  match numberSpan? c.rest with
  | none => c.stop .expectingValue
  | some (n, isFloat) =>
    let text := String.ofList (c.rest.take n)
    let rest := c.skip n
    if isFloat then .ok (.float ((Numeral.float? text).getD 0), rest)
    else match Numeral.int text with
      | .ok i => .ok (.int i, rest)
      | .error (.tooLong d) => .error (.tooLong d)
      | .error .malformed => c.stop .expectingValue

/-- The words that stand for a value. -/
def words : List (String × Value) :=
  [("null", .null), ("true", .bool true), ("false", .bool false), ("NaN", .float notANumber),
   ("Infinity", .float (infinite false)), ("-Infinity", .float (infinite true))]

/-- The word in front, if one is there. -/
def word? (c : Cursor) : Option (Value × Cursor) :=
  (words.find? fun (w, _) => w.toList.isPrefixOf c.rest).map fun (w, v) => (v, c.skip w.length)

/-! ## 5. Values -/

/-- The entries of a mapping, in the order in which they were read. -/
def ofPairs (policy : Duplicates) (pairs : List (String × Value)) : Except Stop Value :=
  Value.dict <$> pairs.foldlM (fun es (k, v) =>
    if policy = Duplicates.reject ∧ Entries.has k es then .error (Stop.duplicate k)
    else .ok (Entries.insert k v es)) []

mutual

/-- The value in front. -/
def readValue (policy : Duplicates) : Nat → Cursor → Except Stop (Value × Cursor)
  | 0, c => c.stop .expectingValue
  | fuel + 1, c =>
    match c.rest with
    | '"' :: rest => do
      let (s, c) ← readText c.position (rest.length + 1) rest (c.position + 1) []
      return (.text s, c)
    | '{' :: _ =>
      let c := (c.skip 1).skipSpace
      match c.rest with
      | '}' :: _ => .ok (.dict [], c.skip 1)
      | _ => readEntries policy fuel c []
    | '[' :: _ =>
      let c := (c.skip 1).skipSpace
      match c.rest with
      | ']' :: _ => .ok (.list [], c.skip 1)
      | _ => readItems policy fuel c []
    | _ => match word? c with
      | some found => .ok found
      | none => readNumber c

/-- The entries of a mapping after its brace; those already read come last first. -/
def readEntries (policy : Duplicates) : Nat → Cursor → List (String × Value) → Except Stop (Value × Cursor)
  | 0, c, _ => c.stop .expectingName
  | fuel + 1, c, done =>
    match c.rest with
    | '"' :: rest => do
      let (name, c) ← readText c.position (rest.length + 1) rest (c.position + 1) []
      let c := c.skipSpace
      match c.rest with
      | ':' :: _ =>
        let (v, c) ← readValue policy fuel (c.skip 1).skipSpace
        let c := c.skipSpace
        match c.rest with
        | '}' :: _ => return (← ofPairs policy ((name, v) :: done).reverse, c.skip 1)
        | ',' :: _ => readEntries policy fuel (c.skip 1).skipSpace ((name, v) :: done)
        | _ => c.stop .expectingComma
      | _ => c.stop .expectingColon
    | _ => c.stop .expectingName

/-- The items of a list after its bracket; those already read come last first. -/
def readItems (policy : Duplicates) : Nat → Cursor → List Value → Except Stop (Value × Cursor)
  | 0, c, _ => c.stop .expectingValue
  | fuel + 1, c, done => do
    let (v, c) ← readValue policy fuel c
    let c := c.skipSpace
    match c.rest with
    | ']' :: _ => return (.list (v :: done).reverse, c.skip 1)
    | ',' :: _ => readItems policy fuel (c.skip 1).skipSpace (v :: done)
    | _ => c.stop .expectingComma

end

/-- Line and column of a position, both from 1. -/
def place (cs : List Char) (position : Nat) : Nat × Nat :=
  let before := cs.take position
  ((before.filter (· = '\n')).length + 1, (before.reverse.takeWhile (· ≠ '\n')).length + 1)

/-- A stop as an error of the whole text. -/
def Stop.toError (cs : List Char) : Stop → ReadError
  | problem p position =>
    let (line, column) := place cs position
    .malformed ⟨p, position, line, column⟩
  | duplicate key => .duplicateKey key
  | tooLong d => .integerTooLong d

/-- The value of a whole text; a bracket takes two steps, one for the value and one for its items. -/
def read (s : String) (policy : Duplicates := .keepLast) : Except ReadError Value :=
  let cs := s.toList
  let result : Except Stop Value :=
    if cs.head? = some '\ufeff' then .error (.problem .byteOrderMark 0)
    else do
      let (v, c) ← readValue policy (2 * cs.length + 2) (Cursor.mk cs 0).skipSpace
      let c := c.skipSpace
      if c.rest.isEmpty then return v else c.stop .extraData
  result.mapError (Stop.toError cs)

end Json

end Statechart
