/-
# From text to YAML tokens

A text is read token by token. Columns tell where indented blocks begin and end. Whether a scalar is
the key of a mapping shows only when the colon after it is read, so a place where a key may have begun
is remembered, and the mark of the key is put in there. Such a place is given up at the end of its
line, and after 1024 characters.

* `Yaml.tokens`: the tokens of a text;
* `length_putIn`: putting a mark in loses no token.
-/
import Statechart.Yaml.Scalar

namespace Statechart

namespace Yaml

/-- A place where a key may have begun. -/
structure PossibleKey where
  /-- How many tokens come before it. -/
  place : Nat
  /-- Whether nothing but a key can stand there. -/
  isRequired : Bool
  index : Nat
  line : Nat
  column : Nat

/-- The brackets that can be open. -/
inductive Bracket where
  | sequence | mapping
deriving DecidableEq

/-- A text in the middle of being read. -/
structure Lexer where
  cursor : Cursor
  /-- The tokens so far, the latest first, and their number. -/
  found : List Token := []
  count : Nat := 0
  /-- The columns of the open blocks, innermost first. -/
  indents : List Nat := []
  /-- The open brackets, innermost first. -/
  brackets : List Bracket := []
  /-- Whether a key may begin here. -/
  allowsKey : Bool := true
  /-- The place of a possible key inside each open bracket and outside all, innermost first. -/
  keys : List (Option PossibleKey) := [none]
  isDone : Bool := false

namespace Lexer

/-! ## 1. Tokens found -/

def emit (t : Token) (l : Lexer) : Lexer := { l with found := t :: l.found, count := l.count + 1 }

/-- Tokens, the latest first, with one more at a place. -/
def putIn (t : Token) (count place : Nat) (found : List Token) : List Token :=
  found.take (count - place) ++ t :: found.drop (count - place)

/-- Putting a mark in loses no token. -/
theorem length_putIn (t : Token) (count place : Nat) (found : List Token) :
    (putIn t count place found).length = found.length + 1 := by
  simp only [putIn, List.length_append, List.length_take, List.length_cons, List.length_drop]
  omega

/-- One more token in front of those after a place. -/
def emitAt (place : Nat) (t : Token) (l : Lexer) : Lexer :=
  { l with found := putIn t l.count place l.found, count := l.count + 1 }

/-- On to a place in the text. -/
def moveTo (c : Cursor) (l : Lexer) : Lexer := { l with cursor := c }

def isFlow (l : Lexer) : Bool := !l.brackets.isEmpty

def column (l : Lexer) : Nat := l.cursor.column

/-! ## 2. Blocks -/

/-- Close the blocks that are indented by more than a column. -/
def closeBeyond (column : Nat) (l : Lexer) : Lexer :=
  if l.isFlow then l
  else
    let closed := (l.indents.takeWhile (column < ·)).length
    { l with
      indents := l.indents.drop closed
      found := List.replicate closed .blockEnd ++ l.found
      count := l.count + closed }

/-- Close all blocks. -/
def closeAll (l : Lexer) : Lexer :=
  if l.isFlow then l
  else
    { l with
      indents := []
      found := List.replicate l.indents.length .blockEnd ++ l.found
      count := l.count + l.indents.length }

/-- Whether a column lies beyond the innermost block. -/
def isBeyond (column : Nat) (l : Lexer) : Bool :=
  match l.indents with
  | [] => true
  | indent :: _ => indent < column

/-- Open a block at the present column, if that lies beyond the innermost one. -/
def openBlock (t : Token) (l : Lexer) : Lexer :=
  if l.isBeyond l.column then (emit t l |> fun l => { l with indents := l.column :: l.indents }) else l

/-! ## 3. Possible keys -/

/-- A place given up: wrong where only a key can stand. -/
def giveUp : Option PossibleKey → Except Trouble (Option PossibleKey)
  | some k => if k.isRequired then .error .missingColon else .ok none
  | none => .ok none

/-- Give up the places that lie too far back. -/
def dropStale (l : Lexer) : Except Trouble Lexer := do
  let keys ← l.keys.mapM fun
    | some k =>
      if k.line ≠ l.cursor.line ∨ 1024 < l.cursor.index - k.index then giveUp (some k)
      else .ok (some k)
    | none => .ok none
  return { l with keys }

/-- Give up the place inside the innermost bracket. -/
def dropKey (l : Lexer) : Except Trouble Lexer := do
  let given ← giveUp (l.keys.head?.getD none)
  return { l with keys := given :: l.keys.tail }

/-- Remember that a key may begin here. -/
def saveKey (l : Lexer) : Except Trouble Lexer :=
  if l.allowsKey then do
    let l ← l.dropKey
    let c := l.cursor
    let key : PossibleKey :=
      ⟨l.count, !l.isFlow && l.indents.head? = some c.column, c.index, c.line, c.column⟩
    return { l with keys := some key :: l.keys.tail }
  else .ok l

def allow (b : Bool) (l : Lexer) : Lexer := { l with allowsKey := b }

/-! ## 4. Single tokens -/

/-- Past blanks, comments and line breaks; after a line break outside brackets a key may begin. -/
def skipSpace : Nat → Lexer → Lexer
  | 0, l => l
  | fuel + 1, l =>
    let c := l.cursor.skipWhile (if l.isFlow then isGap else (· = ' '))
    let c := if c.rest.head? = some '#' then c.skipWhile (!isBreak ·) else c
    if (c.rest.head?.map isBreak).getD false then
      skipSpace fuel { l with cursor := c.next, allowsKey := l.allowsKey || !l.isFlow }
    else l.moveTo c

/-- A mark outside all blocks that takes `n` characters. -/
def markDocument (t : Token) (n : Nat) (l : Lexer) : Except Trouble Lexer := do
  let l ← l.closeAll.dropKey
  return l.allow false |>.emit t |>.moveTo (l.cursor.skip n)

def openBracket (b : Bracket) (t : Token) (l : Lexer) : Except Trouble Lexer := do
  let l ← l.saveKey
  return { l.emit t with
    brackets := b :: l.brackets, keys := none :: l.keys, allowsKey := true, cursor := l.cursor.next }

def closeBracket (t : Token) (l : Lexer) : Except Trouble Lexer := do
  let l ← l.dropKey
  return { l.emit t with
    brackets := l.brackets.tail
    keys := if l.isFlow then l.keys.tail else l.keys
    allowsKey := false
    cursor := l.cursor.next }

def comma (l : Lexer) : Except Trouble Lexer := do
  let l ← l.dropKey
  return l.allow true |>.emit .comma |>.moveTo l.cursor.next

/-- The dash before an item. -/
def entry (l : Lexer) : Except Trouble Lexer := do
  if !l.isFlow && !l.allowsKey then throw .misplacedEntry
  let l := if l.isFlow then l else l.openBlock .blockSequence
  let l ← (l.allow true).dropKey
  return l.emit .entry |>.moveTo l.cursor.next

/-- The mark before a key. -/
def key (l : Lexer) : Except Trouble Lexer := do
  if !l.isFlow && !l.allowsKey then throw .misplacedKey
  let l := if l.isFlow then l else l.openBlock .blockMapping
  let l ← (l.allow !l.isFlow).dropKey
  return l.emit .key |>.moveTo l.cursor.next

/-- The colon before a value. -/
def value (l : Lexer) : Except Trouble Lexer :=
  match l.keys with
  | some k :: keys =>
    let l := (l.emitAt k.place .key).allow false
    let l := if !l.isFlow && l.isBeyond k.column then
        { l.emitAt k.place .blockMapping with indents := k.column :: l.indents } else l
    .ok ({ l with keys := none :: keys, cursor := l.cursor.next } |>.emit .value)
  | _ => do
    if !l.isFlow && !l.allowsKey then throw .misplacedValue
    let l := if l.isFlow then l else l.openBlock .blockMapping
    let l ← (l.allow !l.isFlow).dropKey
    return l.emit .value |>.moveTo l.cursor.next

/-- The characters of an anchor's name. -/
def isNameChar (c : Char) : Bool := !(endsWord (some c) || isBracket c)

/-- An anchor or an alias. -/
def reference (make : String → Token) (l : Lexer) : Except Trouble Lexer := do
  let l ← l.saveKey
  let name := (l.cursor.next.rest).takeWhile isNameChar
  if name.isEmpty then throw .badName
  return l.allow false |>.emit (make (String.ofList name)) |>.moveTo (l.cursor.skip (name.length + 1))

/-- The characters of a tag. -/
def isTagChar (c : Char) : Bool := c.isAlphanum || c ∈ "-;/?:@&=+$,_.!~*'()[]%#".toList

def tag (l : Lexer) : Except Trouble Lexer := do
  let l ← l.saveKey
  let name := l.cursor.rest.takeWhile isTagChar
  if !endsWord (l.cursor.skip name.length).rest.head? then throw .badName
  return l.allow false |>.emit (.tag (String.ofList name)) |>.moveTo (l.cursor.skip name.length)

/-- A scalar of indented lines. -/
def block (isFolded : Bool) (l : Lexer) : Except Trouble Lexer := do
  let l ← (l.allow true).dropKey
  let minimum := match l.indents with
    | [] => 0
    | n :: _ => n + 1
  let (text, c) ← Yaml.block isFolded minimum l.cursor.next
  return l.emit (.scalar text false) |>.moveTo c

/-- A scalar between quotes. -/
def quoted (isDouble : Bool) (l : Lexer) : Except Trouble Lexer := do
  let l ← l.saveKey
  let (text, c) ← Yaml.quoted isDouble l.cursor.next
  return l.allow false |>.emit (.scalar text false) |>.moveTo c

/-- A scalar without quotes. -/
def plain (l : Lexer) : Except Trouble Lexer := do
  let l ← l.saveKey
  let indent := match l.indents with
    | [] => 0
    | n :: _ => n + 1
  let (text, c, endsLine) := Yaml.plain l.isFlow indent l.cursor
  return l.allow endsLine |>.emit (.scalar text true) |>.moveTo c

/-- The end of the text. -/
def finish (l : Lexer) : Except Trouble Lexer := do
  let l ← l.closeAll.dropKey
  return { l with isDone := true }

/-! ## 5. All tokens -/

/-- The characters that cannot begin plain text. -/
def indicators : List Char := "-?:,[]\x7b\x7d#&*!|>'\"%@`".toList

/-- Whether plain text begins with a character, given the one after it. -/
def startsPlain (isFlow : Bool) (c : Char) (following : Option Char) : Bool :=
  (!endsWord (some c) && !indicators.contains c) ||
    (c = '-' && !endsWord following) ||
    (c = ':' && isFlow && !(following.map isGap).getD false) ||
    (!isFlow && (c = '?' || c = ':') && !endsWord following)

/-- Whether a colon comes before a value. -/
def isValue (l : Lexer) (following : Option Char) : Bool :=
  l.brackets.head? = some .mapping || endsWord following

/-- Read the next token. -/
def step (l : Lexer) : Except Trouble Lexer := do
  let l ← (l.skipSpace (l.cursor.rest.length + 1)).dropStale
  let l := l.closeBeyond l.column
  match l.cursor.rest with
  | [] => l.finish
  | c :: rest =>
    let isLast := endsWord rest.head?
    if c = '%' && l.column = 0 then l.markDocument .directive (l.cursor.rest.takeWhile (!isBreak ·)).length
    else if l.cursor.startsWith "---" then l.markDocument .documentStart 3
    else if l.cursor.startsWith "..." then l.markDocument .documentEnd 3
    else if c = '[' then l.openBracket .sequence .sequenceStart
    else if c = '\x7b' then l.openBracket .mapping .mappingStart
    else if c = ']' then l.closeBracket .sequenceEnd
    else if c = '\x7d' then l.closeBracket .mappingEnd
    else if c = ',' then l.comma
    else if c = '-' && isLast then l.entry
    else if c = '?' && (l.isFlow || isLast) then l.key
    else if c = ':' && l.isValue rest.head? then l.value
    else if c = '*' then l.reference .alias
    else if c = '&' then l.reference .anchor
    else if c = '!' then l.tag
    else if c = '|' && !l.isFlow then l.block false
    else if c = '>' && !l.isFlow then l.block true
    else if c = '\'' then l.quoted false
    else if c = '"' then l.quoted true
    else if startsPlain l.isFlow c rest.head? then l.plain
    else throw .strayCharacter

/-- Read tokens up to the end of the text. -/
def run : Nat → Lexer → Except Trouble Lexer
  | 0, l => .ok l
  | fuel + 1, l => do
    let l ← l.step
    if l.isDone then return l else run fuel l

end Lexer

/-- The tokens of a text; every token but the last takes a character. -/
def tokens (s : String) : Except Trouble (List Token) := do
  let cs := s.toList
  if !cs.all isAllowed then throw .unprintable
  let cs := if cs.head? = some '\ufeff' then cs.tail else cs
  let l ← Lexer.run (cs.length + 1) { cursor := { rest := cs } }
  return l.found.reverse

end Yaml

end Statechart
