/-
# YAML tokens

The marks of a YAML text: brackets and commas of the compact form, the beginnings and ends of
indented blocks, anchors and aliases, and scalars with the way they were written.

* `Yaml.Token`;
* `Yaml.Cursor`: the rest of a text and where it begins;
* `Yaml.Trouble`: what is wrong with a text.
-/
namespace Statechart

namespace Yaml

/-- What is wrong with a text. -/
inductive Trouble where
  | unprintable
  | strayCharacter
  | misplacedKey
  | misplacedValue
  | misplacedEntry
  | missingColon
  | unclosedQuote
  | badEscape
  | badHeader
  | badName
  | unexpectedToken
  | severalDocuments
  | unknownAlias
  | unknownTag
  | badScalar
  | badKey
  | duplicateKey
  | badMerge
deriving DecidableEq, Repr, Inhabited

/-- A mark of a text. -/
inductive Token where
  | blockSequence
  | blockMapping
  | blockEnd
  /-- The dash before an item. -/
  | entry
  | key
  | value
  | sequenceStart
  | sequenceEnd
  | mappingStart
  | mappingEnd
  | comma
  | alias (name : String)
  | anchor (name : String)
  | tag (name : String)
  | scalar (text : String) (isPlain : Bool)
  | directive
  | documentStart
  | documentEnd
deriving DecidableEq, Repr, Inhabited

/-! ## The text that is left -/

def isBreak (c : Char) : Bool := c = '\n' ∨ c = '\x85'

def isGap (c : Char) : Bool := c = ' ' ∨ c = '\t'

/-- Whether a word ends before what comes next. -/
def endsWord : Option Char → Bool
  | some c => isGap c || isBreak c
  | none => true

/-- The characters a text may be made of. -/
def isAllowed (c : Char) : Bool :=
  let n := c.toNat
  n = 9 ∨ n = 10 ∨ n = 13 ∨ (0x20 ≤ n ∧ n ≤ 0x7E) ∨ n = 0x85 ∨ (0xA0 ≤ n ∧ n ≤ 0xFFFD) ∨ 0x10000 ≤ n

/-- The rest of a text, and the position, the line and the column of its first character. -/
structure Cursor where
  rest : List Char
  index : Nat := 0
  line : Nat := 0
  column : Nat := 0
deriving Inhabited

namespace Cursor

/-- Past one character. -/
def next (c : Cursor) : Cursor :=
  match c.rest with
  | [] => c
  | ch :: rest =>
    if isBreak ch then ⟨rest, c.index + 1, c.line + 1, 0⟩ else ⟨rest, c.index + 1, c.line, c.column + 1⟩

/-- Past the next `n` characters. -/
def skip : Nat → Cursor → Cursor
  | 0, c => c
  | n + 1, c => skip n c.next

/-- Past the characters in front that satisfy the test. -/
def skipWhile (p : Char → Bool) (c : Cursor) : Cursor := c.skip (c.rest.takeWhile p).length

/-- Whether a line begins with three characters that are a word of their own. -/
def startsWith (mark : String) (c : Cursor) : Bool :=
  c.column = 0 && c.rest.take 3 = mark.toList && endsWord c.rest[3]?

/-- Whether a line begins or ends a document. -/
def isAtMarker (c : Cursor) : Bool := c.startsWith "---" || c.startsWith "..."

/-- Moving on takes one character from the rest. -/
theorem rest_next (c : Cursor) : c.next.rest = c.rest.tail := by
  unfold next
  split
  · simp_all
  · rename_i ch rest h
    rw [h]
    split <;> rfl

theorem rest_skip (n : Nat) (c : Cursor) : (c.skip n).rest = c.rest.drop n := by
  induction n generalizing c with
  | zero => simp [skip]
  | succ n ih => simp [skip, ih, rest_next]

end Cursor

end Yaml

end Statechart
