/-
# YAML scalars

The text of a scalar in each of the ways it can be written.

* `Yaml.quoted`: between quotes, single or double;
* `Yaml.plain`: without quotes, as long as nothing ends it;
* `Yaml.block`: as indented lines after a `|` or a `>`.

A line break inside a scalar on several lines is read as a blank, and further ones as line breaks;
indented lines after a `|` keep theirs.
-/
import Statechart.Yaml.Token
import Statechart.Json.Reader

namespace Statechart

namespace Yaml

/-! ## 1. Line breaks -/

/-- What a line break and `n` empty lines after it are read as. -/
def folded (n : Nat) : List Char := if n = 0 then [' '] else List.replicate n '\n'

/-- Past empty lines between quotes and the blanks before the next word, with the number of lines. -/
def skipLines : Nat → Cursor → Except Trouble (Nat × Cursor)
  | 0, c => .ok (0, c)
  | fuel + 1, c =>
    if c.isAtMarker then .error .unclosedQuote
    else
      let c := c.skipWhile isGap
      if (c.rest.head?.map isBreak).getD false then
        (fun (n, c) => (n + 1, c)) <$> skipLines fuel c.next
      else .ok (0, c)

/-! ## 2. Quoted text -/

/-- The characters that a letter after a backslash stands for. -/
def simpleEscapes : List (Char × Char) :=
  [('0', '\x00'), ('a', '\x07'), ('b', '\x08'), ('t', '\t'), ('\t', '\t'), ('n', '\n'), ('v', '\x0b'),
   ('f', '\x0c'), ('r', '\r'), ('e', '\x1b'), (' ', ' '), ('"', '"'), ('/', '/'), ('\\', '\\'),
   ('N', '\x85'), ('_', '\xa0'), ('L', '\u2028'), ('P', '\u2029')]

/-- How many hexadecimal digits follow a letter after a backslash. -/
def codeWidth? : Char → Option Nat
  | 'x' => some 2
  | 'u' => some 4
  | 'U' => some 8
  | _ => none

/-- The character of a code written in hexadecimal. -/
def ofCode? (digits : List Char) : Option Char := do
  let n ← digits.foldlM (fun n c => (Json.hexValue? c).map (16 * n + ·)) 0
  if n.isValidChar then return Char.ofNat n else none

/-- What stands after a backslash, and the rest. -/
def escape (c : Cursor) : Except Trouble (List Char × Cursor) :=
  match c.rest with
  | [] => .error .unclosedQuote
  | ch :: rest =>
    match simpleEscapes.lookup ch, codeWidth? ch with
    | some e, _ => .ok ([e], c.next)
    | none, some n =>
      if rest.length < n then .error .badEscape
      else match ofCode? (rest.take n) with
        | some e => .ok ([e], c.skip (n + 1))
        | none => .error .badEscape
    | none, none =>
      if isBreak ch then (fun (n, c) => (List.replicate n '\n', c)) <$> skipLines rest.length c.next
      else .error .badEscape

/-- The characters up to the closing quote, after those already read in reverse. -/
def quotedFrom (isDouble : Bool) : Nat → Cursor → List Char → Except Trouble (String × Cursor)
  | 0, _, _ => .error .unclosedQuote
  | fuel + 1, c, done =>
    match c.rest with
    | [] => .error .unclosedQuote
    | ch :: rest =>
      if isGap ch || isBreak ch then
        let blanks := c.rest.takeWhile isGap
        let c := c.skip blanks.length
        match c.rest.head? with
        | none => .error .unclosedQuote
        | some b =>
          if isBreak b then do
            let (n, c) ← skipLines c.rest.length c.next
            quotedFrom isDouble fuel c ((folded n).reverse ++ done)
          else quotedFrom isDouble fuel c (blanks.reverse ++ done)
      else if isDouble then
        if ch = '"' then .ok (String.ofList done.reverse, c.next)
        else if ch = '\\' then do
          let (text, c) ← escape c.next
          quotedFrom isDouble fuel c (text.reverse ++ done)
        else quotedFrom isDouble fuel c.next (ch :: done)
      else if ch = '\'' then
        if rest.head? = some '\'' then quotedFrom isDouble fuel (c.skip 2) (ch :: done)
        else .ok (String.ofList done.reverse, c.next)
      else quotedFrom isDouble fuel c.next (ch :: done)

/-- The text after an opening quote. -/
def quoted (isDouble : Bool) (c : Cursor) : Except Trouble (String × Cursor) :=
  quotedFrom isDouble (c.rest.length + 1) c []

/-! ## 3. Plain text -/

/-- The characters that end plain text inside brackets. -/
def isBracket (c : Char) : Bool := c ∈ [',', '[', ']', '\x7b', '\x7d']

/-- How many characters a word of plain text has; a colon belongs to it unless a blank follows. -/
def wordLength (isFlow : Bool) : List Char → Nat
  | [] => 0
  | ch :: rest =>
    if ch = ':' then if endsWord rest.head? then 0 else wordLength isFlow rest + 1
    else if endsWord (some ch) || (isFlow && isBracket ch) then 0
    else wordLength isFlow rest + 1

/-- What lies between two words of plain text. -/
inductive Between where
  | blanks (n : Nat)
  | lines (n : Nat)
  /-- A document begins or ends, or the text does. -/
  | closed
deriving DecidableEq

/-- Past further empty lines and the blanks before the next word. -/
def skipEmptyLines : Nat → Nat → Cursor → Between × Cursor
  | 0, n, c => (.lines n, c)
  | fuel + 1, n, c =>
    match c.rest.head? with
    | some ' ' => skipEmptyLines fuel n c.next
    | some ch =>
      if isBreak ch then
        if c.next.isAtMarker then (.closed, c.next) else skipEmptyLines fuel (n + 1) c.next
      else (.lines n, c)
    | none => (.lines n, c)

/-- What comes after a word, and the rest. -/
def between (c : Cursor) : Between × Cursor :=
  let blanks := (c.rest.takeWhile (· = ' ')).length
  let c := c.skip blanks
  match c.rest.head? with
  | none => (.closed, c)
  | some ch =>
    if !isBreak ch then (.blanks blanks, c)
    else if c.next.isAtMarker then (.closed, c.next)
    else skipEmptyLines c.rest.length 0 c.next

/-- Plain text from a word on, after the characters already read; and whether it ended with a line. -/
def plainFrom (isFlow : Bool) (indent : Nat) : Nat → Cursor → List Char → List Char × Cursor × Bool
  | 0, c, done => (done, c, false)
  | fuel + 1, c, done =>
    let n := wordLength isFlow c.rest
    let word := done ++ c.rest.take n
    let (gap, c) := between (c.skip n)
    let isWord := c.rest.head? ≠ some '#' && (isFlow || indent ≤ c.column) && wordLength isFlow c.rest ≠ 0
    match gap with
    | .closed => (word, c, true)
    | .blanks 0 => (word, c, false)
    | .blanks k =>
      if isWord then plainFrom isFlow indent fuel c (word ++ List.replicate k ' ') else (word, c, false)
    | .lines k => if isWord then plainFrom isFlow indent fuel c (word ++ folded k) else (word, c, true)

/-- Plain text; its further lines are indented by at least `indent`. -/
def plain (isFlow : Bool) (indent : Nat) (c : Cursor) : String × Cursor × Bool :=
  let (text, c, endsLine) := plainFrom isFlow indent c.rest.length c []
  (String.ofList text, c, endsLine)

/-! ## 4. Indented lines -/

/-- What becomes of the line breaks at the end of indented lines. -/
inductive Chomping where
  | strip | clip | keep
deriving DecidableEq, Repr

/-- What stands after a `|` or a `>`. -/
structure Header where
  chomping : Chomping := .clip
  /-- How far the lines are indented, if it is said. -/
  increment : Option Nat := none

/-- The end that a sign asks for. -/
def chomping? : Char → Option Chomping
  | '+' => some .keep
  | '-' => some .strip
  | _ => none

/-- An indentation that is said. -/
def increment? (c : Char) : Option Nat := if '1' ≤ c ∧ c ≤ '9' then some (c.toNat - 48) else none

/-- The header in front, and how many characters it has. -/
def header : List Char → Header × Nat
  | a :: b :: _ =>
    match chomping? a, increment? a with
    | some ch, _ => (⟨ch, increment? b⟩, if (increment? b).isSome then 2 else 1)
    | none, some n => (⟨(chomping? b).getD .clip, some n⟩, if (chomping? b).isSome then 2 else 1)
    | none, none => ({}, 0)
  | [a] => (⟨(chomping? a).getD .clip, increment? a⟩, if (chomping? a).isSome || (increment? a).isSome then 1 else 0)
  | [] => ({}, 0)

/-- Past the rest of a header's line, on which only a comment may stand. -/
def skipHeaderLine (c : Cursor) : Except Trouble Cursor :=
  if !(endsWord c.rest.head? && c.rest.head? ≠ some '\t') then .error .badHeader
  else
    let c := c.skipWhile (· = ' ')
    let c := if c.rest.head? = some '#' then c.skipWhile (!isBreak ·) else c
    if (c.rest.head?.map isBreak).getD true then .ok c.next else .error .badHeader

/-- The lines of a text, and of each whether a line break ends it. -/
def lines : List Char → List (List Char × Bool)
  | [] => []
  | c :: cs =>
    if isBreak c then ([], true) :: lines cs
    else match lines cs with
      | (l, isEnded) :: ls => (c :: l, isEnded) :: ls
      | [] => [([c], false)]

/-- A line of a block. -/
inductive BlockLine where
  | empty
  | text (cs : List Char)
deriving DecidableEq

/-- How many blanks a line begins with. -/
def leading (cs : List Char) : Nat := (cs.takeWhile (· = ' ')).length

/-- What a line is in a block that is indented by `indent`; nothing if the block ends before it. -/
def blockLine? (indent : Nat) (cs : List Char) (isEnded : Bool) : Option BlockLine :=
  let rest := cs.drop (min indent (leading cs))
  if rest.isEmpty then if isEnded then some .empty else none
  else if indent ≤ leading cs then some (.text rest) else none

/-- The lines of a block, how many characters they take, and whether a line break ends the last. -/
def blockLines (indent : Nat) : List (List Char × Bool) → List BlockLine × Nat × Bool
  | [] => ([], 0, false)
  | (cs, isEnded) :: ls =>
    match blockLine? indent cs isEnded with
    | none => ([], 0, true)
    | some l =>
      let (below, n, ended) := blockLines indent ls
      (l :: below, cs.length + (if isEnded then 1 else 0) + n, if below.isEmpty then isEnded else ended)

/-- The indentation that the first line with text and the empty ones before it show. -/
def shownIndent : List (List Char × Bool) → Nat
  | [] => 0
  | (cs, isEnded) :: ls =>
    if leading cs = cs.length && isEnded then max cs.length (shownIndent ls) else leading cs

/-- What lies between two lines with text that have `n` empty lines between them. -/
def joint (isFolded : Bool) (a b : List Char) (n : Nat) : List Char :=
  let isFlush := fun (l : List Char) => !(l.head?.map isGap).getD false
  if isFolded && isFlush a && isFlush b then folded n else List.replicate (n + 1) '\n'

/-- The text of lines after a line and `n` empty ones, and how many empty ones are last. -/
def bodyAfter (isFolded : Bool) (a : List Char) (n : Nat) : List BlockLine → List Char × Nat
  | [] => ([], n)
  | .empty :: ls => bodyAfter isFolded a (n + 1) ls
  | .text b :: ls =>
    let (text, last) := bodyAfter isFolded b 0 ls
    (joint isFolded a b n ++ b ++ text, last)

/-- The text of lines, whether there is any, and how many empty ones are last. -/
def body (isFolded : Bool) (n : Nat) : List BlockLine → List Char × Bool × Nat
  | [] => ([], false, n)
  | .empty :: ls => body isFolded (n + 1) ls
  | .text a :: ls =>
    let (text, last) := bodyAfter isFolded a 0 ls
    (List.replicate n '\n' ++ a ++ text, true, last)

/-- The text of indented lines, of which the mark is already read. -/
def block (isFolded : Bool) (minimum : Nat) (c : Cursor) : Except Trouble (String × Cursor) := do
  let (h, n) := header c.rest
  let c ← skipHeaderLine (c.skip n)
  let all := lines c.rest
  let indent := match h.increment with
    | some n => max minimum 1 + n - 1
    | none => max minimum (shownIndent all)
  let (ls, length, isEnded) := blockLines indent all
  let (text, hasText, last) := body isFolded 0 ls
  let lastBreak := if hasText && (isEnded || 0 < last) then ['\n'] else []
  let tail := match h.chomping with
    | .strip => []
    | .clip => lastBreak
    | .keep => lastBreak ++ List.replicate last '\n'
  return (String.ofList (text ++ tail), c.skip length)

end Yaml

end Statechart
