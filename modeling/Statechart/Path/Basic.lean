/-
# Paths

A path names a place inside a value: `user.name`, `items[1].id`, `data['key with spaces']`. A dot
ends the segment before it; brackets hold an index or, when the content is quoted or no integer, a
key. Empty segments vanish.

* `Path.parse`: the segments of a path text;
* `Path.format`: the text of a list of segments;
* `parseFrom_ok_shift`: where a path stands in a longer text does not change its segments.
-/
import Statechart.Number.Numeral

namespace Statechart

/-! ## 1. Segments and what can be wrong with a path -/

/-- A step into a value: an entry of a mapping or an item of a list. -/
inductive Segment where
  | key (s : String)
  | index (n : Int)
deriving DecidableEq, Repr, Inhabited

/-- A path, read from the outside in. -/
abbrev Path := List Segment

/-- What is wrong with the text of a path; the position is that of the opening bracket. -/
inductive PathError where
  | unclosedQuote (position : Nat)
  | unclosedBracket (position : Nat)
deriving DecidableEq, Repr, Inhabited

def PathError.message : PathError → String
  | unclosedQuote n => "Unclosed quote in bracket starting at position " ++ toString n
  | unclosedBracket n => "Unclosed bracket starting at position " ++ toString n

namespace Segment

/-- The name a segment has in a mapping. -/
def name : Segment → String
  | key s => s
  | index n => toString n

/-- The position a segment has in a list, if it has one. -/
def position? : Segment → Option Int
  | key s => Numeral.int? s
  | index n => some n

end Segment

/-! ## 2. Brackets -/

/-- The content of a bracket as far as it has been read, last character first. -/
structure Bracket where
  content : List Char
  /-- The mark of the quotes that are open. -/
  quote : Option Char
  /-- Whether any part of the content stood in quotes. -/
  quoted : Bool
  /-- The character read last. -/
  last : Char
deriving Inhabited

namespace Bracket

/-- The state just after the opening bracket. -/
def opened : Bracket := ⟨[], none, false, '['⟩

/-- One more character, other than a closing bracket outside quotes. -/
def push (b : Bracket) (c : Char) : Bracket :=
  match b.quote with
  | none =>
    if c = '\'' ∨ c = '"' then { b with quote := some c, quoted := true, last := c }
    else if isBlank c then { b with last := c }
    else { b with content := c :: b.content, last := c }
  | some mark =>
    if c = mark then
      if b.last = '\\' then { b with content := c :: b.content.drop 1, last := c }
      else { b with quote := none, last := c }
    else { b with content := c :: b.content, last := c }

/-- The segment a closed bracket stands for. -/
def segment (b : Bracket) : Segment :=
  let text := String.ofList b.content.reverse
  match b.quoted, Numeral.int? text with
  | false, some n => .index n
  | _, _ => .key text

end Bracket

/-! ## 3. Parsing -/

/-- What is being read: the characters of a key, or the inside of a bracket. -/
inductive PathState where
  /-- The key so far, last character first. -/
  | plain (pending : List Char)
  /-- A bracket and the position at which it was opened. -/
  | inside (start : Nat) (b : Bracket)
deriving Inhabited

namespace Path

/-- A pending key as a segment; none when it is empty. -/
def flush (pending : List Char) : Path :=
  if pending.isEmpty then [] else [.key (String.ofList pending.reverse)]

/-- The segments of the rest of a path, from a position and a state. -/
def parseFrom (pos : Nat) : PathState → List Char → Except PathError Path
  | .plain pending, [] => .ok (flush pending)
  | .inside start b, [] =>
    .error (if b.quote.isSome then .unclosedQuote start else .unclosedBracket start)
  | .plain pending, c :: cs =>
    if c = '.' then (flush pending ++ ·) <$> parseFrom (pos + 1) (.plain []) cs
    else if c = '[' then
      (flush pending ++ ·) <$> parseFrom (pos + 1) (.inside pos Bracket.opened) cs
    else parseFrom (pos + 1) (.plain (c :: pending)) cs
  | .inside start b, c :: cs =>
    if c = ']' ∧ b.quote = none then
      (b.segment :: ·) <$> parseFrom (pos + 1) (.plain []) cs
    else parseFrom (pos + 1) (.inside start (b.push c)) cs

/-- The segments of a path text. -/
def parse (s : String) : Except PathError Path := parseFrom 0 (.plain []) s.toList

/-- The text of a list of segments: indices in brackets, keys after dots. -/
def formatFrom (done : String) : Path → String
  | [] => done
  | .index n :: rest => formatFrom (done ++ "[" ++ toString n ++ "]") rest
  | .key s :: rest => formatFrom (if done.isEmpty then s else done ++ "." ++ s) rest

/-- The text of a path.  Its indices are written whatever their length; a path that was read has none of more
than `Numeral.digitLimit` digits. -/
def format (p : Path) : String := formatFrom "" p

/-! ## 4. Small facts -/

@[simp] theorem parse_empty : parse "" = .ok [] := rfl

@[simp] theorem format_nil : format [] = "" := rfl

/-- Where a path starts in a longer text matters for error positions only. -/
theorem parseFrom_ok_shift {pos : Nat} {st : PathState} {cs : List Char} {p : Path}
    (h : parseFrom pos st cs = .ok p) (pos' : Nat) (start' : Nat) :
    parseFrom pos' (match st with | .plain k => .plain k | .inside _ b => .inside start' b) cs
      = .ok p := by
  induction cs generalizing pos st p pos' start' with
  | nil =>
    cases st with
    | plain pending => exact h
    | inside start b => simp [parseFrom] at h
  | cons c cs ih =>
    cases st with
    | plain pending =>
      simp only [parseFrom] at h ⊢
      split at h <;> rename_i hc
      · rw [if_pos hc]
        cases hr : parseFrom (pos + 1) (.plain []) cs with
        | error e => simp [hr, Functor.map, Except.map] at h
        | ok r =>
          have := ih hr (pos' + 1) 0
          simp only at this
          rw [this]; rw [hr] at h; exact h
      · rw [if_neg hc]
        split at h <;> rename_i hb
        · rw [if_pos hb]
          cases hr : parseFrom (pos + 1) (.inside pos Bracket.opened) cs with
          | error e => simp [hr, Functor.map, Except.map] at h
          | ok r =>
            have := ih hr (pos' + 1) pos'
            simp only at this
            rw [this]; rw [hr] at h; exact h
        · rw [if_neg hb]
          exact ih h (pos' + 1) 0
    | inside start b =>
      simp only [parseFrom] at h ⊢
      split at h <;> rename_i hc
      · rw [if_pos hc]
        cases hr : parseFrom (pos + 1) (.plain []) cs with
        | error e => simp [hr, Functor.map, Except.map] at h
        | ok r =>
          have := ih hr (pos' + 1) 0
          simp only at this
          rw [this]; rw [hr] at h; exact h
      · rw [if_neg hc]
        exact ih h (pos' + 1) start'

end Path

end Statechart
