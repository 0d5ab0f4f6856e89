/-
# Marked text

A line for the screen may have marks in square brackets that change how the text after them looks. A
mark begins with a small letter or one of `#`, `/`, `@`; with a slash it ends the mark of its name, or
the last one. A backslash before a mark makes it text. Without colours only the text is left.

* `Markup.render`: the text of a marked line;
* `Markup.plain`: a text as it appears on the screen.
-/
import Statechart.Text.Case
import Statechart.Text.Blank

namespace Statechart

namespace Markup

/-- A mark that ends what was never begun. -/
structure Unmatched where
  tag : String
  position : Nat
deriving DecidableEq, Repr, Inhabited

def Unmatched.message (e : Unmatched) : String :=
  "closing tag '[" ++ e.tag ++ "]' at position " ++ toString e.position ++
    (if e.tag = "/" then " has nothing to close" else " doesn't match any open tag")

/-- The mark after an opening bracket, and the rest. -/
def tag? : List Char → Option (List Char × List Char)
  | [] => none
  | c :: rest =>
    if ('a' ≤ c ∧ c ≤ 'z') ∨ c = '#' ∨ c = '/' ∨ c = '@' then
      let body := rest.takeWhile fun d => d ≠ '[' ∧ d ≠ ']'
      match rest.drop body.length with
      | ']' :: rest => some (c :: body, rest)
      | _ => none
    else none

/-- The name of a mark, apart from its parameters. -/
def nameOf (tag : List Char) : String :=
  toLowerCase (strip (String.ofList (tag.takeWhile (· ≠ '='))))

/-- The marks that are still open after one more; nothing if it ends what was never begun. -/
def after? (marks : List String) (tag : List Char) : Option (List String) :=
  match tag with
  | '/' :: rest =>
    let name := nameOf rest
    if name.isEmpty then if marks.isEmpty then none else some marks.tail
    else if marks.contains name then some (marks.erase name) else none
  | _ => some (nameOf tag :: marks)

/-- The text of marked characters from a position on, given the open marks. -/
def renderFrom : Nat → Nat → List String → List Char → Except Unmatched (List Char)
  | 0, _, _, cs => .ok cs
  | fuel + 1, position, marks, cs =>
    let slashes := (cs.takeWhile (· = '\\')).length
    let text := fun n => List.replicate n '\\'
    match cs.drop slashes with
    | [] => .ok (text slashes)
    | '[' :: rest =>
      match tag? rest with
      | some (tag, rest) =>
        let next := position + slashes + tag.length + 2
        if slashes % 2 = 1 then
          (text (slashes / 2) ++ '[' :: tag ++ ']' :: ·) <$> renderFrom fuel next marks rest
        else match after? marks tag with
          | some marks => (text (slashes / 2) ++ ·) <$> renderFrom fuel next marks rest
          | none => .error ⟨String.ofList tag, position + slashes⟩
      | none =>
        (text (slashes - 1) ++ '[' :: ·) <$> renderFrom fuel (position + slashes + 1) marks rest
    | c :: rest => (text slashes ++ c :: ·) <$> renderFrom fuel (position + slashes + 1) marks rest

/-- The text of a marked line. -/
def render (s : String) : Except Unmatched String :=
  String.ofList <$> renderFrom (s.length + 1) 0 [] s.toList

/-- Characters with tabs as blanks up to the next multiple of eight columns. -/
def expandTabs (column : Nat) : List Char → List Char
  | [] => []
  | c :: cs =>
    if c = '\t' then
      let n := 8 - column % 8
      List.replicate n ' ' ++ expandTabs (column + n) cs
    else c :: expandTabs (if c = '\n' then 0 else column + 1) cs

/-- The characters that move the cursor and are left out. -/
def isControl (c : Char) : Bool := [7, 8, 11, 12, 13].contains c.toNat

/-- A text as it appears on the screen. -/
def plain (s : String) : String := String.ofList (expandTabs 0 (s.toList.filter (!isControl ·)))

/-- What ends the innermost mark leaves those around it. -/
theorem after_close (marks : List String) (name : String) :
    after? (name :: marks) ['/'] = some marks := by
  have : (nameOf []).isEmpty = true := by decide +kernel
  simp [after?, this]

end Markup

end Statechart
