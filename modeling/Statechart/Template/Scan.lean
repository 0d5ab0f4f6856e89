/-
# The parts of a template

A template is text with expressions between double braces or between `<%=` and `%>`. An expression
in braces may hold quoted text and nested braces. Inside an expression, bars outside quotes and
brackets separate a head from the filters applied to it.

* `Template.scan`: the pieces of a template;
* `Template.pipeline`: the stages of an expression;
* `scanFrom_plain`: text without an opening mark is one piece of text.
-/
import Statechart.Effect

namespace Statechart

namespace Template

/-! ## 1. Pieces -/

/-- A piece of a template. -/
inductive Piece where
  | text (s : String)
  | expression (s : String)
deriving DecidableEq, Repr, Inhabited

/-- What is being read; characters are kept last first. -/
inductive ScanState where
  | text (done : List Char)
  /-- Inside braces opened at `start`: nesting depth and the quote that is open. -/
  | braces (start : Nat) (depth : Int) (quote : Option Char) (done : List Char)
  /-- Inside a tag opened at `start`. -/
  | tag (start : Nat) (done : List Char)
deriving Inhabited

/-- Characters as a piece of text; none when there are none. -/
def textPiece (done : List Char) : List Piece :=
  if done.isEmpty then [] else [.text (String.ofList done.reverse)]

/-- Characters as an expression. -/
def expressionPiece (done : List Char) : Piece := .expression (strip (String.ofList done.reverse))

/-- The state after one more character inside braces. -/
def inBraces (start : Nat) (depth : Int) (quote : Option Char) (done : List Char) (c : Char) :
    ScanState :=
  match quote with
  | some q => .braces start depth (if c = q then none else quote) (c :: done)
  | none =>
    if c = '\'' ∨ c = '"' then .braces start depth (some c) (c :: done)
    else if c = '\x7b' then .braces start (depth + 1) none (c :: done)
    else if c = '\x7d' then .braces start (depth - 1) none (c :: done)
    else .braces start depth none (c :: done)

/-- The pieces of the rest of a template, from a position and a state. -/
def scanFrom (pos : Nat) : ScanState → List Char → Except EvalError (List Piece)
  | .text done, '{' :: '{' :: cs =>
    (textPiece done ++ ·) <$> scanFrom (pos + 2) (.braces pos 0 none []) cs
  | .text done, '<' :: '%' :: '=' :: cs =>
    (textPiece done ++ ·) <$> scanFrom (pos + 3) (.tag pos []) cs
  | .text done, c :: cs => scanFrom (pos + 1) (.text (c :: done)) cs
  | .text done, [] => .ok (textPiece done)
  | .tag _ done, '%' :: '>' :: cs =>
    (expressionPiece done :: ·) <$> scanFrom (pos + 2) (.text []) cs
  | .tag start done, c :: cs => scanFrom (pos + 1) (.tag start (c :: done)) cs
  | .tag start _, [] => .error (.unclosedTag start)
  | .braces start depth (some q) done, '\\' :: c :: cs =>
    scanFrom (pos + 2) (.braces start depth (some q) (c :: '\\' :: done)) cs
  | .braces start depth none done, '}' :: '}' :: cs =>
    if depth = 0 then (expressionPiece done :: ·) <$> scanFrom (pos + 2) (.text []) cs
    else scanFrom (pos + 1) (.braces start (depth - 1) none ('}' :: done)) ('}' :: cs)
  | .braces start depth quote done, c :: cs =>
    scanFrom (pos + 1) (inBraces start depth quote done c) cs
  | .braces start _ _ _, [] => .error (.unclosedBraces start)
termination_by _ cs => cs.length

/-- The pieces of a template. -/
def scan (template : String) : Except EvalError (List Piece) :=
  scanFrom 0 (.text []) template.toList

/-- Text in which no mark opens an expression. -/
def plain : List Char → Bool
  | '{' :: '{' :: _ => false
  | '<' :: '%' :: '=' :: _ => false
  | _ :: cs => plain cs
  | [] => true

/-- Text without an opening mark is one piece of text. -/
theorem scanFrom_plain (pos : Nat) (done cs : List Char) (h : plain cs = true) :
    scanFrom pos (.text done) cs = .ok (textPiece (cs.reverse ++ done)) := by
  fun_induction plain cs generalizing pos done with
  | case1 => simp at h
  | case2 => simp at h
  | case3 c cs h1 h2 ih =>
    rw [scanFrom]
    · rw [ih (pos + 1) (c :: done) h]; simp
    · exact h1
    · exact h2
  | case4 => simp [scanFrom]

/-! ## 2. Stages of an expression -/

/-- The stages of an expression from a state on: nesting depth, the quote that is open, and the
characters of the current stage, last first. -/
def stagesFrom (depth : Int) (quote : Option Char) (done : List Char) : List Char → List String
  | [] => [strip (String.ofList done.reverse)]
  | c :: cs =>
    match quote with
    | some q => stagesFrom depth (if c = q then none else quote) (c :: done) cs
    | none =>
      if c = '\'' ∨ c = '"' then stagesFrom depth (some c) (c :: done) cs
      else if c = '{' ∨ c = '[' then stagesFrom (depth + 1) none (c :: done) cs
      else if c = '}' ∨ c = ']' then stagesFrom (depth - 1) none (c :: done) cs
      else if c = '|' ∧ depth = 0 then
        strip (String.ofList done.reverse) :: stagesFrom depth none [] cs
      else stagesFrom depth none (c :: done) cs

/-- The head of an expression and the filters applied to it. -/
def pipeline (expression : String) : String × List String :=
  match stagesFrom 0 none [] expression.toList with
  | head :: stages => (head, stages)
  | [] => ("", [])

end Template

end Statechart
