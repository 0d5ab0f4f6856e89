/-
# Rendering templates

The head of an expression is a path, a quoted text, a helper applied to a path, or an inline JSON
expression. A template that is one single expression has the expression's own value; otherwise the
texts of its pieces are put together. Rendering for people never fails with a failed evaluation:
the text then says what went wrong.

* `Renderer.evaluate`, `Renderer.evaluateText`, `Renderer.render`, `Renderer.renderValue`;
* `Renderer.evaluate_single`: the value of a template that is a single expression.
-/
import Statechart.Template.Filter
import Statechart.Expr.Inspect
import Statechart.Text.Word

namespace Statechart

namespace Template

/-! ## 1. The form of paths and helper calls -/

/-- Where a path stands while its text is checked. -/
inductive PathForm where
  | name | dot | bracket | index | key (quote : Char) | ending | closed
deriving DecidableEq

/-- The characters of names in paths. -/
def isNameChar (c : Char) : Bool := isWordChar c || c = '$'

/-- The next form, if the character fits. -/
def PathForm.next (f : PathForm) (c : Char) : Option PathForm :=
  let opened := if c = '.' then some dot else if c = '[' then some bracket else none
  match f with
  | name => if isNameChar c then some name else opened
  | dot => if isNameChar c then some name else none
  | bracket => if c = '\'' ∨ c = '"' then some (key c) else if isDecimalDigit c then some index else none
  | index => if isDecimalDigit c then some index else if c = ']' then some closed else none
  | key q => if c = q then some ending else some (key q)
  | ending => if c = ']' then some closed else none
  | closed => opened

/-- Whether the first character can begin a name. -/
def startsName (c : Char) : Bool :=
  ('A' ≤ c ∧ c ≤ 'Z') ∨ ('a' ≤ c ∧ c ≤ 'z') ∨ c = '_'

/-- Whether a text has the form of a path. -/
def isPathText (s : String) : Bool :=
  match s.toList with
  | [] => false
  | c :: cs =>
    (startsName c || c = '$') &&
      match cs.foldlM PathForm.next .name with
      | some f => f = .name ∨ f = .closed
      | none => false

/-- Name and argument of a text that has the form of a helper call. -/
def helperCall? (s : String) : Option (String × String) :=
  match s.toList with
  | [] => none
  | c :: cs =>
    if startsName c then
      let name := c :: cs.takeWhile isWordChar
      match cs.dropWhile isWordChar with
      | '(' :: rest =>
        if rest.getLast? = some ')' ∧ '\n' ∉ rest then
          some (String.ofList name, strip (String.ofList rest.dropLast))
        else none
      | _ => none
    else none

/-- Whether the head of an expression is inline JSON. -/
def isInline (head : String) : Bool := head.toList.head? = some '{' ∨ head.toList.head? = some '['

/-- The value of inline JSON. -/
def readInline (head : String) : Except Fault Value :=
  match Json.read head with
  | .ok v => .ok v
  | .error (.malformed e) => .error (.evaluation (.badInlineJson e.problem))
  | .error e => .error (.data (.json e))

end Template

/-! ## 2. Expressions -/

/-- A renderer: the filters its templates may use, later ones of one name first. -/
structure Renderer where
  filters : List (String × FilterFn)
deriving Inhabited

namespace Renderer

open Template

/-- The renderer with the default filters only. -/
def standard : Renderer := ⟨defaultFilters⟩

/-- A renderer with one more filter, which takes the place of one of the same name. -/
def withFilter (r : Renderer) (name : String) (f : FilterFn) : Renderer := ⟨(name, f) :: r.filters⟩

/-- The names of the filters. -/
def filterNames (r : Renderer) : List String := distinctSorted (r.filters.map (·.1))

/-- The value at a path. -/
def pathValue (path : String) (context event : Value) : Except Fault Value :=
  if isPathText path then Statechart.evaluate (.dict [(.text "var", .text path)]) context event
  else .error (.evaluation (.malformedExpression path))

/-- The value of the head of an expression. -/
def headValue (head : String) (context event : Value) : Except Fault Value :=
  if isInline head then do Statechart.evaluate (← readInline head) context event
  else match unquote? head with
    | some s => .ok (.text s)
    | none =>
      match helperCall? head with
      | some (name, argument) =>
        match helpers.lookup name with
        | some f => f <$> pathValue argument context event
        | none => .error (.evaluation (.unknownHelper name))
      | none => pathValue head context event

/-- A stage of an expression: the name of a filter and its argument. -/
def stageParts (stage : String) : String × Option String :=
  let cs := stage.toList
  let name := strip (String.ofList (cs.takeWhile (· ≠ ':')))
  let raw := String.ofList ((cs.dropWhile (· ≠ ':')).drop 1)
  if raw.isEmpty then (name, none)
  else
    let arg := strip raw
    (name, some ((unquote? arg).getD arg))

/-- Apply one stage to a value. -/
def applyStage (r : Renderer) (v : Value) (stage : String) : Except Fault Value :=
  let (name, arg) := stageParts stage
  match r.filters.lookup name with
  | some f => f v arg
  | none => .error (.evaluation (.unknownFilter name))

/-- The value of an expression. -/
def expressionValue (r : Renderer) (e : String) (context event : Value) : Except Fault Value :=
  if e.isEmpty then .error (.evaluation .emptyExpression)
  else do
    let (head, stages) := pipeline e
    stages.foldlM r.applyStage (← headValue head context event)

/-! ## 3. Templates -/

/-- The text of a piece. -/
def pieceText (r : Renderer) (context event : Value) : Piece → Except Fault String
  | .text s => .ok s
  | .expression e => do stringify (← r.expressionValue e context event)

/-- The text of pieces. -/
def piecesText (r : Renderer) (context event : Value) (ps : List Piece) : Except Fault String :=
  String.join <$> ps.mapM (r.pieceText context event)

/-- The text of a template. -/
def evaluateText (r : Renderer) (template : String) (context event : Value) : Except Fault String := do
  r.piecesText context event (← liftEval (scan template))

/-- The value of a template: that of its expression when it is a single one, else its text. -/
def evaluate (r : Renderer) (template : String) (context event : Value) : Except Fault Value := do
  match ← liftEval (scan template) with
  | [.expression e] => r.expressionValue e context event
  | ps => Value.text <$> r.piecesText context event ps

/-- The text of a template for people: a failed evaluation is shown and logged. -/
def render (r : Renderer) (template : String) (context event : Value) : Act String :=
  Act.catchEval (Act.lift (r.evaluateText template context event)) fun e => do
    Act.say .warning .templates
      ("Template render failed for " ++ quoted template ++ ": " ++ e.message)
    return "ERROR: " ++ e.message

mutual

/-- A value with the templates in it, at any depth, replaced by their values. -/
def renderValue (r : Renderer) (context event : Value) : Value → Except Fault Value
  | .text s => r.evaluate s context event
  | .list vs => do return .list (← renderItems r context event vs)
  | .dict es => do return .dict (← renderEntries r context event es)
  | v => .ok v

def renderItems (r : Renderer) (context event : Value) : List Value → Except Fault (List Value)
  | [] => .ok []
  | v :: vs => do
    let w ← renderValue r context event v
    return w :: (← renderItems r context event vs)

def renderEntries (r : Renderer) (context event : Value) :
    List (Key × Value) → Except Fault (List (Key × Value))
  | [] => .ok []
  | (k, v) :: es => do
    let w ← renderValue r context event v
    return (k, w) :: (← renderEntries r context event es)

end

/-- The value of a template that is a single expression. -/
theorem evaluate_single (r : Renderer) {template e : String} (context event : Value)
    (h : scan template = .ok [.expression e]) :
    r.evaluate template context event = r.expressionValue e context event := by
  rw [evaluate, h]
  rfl

end Renderer

end Statechart
