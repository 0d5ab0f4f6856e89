/-
# Views

A state may carry a description of what to show. Rendering it replaces every text by its rendered
template and every visibility flag by a truth value; list items that turn out hidden are dropped.

* `View.condition`: the truth value of a visibility flag;
* `View.render`: the rendered description;
* `mem_shown`: what is left of a list.
-/
import Statechart.Guard.Reference
import Statechart.Template.Render

namespace Statechart

namespace View

/-- The keys whose values are visibility flags. -/
def isConditionKey (k : Key) : Bool :=
  [Key.text "visible", .text "enabled", .text "disabled", .text "hidden"].contains k

/-- Texts that count as false. -/
def falseTexts : List String := ["", "false", "0", "no", "null", "none"]

/-- Whether a text is written as the shorthand of a guard. -/
def isShorthand (s : String) : Bool :=
  s.toList.contains ':' && !occurs "\x7b\x7b" s && !occurs "<%" s

/-- The truth value of a visibility flag; what cannot be evaluated is false. -/
def condition (r : Renderer) (context event v : Value) : Act Bool :=
  match v with
  | .bool b => return b
  | .text s =>
    if isShorthand s then
      match Guard.ofShorthand s with
      | .ok g => g.check context event
      | .error e => do
        Act.say .warning .view ("UI condition '" ++ s ++ "' is not a valid guard: " ++ e.message)
        return false
    else do
      return !falseTexts.contains (toLowerCase (strip (← r.render s context event)))
  | v =>
    if v.isOperation then
      Act.catchEval (Act.lift (evaluateBool v context event)) fun e => do
        unless v.writable do Act.fail (.data .textTooLong)
        Act.say .warning .view
          ("UI condition " ++ v.literal ++ " failed to evaluate, treating as false: " ++ e.message)
        return false
    else return v.isTruthy

/-- Whether a rendered item says that it is not to be shown. -/
def isHidden (item : Value) : Bool :=
  (match item.get? "visible" with
    | some (.bool b) => !b
    | _ => false) ||
  (match item.get? "hidden" with
    | some (.bool b) => b
    | _ => false)

/-- The items that are to be shown. -/
def shown (items : List Value) : List Value := items.filter (!isHidden ·)

theorem mem_shown {v : Value} {items : List Value} :
    v ∈ shown items ↔ v ∈ items ∧ isHidden v = false := by
  simp [shown]

mutual

/-- A description with its templates and flags resolved. -/
def renderPart (r : Renderer) (context event : Value) : Value → Act Value
  | .dict es => do return .dict (← renderEntries r context event es)
  | .list vs => do return .list (shown (← renderItems r context event vs))
  | .text s => Value.text <$> r.render s context event
  | v => return v

def renderItems (r : Renderer) (context event : Value) : List Value → Act (List Value)
  | [] => return []
  | v :: vs => do
    let w ← renderPart r context event v
    return w :: (← renderItems r context event vs)

def renderEntries (r : Renderer) (context event : Value) :
    List (Key × Value) → Act (List (Key × Value))
  | [] => return []
  | (k, v) :: es => do
    let w ← if isConditionKey k then Value.bool <$> condition r context event v
      else renderPart r context event v
    return (k, w) :: (← renderEntries r context event es)

end

/-- The rendered description of a state; what is no mapping renders as an empty one. -/
def render (r : Renderer) (ui context event : Value) : Act Value := do
  let v ← renderPart r context event ui
  return if v.isDict then v else .dict []

end View

end Statechart
