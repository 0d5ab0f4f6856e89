/-
# Running actions

Every action makes a new context and leaves the old one alone; only the context can be written. An
action that yields null keeps the context as it was.

* `contextPath`: the path inside the context that a write addresses;
* `extract`: a place in the result of an actor;
* `BoundAction.apply`: the context after an action.
-/
import Statechart.Action.Spec
import Statechart.Template.Render

namespace Statechart

/-! ## 1. Paths and parameters -/

/-- A value as the text of a path or of a message. -/
def Value.asText (v : Value) : Except Fault String := liftData v.shown

/-- The path inside the context that a write addresses. -/
def contextPath (path : Value) : Except Fault String := do
  let s ← path.asText
  match splitScope s with
  | (.context, rest) => return rest
  | (.event, _) => .error (.action (.notContext s))

/-- A context without the value at a path text. -/
def Value.removed (context : Value) (path : String) : Except Fault Value :=
  liftData (liftPath (context.remove <$> Path.parse path))

/-- The value at a path text, null when nothing is there. -/
def Value.found (data : Value) (path : String) : Except Fault Value :=
  liftData (liftPath (data.atTextD path))

/-- The value at a scoped path. -/
def scopedValue (path : Value) (context event : Value) : Except Fault Value := do
  liftData (liftPath (lookupScoped (← path.asText) context event))

/-- What an event carries: its data, else its payload. -/
def eventValue (event : Value) : Value :=
  match event.get? "data" with
  | some v => v
  | none => event.getD "payload"

/-- The place a result path names: `$` is the whole result. -/
def resultPath (path : String) : Option String :=
  let path := strip path
  if path = "$" then none
  else match path.toList with
    | '$' :: '.' :: rest => some (String.ofList rest)
    | '$' :: '[' :: rest => some (String.ofList ('[' :: rest))
    | _ => some path

/-- The value at a result path. -/
def extract (data : Value) (path : String) : Except Fault Value :=
  match resultPath path with
  | none => .ok data
  | some p => data.found p

namespace Action

/-- A parameter that has to be there. -/
def required (params : Entries) (name : String) : Except Fault Value :=
  match Entries.lookup name params with
  | some v => .ok v
  | none => .error (.data (.missingKey name))

/-- The value an action is to store: given, read from a path, or carried by the event. -/
def operand (r : Renderer) (params : Entries) (context event : Value) : Except Fault Value :=
  match Entries.lookup "value" params with
  | some v => r.renderValue context event v
  | none =>
    match Entries.lookup "from" params with
    | some path => scopedValue path context event
    | none => .ok (eventValue event)

/-! ## 2. The built-in actions -/

/-- Store the operand at the target. -/
def assign (r : Renderer) (context event : Value) (params : Entries) : Except Fault Value := do
  let path ← contextPath (← required params "field")
  context.stored path (← operand r params context event)

/-- Store the value of one path at another. -/
def copy (context event : Value) (params : Entries) : Except Fault Value := do
  let v ← scopedValue (← required params "from") context event
  context.stored (← contextPath (← required params "to")) v

/-- Store null at the target, or remove it. -/
def clear (context : Value) (params : Entries) : Except Fault Value := do
  let path ← contextPath (← required params "field")
  if ((Entries.lookup "remove" params).getD .null).isTruthy then context.removed path
  else context.stored path .null

/-- The items of a value that is to become a list. -/
def asItems : Value → List Value
  | .list vs => vs
  | .null => []
  | v => [v]

/-- Append the operand to the list at the target. -/
def accumulate (r : Renderer) (context event : Value) (params : Entries) : Except Fault Value := do
  let path ← contextPath (← required params "field")
  let items := asItems (← context.found path)
  context.stored path (.list (items ++ [← operand r params context event]))

/-- Store an identifier made of a name, the time and a number. -/
def generate (context : Value) (params : Entries) : Act Value := do
  let name ← Act.lift ((Entries.lookup "prefix" params).getD (.text "id")).asText
  let time ← Act.now
  let n ← Act.nextNumber
  let identifier := name ++ "-" ++ toString time ++ "-" ++ toString n
  Act.lift do
    let path ← contextPath ((Entries.lookup "field" params).getD (.text "id"))
    context.stored path (.text identifier)

/-- Write a rendered message to the log. -/
def log (r : Renderer) (context event : Value) (params : Entries) : Act Value := do
  let template ← Act.lift ((Entries.lookup "message" params).getD (.text "")).asText
  Act.say .info .actions (← r.render template context event)
  return context

/-- Store a rendered template. -/
def renderInto (r : Renderer) (context event : Value) (params : Entries) : Act Value := do
  let text ← r.render (← Act.lift ((← required params "template").asText)) context event
  Act.lift do context.stored (← contextPath (← required params "target")) (.text text)

/-- Store the value of an expression, null when it has none. -/
def evaluateInto (context event : Value) (params : Entries) : Act Value := do
  let expression ← Act.lift (required params "expression")
  let target ← Act.lift (required params "target")
  let v ← Act.catchEval (Act.lift (evaluate expression context event)) fun e => do
    Act.say .warning .actions ("evaluateExpressionInto '" ++ (← Act.lift target.asText) ++
      "' failed, storing null: " ++ e.message)
    return .null
  Act.lift do context.stored (← contextPath target) v

/-- The complaint of a rule, if it does not pass. -/
def complaint? (context event rule : Value) : Act (Option String) := do
  unless rule.isDict do Act.fail (.data (.noAttribute rule.kind "get"))
  let field := (rule.get? "field").getD (.text "")
  let expression ← Act.lift (required rule.entries "expression")
  let passed ← Act.catchEval (Act.lift (evaluateBool expression context event)) fun e => do
    Act.say .warning .actions ("Validation rule for '" ++ (← Act.lift field.asText) ++
      "' could not be evaluated: " ++ e.message)
    return false
  if passed then return none
  else
    let message := (rule.get? "message").getD (.text "is invalid")
    return some ((← Act.lift field.asText) ++ ": " ++ (← Act.lift message.asText))

/-- The members of a value that is gone through one by one. -/
def members (v : Value) : Except Fault (List Value) :=
  match v with
  | .list vs => .ok vs
  | .dict es => .ok (es.map (·.1.toValue))
  | .text s => .ok (s.toList.map fun c => .text (String.singleton c))
  | v => .error (.data (.notIterable v.kind))

/-- Append the complaints of failed rules to the errors of the context. -/
def validate (context event : Value) (params : Entries) : Act Value := do
  let rules ← Act.lift (members ((Entries.lookup "rules" params).getD (.list [])))
  let complaints := (← rules.mapM (complaint? context event)).reduceOption
  if complaints.isEmpty then return context
  else
    Act.lift do
      let errors := (← context.found "errors").items
      context.stored "errors" (.list (errors ++ complaints.map .text))

/-- Store parts of the event's value at the targets of a mapping. -/
def mapInto (event : Value) : List (Key × Value) → Value → Except Fault Value
  | [], context => .ok context
  | (target, path) :: rest, context => do
    let target ← contextPath target.toValue
    let v ← extract (eventValue event) (← path.asText)
    mapInto event rest (← context.stored target v)

def mapResult (context event : Value) (params : Entries) : Except Fault Value :=
  match (Entries.lookup "mapping" params).getD (.dict []) with
  | .dict es => mapInto event es context
  | v => .error (.data (.noAttribute v.kind "items"))

/-- Store what the event carries. -/
def assignResult (context event : Value) (params : Entries) : Except Fault Value := do
  context.stored (← contextPath (← required params "target")) (eventValue event)

/-- The result of a built-in action. -/
def runBuiltin (r : Renderer) (b : BuiltinAction) (context event : Value) (params : Entries) :
    Act Value :=
  match b with
  | .assignField => Act.lift (assign r context event params)
  | .copyField => Act.lift (copy context event params)
  | .clearField => Act.lift (clear context params)
  | .accumulateArray => Act.lift (accumulate r context event params)
  | .generateId => generate context params
  | .log => log r context event params
  | .renderTemplateInto => renderInto r context event params
  | .evaluateExpressionInto => evaluateInto context event params
  | .validateWithRules => validate context event params
  | .mapResult => Act.lift (mapResult context event params)
  | .assignResult => Act.lift (assignResult context event params)

end Action

/-! ## 3. Any action -/

namespace BoundAction

/-- The result of an action. -/
def result (r : Renderer) (a : BoundAction) (context event : Value) : Act Value :=
  match a.spec.code with
  | .builtin b => Action.runBuiltin r b context event a.params
  | .host f => Act.lift (liftData (f context event a.params))

/-- The context after an action: its result, or the old context when the result is null. -/
def apply (r : Renderer) (a : BoundAction) (context event : Value) : Act Value := do
  let v ← a.result r context event
  return if v.isNull then context else v

end BoundAction

end Statechart
