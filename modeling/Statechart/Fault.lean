/-
# Failures

Everything that can stop a computation, as causes; the words for a cause are given by one function
each.

* `EvalError`: an expression, template or guard has no value;
* `ActionError`: an action is unknown or misused;
* `InvocationError`: a call of an actor failed;
* `Fault`: any failure that can leave a step of a running flow.
-/
import Statechart.Fault.Data

namespace Statechart

/-! ## 1. Evaluation -/

/-- Why an expression, a template or a guard has no value. -/
inductive EvalError where
  /-- A mapping in operator position has other than one entry. -/
  | malformed (keys : List Key)
  | unknownOperator (k : Key)
  | notANumber (v : Value)
  | comparisonArity (n : Nat)
  | noFactors
  | divisionByZero
  | moduloByZero
  | lengthArity (n : Nat)
  | noLength (k : Kind)
  | badVariable (path : String) (e : PathError)
  | variableKind (k : Kind)
  | emptyConnective (operator : String)
  | collectionArity (operator : String) (n : Nat)
  | notACollection (operator : String) (k : Kind)
  /-- An operation inside the expression failed on its operands. -/
  | invalid (expression : Value) (cause : DataFault)
  | notAnAmount (v : Value)
  | unreadableDate (v : Value)
  | noDate (k : Kind)
  | unclosedBraces (position : Nat)
  | unclosedTag (position : Nat)
  | emptyExpression
  | unknownFilter (name : String)
  | unknownHelper (name : String)
  | malformedExpression (text : String)
  | badInlineJson (p : Json.Problem)
  /-- A guard of the host failed. -/
  | hostGuard (name : String) (c : FaultClass) (message : String)
deriving Repr, Inhabited

namespace EvalError

def message : EvalError → String
  | malformed keys =>
    "Malformed expression: expected a single operator, got keys " ++
      (Value.list (keys.map Key.toValue)).literal
  | unknownOperator k => "Unknown operator: '" ++ k.display ++ "'"
  | notANumber v => "Cannot use " ++ v.literal ++ " as a number"
  | comparisonArity n => "Comparison expects 2 arguments, got " ++ toString n
  | noFactors => "'*' expects at least one argument"
  | divisionByZero => "Division by zero"
  | moduloByZero => "Modulo by zero"
  | lengthArity n => "'length' expects 1 argument, got " ++ toString n
  | noLength k => "'length' is not defined for " ++ k.label
  | badVariable path e => "Invalid variable path '" ++ path ++ "': " ++ e.message
  | variableKind k => "'var' path must be a string, got " ++ k.label
  | emptyConnective op => "'" ++ op ++ "' expects at least one argument"
  | collectionArity op n => "'" ++ op ++ "' expects 2 arguments, got " ++ toString n
  | notACollection op k => "'" ++ op ++ "' expects a list, got " ++ k.label
  | invalid e cause => "Invalid expression " ++ e.literal ++ ": " ++ cause.message
  | notAnAmount v => "currency filter expects a number, got " ++ v.literal
  | unreadableDate v => "date filter cannot parse " ++ v.literal
  | noDate k => "date filter cannot format " ++ k.label
  | unclosedBraces n => "Unclosed '\x7b\x7b' at position " ++ toString n
  | unclosedTag n => "Unclosed '<%=' at position " ++ toString n
  | emptyExpression => "Empty template expression"
  | unknownFilter name => "Unknown filter '" ++ name ++ "'"
  | unknownHelper name => "Unknown template helper '" ++ name ++ "'"
  | malformedExpression text => "Malformed expression '" ++ text ++ "'"
  | badInlineJson p => "Invalid inline expression: " ++ p.message
  | hostGuard name c m => "Guard '" ++ name ++ "' raised " ++ c.label ++ ": " ++ m

end EvalError

/-! ## 2. Actions -/

/-- Why a reference to an action cannot be bound or run. -/
inductive ActionError where
  | notContext (path : String)
  | noType (ref : Value)
  | invalidReference (ref : Value)
  | selfReference (name : String)
  | unknown (name : String)
  | noPositional (name ref : String)
  | unpaired (ref : String)
  | missingParameters (name : String) (parameters : List String)
  | cannotWrite (name path : String)
deriving Repr, Inhabited

namespace ActionError

def message : ActionError → String
  | notContext path => "Actions can only write context paths, got '" ++ path ++ "'"
  | noType ref => "Action object is missing 'type': " ++ ref.literal
  | invalidReference ref => "Invalid action reference: " ++ ref.literal
  | selfReference name => "Action '" ++ name ++ "' refers to itself"
  | unknown name => "Unknown action '" ++ name ++ "'"
  | noPositional name ref =>
    "Action '" ++ name ++ "' does not accept a positional argument: '" ++ ref ++ "'"
  | unpaired ref => "Action shorthand '" ++ ref ++ "' must use key:value pairs"
  | missingParameters name ps =>
    "Action '" ++ name ++ "' is missing parameter(s): " ++ ", ".intercalate ps
  | cannotWrite name path => "Action '" ++ name ++ "' cannot write '" ++ path ++ "'"

end ActionError

/-! ## 3. Calls of actors -/

/-- A failed call of an actor. -/
structure InvocationError where
  message : String
  actor : Value := .text ""
  /-- Whether another attempt may succeed. -/
  retryable : Value := .bool true
  /-- The status of the response that caused the failure. -/
  status : Value := .null
  /-- The payload of the response, or details given by the actor. -/
  data : Value := .null
  /-- Calls made before giving up. -/
  attempts : Nat := 0
  /-- Whether the call ran out of time. -/
  timedOut : Bool := false
deriving Repr, Inhabited

/-- The payload of the event that reports the failure. -/
def InvocationError.toValue (e : InvocationError) : Value :=
  .record [("message", .text e.message), ("actor", e.actor), ("status", e.status),
    ("retryable", e.retryable), ("attempts", .int e.attempts), ("data", e.data)]

/-! ## 4. Any failure of a running flow -/

/-- What can leave a step of a running flow. -/
inductive Fault where
  | data (e : DataFault)
  | evaluation (e : EvalError)
  | action (e : ActionError)
  | invocation (e : InvocationError)
  /-- The instance is done or stopped. -/
  | terminated (flow state event : String)
  | notAnEvent (v : Value)
  /-- A store that is part of the flow was used as an external one. -/
  | notExternal (store : String)
  /-- Timers or invokes were to be armed where nothing can fire them. -/
  | unscheduled (state : String)
  | waitTimedOut
  | waitTerminated (flow state : String)
  | unknownState (state flow : String)
  /-- The budget of steps is used up. -/
  | exhausted
deriving Repr, Inhabited

namespace Fault

/-- The words for a failure. -/
def message : Fault → String
  | data e => e.message
  | evaluation e => e.message
  | action e => e.message
  | invocation e => e.message
  | terminated flow state event =>
    "Flow '" ++ flow ++ "' is terminated in state '" ++ state ++ "'; cannot process event '" ++
      event ++ "'"
  | notAnEvent v => "Event must be a string or an object with a 'type', got " ++ v.literal
  | notExternal store => "Store '" ++ store ++ "' is not external"
  | unscheduled state =>
    "State '" ++ state ++ "' schedules timers or invokes; run the flow inside an asyncio event loop"
  | waitTimedOut => ""
  | waitTerminated flow state => "Flow '" ++ flow ++ "' terminated in '" ++ state ++ "'"
  | unknownState state flow => "State '" ++ state ++ "' not found in flow '" ++ flow ++ "'"
  | exhausted => "The budget of steps is used up"

/-- The name of a failure's class. -/
def label : Fault → String
  | data e => e.faultClass.label
  | evaluation _ => "EvaluationError"
  | action _ => "ActionResolutionError"
  | invocation e => if e.timedOut then "ActorTimeoutError" else "InvocationError"
  | terminated .. => "FlowTerminatedError"
  | notAnEvent _ | notExternal _ => "ValueError"
  | unscheduled _ | exhausted => "RuntimeError"
  | waitTimedOut | waitTerminated .. => "TimeoutError"
  | unknownState .. => "KeyError"

end Fault

/-- Lift a failure of an operation on data. -/
def liftData (r : Except DataFault α) : Except Fault α := r.mapError .data

/-- Lift a failed evaluation. -/
def liftEval (r : Except EvalError α) : Except Fault α := r.mapError .evaluation

/-- A failed evaluation whose words quote a value; they cannot be put when the value is too long to
be written. -/
def complaint (quoted : Value) (e : EvalError) : Fault :=
  if quoted.writable then .evaluation e else .data .textTooLong

end Statechart
