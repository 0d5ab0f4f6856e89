/-
# Issues of a definition

What the compiler has to say about a flow definition. An issue that is fatal stands in the way of a
graph, a warning does not. Each cause has its words, its class and details.

* `Problem`: the causes;
* `Issue.message`, `Issue.text`, `Issue.toValue`: how an issue is reported;
* `CompileFailure.message`, `CompileFailure.summary`: how all of them are.
-/
import Statechart.Schema.Flow
import Statechart.Graph
import Statechart.Guard.Reference
import Statechart.Registry

namespace Statechart

/-- What can be wrong with a definition, or odd about it. -/
inductive Problem where
  | notAMapping
  | form (m : Misfit)
  | notAState (id : String)
  | selfContaining (id : String)
  | duplicateState (id : String)
  | noInitial
  | unknownInitial (initial : Value)
  | notAChild (initial : Value) (id : String)
  | implicitInitial (id first : String)
  | childrenNotAllowed (kind : StateKind) (id : String)
  | noChildren (id : String)
  | finalWithTransitions (id : String)
  | unknownTarget (event : String) (target : Value)
  | guardRef (ref : Value) (e : GuardRefError)
  | actionRef (e : ActionError)
  | binding (direction : Direction) (p : BindingProblem)
  | computedField (e : ActionError)
  | unknownOperators (label : String) (names : List String)
  | duplicateInvoke (id : String)
  | retry (id : String) (e : RetryError)
  | noErrorHandler (id : String)
  | actorRef (name : String) (e : Registry.ActorRefError)
  | unknownActor (src : String)
  | unreachable (id initial : String)
  | deadEnd (id : String)
  | unprovidedPath (guard path : String)
  | unprovidedVariable (label variableName : String) (strict : Bool)
deriving Inhabited

namespace Problem

/-- The words for a problem. -/
def message : Problem → String
  | notAMapping => "Flow definition must be an object"
  | form m =>
    let place := ".".intercalate m.location
    if place.isEmpty then m.complaint.message else place ++ ": " ++ m.complaint.message
  | notAState id => "State '" ++ id ++ "' must be an object"
  | selfContaining id => "State '" ++ id ++ "' contains itself"
  | duplicateState id => "Duplicate state id '" ++ id ++ "'"
  | noInitial => "Flow has no initial state"
  | unknownInitial v => "Initial state '" ++ v.display ++ "' does not exist"
  | notAChild v id => "Initial state '" ++ v.display ++ "' is not a child of '" ++ id ++ "'"
  | implicitInitial id first =>
    "Compound state '" ++ id ++ "' has no initial; using first child '" ++ first ++ "'"
  | childrenNotAllowed kind id => kind.title ++ " state '" ++ id ++ "' cannot have child states"
  | noChildren id => "Compound state '" ++ id ++ "' has no child states"
  | finalWithTransitions id =>
    "Final state '" ++ id ++ "' cannot declare transitions, timers or invokes"
  | unknownTarget event target =>
    "Transition '" ++ event ++ "' targets unknown state '" ++ target.display ++ "'"
  | guardRef _ e => e.message
  | actionRef e => e.message
  | binding .input p => "Invalid input binding: " ++ p.message
  | binding .output p => "Invalid output binding: " ++ p.message
  | computedField e => "Computed field: " ++ e.message
  | unknownOperators label names =>
    label ++ " uses unknown operator(s): " ++ ", ".intercalate names
  | duplicateInvoke id => "Duplicate invoke id '" ++ id ++ "'"
  | retry id e => "Invoke '" ++ id ++ "': " ++ e.message
  | noErrorHandler id => "Invoke '" ++ id ++ "' has no onError handler; failures will be ignored"
  | actorRef _ e => e.message
  | unknownActor src => "Unknown actor '" ++ src ++ "'"
  | unreachable id initial => "State '" ++ id ++ "' is unreachable from initial state '" ++ initial ++ "'"
  | deadEnd id => "State '" ++ id ++ "' is not final and has no outgoing transitions"
  | unprovidedPath guard path =>
    "Guard '" ++ guard ++ "' reads '" ++ path ++ "', which nothing provides"
  | unprovidedVariable label name _ => label ++ " uses '" ++ name ++ "', which nothing provides"

/-- The class of a problem. -/
def label : Problem → String
  | notAMapping | form _ => "schema_error"
  | noInitial | unknownInitial _ | notAChild .. => "missing_initial"
  | duplicateState _ => "duplicate_state_id"
  | selfContaining _ => "cyclic_state"
  | notAState _ | childrenNotAllowed .. | noChildren _ | finalWithTransitions _ | duplicateInvoke _
  | retry .. => "invalid_state"
  | implicitInitial .. => "implicit_initial"
  | unknownTarget .. => "unknown_target"
  | guardRef _ e => if e.isUnknown then "unknown_guard" else "invalid_guard"
  | actionRef _ => "unknown_action"
  | actorRef .. | unknownActor _ => "unknown_actor"
  | binding .. => "invalid_binding"
  | computedField _ | unknownOperators .. => "invalid_expression"
  | noErrorHandler _ => "invoke_without_on_error"
  | unreachable .. => "unreachable_state"
  | deadEnd _ => "dead_end_state"
  | unprovidedPath .. => "unprovided_path"
  | unprovidedVariable .. => "missing_template_variable"

/-- Whether a problem stands in the way of a graph. -/
def isFatal : Problem → Bool
  | implicitInitial .. | noErrorHandler _ | unreachable .. | deadEnd _ | unprovidedPath .. => false
  | unprovidedVariable _ _ strict => strict
  | _ => true

/-- Whether a definition is too malformed for its references to be looked at. -/
def isBlocking (p : Problem) : Bool :=
  ["schema_error", "cyclic_state", "invalid_state"].contains p.label

/-- Details of a problem. -/
def details : Problem → Value
  | form m =>
    .record [("location", .text (".".intercalate m.location)), ("type", .text m.complaint.label)]
  | unknownInitial v | notAChild v _ => .record [("initial", v)]
  | unknownTarget event target => .record [("event", .text event), ("target", target)]
  | guardRef ref _ => .record [("guard", .ofText? ref.text?)]
  | actorRef name _ | unknownActor name => .record [("actor", .text name)]
  | unprovidedPath _ path => .record [("path", .text path)]
  | unprovidedVariable _ name _ => .record [("variable", .text name)]
  | _ => .record []

end Problem

/-- A problem and the state it belongs to, if it belongs to one. -/
structure Issue where
  problem : Problem
  state : Option String := none
deriving Inhabited

namespace Issue

def message (i : Issue) : String := i.problem.message
def isFatal (i : Issue) : Bool := i.problem.isFatal

/-- An issue in one line. -/
def text (i : Issue) : String :=
  match i.state with
  | some id => if id.isEmpty then i.message else "[" ++ id ++ "] " ++ i.message
  | none => i.message

/-- An issue as a value. -/
def toValue (i : Issue) : Value :=
  .record [("error_type", .text i.problem.label),
    ("severity", .text (if i.isFatal then "fatal" else "warning")), ("message", .text i.message),
    ("state_id", .ofText? i.state), ("context", i.problem.details)]

/-- The issues of each severity, in order. -/
def errors (is : List Issue) : List Issue := is.filter isFatal
def warnings (is : List Issue) : List Issue := is.filter (!isFatal ·)

theorem mem_errors {i : Issue} {is : List Issue} : i ∈ errors is ↔ i ∈ is ∧ i.isFatal = true := by
  simp [errors]

end Issue

/-- A definition that has no graph, and why. -/
structure CompileFailure where
  flow : String
  errors : List Issue
  warnings : List Issue
deriving Inhabited

namespace CompileFailure

/-- All errors, one in a line. -/
def message (f : CompileFailure) : String :=
  let name := "Flow '" ++ f.flow ++ "'"
  match f.errors with
  | [e] => name ++ " failed to compile with 1 error:\n  • " ++ e.text
  | es => name ++ " failed to compile with " ++ toString es.length ++ " errors:\n  • " ++
      "\n  • ".intercalate (es.map Issue.text)

/-- All errors, numbered. -/
def summary (f : CompileFailure) : String :=
  match f.errors with
  | [e] => "1 compile error: " ++ e.text
  | es => toString es.length ++ " compile errors:\n" ++
      "\n".intercalate (es.zipIdx.map fun (e, i) => "  " ++ toString (i + 1) ++ ". " ++ e.text)

end CompileFailure

end Statechart
