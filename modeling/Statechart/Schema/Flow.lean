/-
# The shape of a flow

The shapes of a flow definition and its parts. They are about form only: which fields there are and
of what kind their values have to be, not what the references in them stand for.

* `Schema.misfits`: everything about a definition that does not have the right form;
* `Schema.stateOf`: the state a complaint belongs to.
-/
import Statechart.Schema.Shape

namespace Statechart

namespace Schema

/-! ## 1. Parts of a state -/

/-- A text or null. -/
def optionalText : Shape := .nullable (.text false)

/-- A text or a mapping: the form of references to guards and actions. -/
def reference : Shape :=
  .union [("constrained-str", .text false), ("dict[constrained-str,any]", .mapping .text .any)]

def optionalReference : Shape := .nullable reference

/-- A field that may be left out. -/
def optional (name : String) (shape : Shape) : String × Bool × Shape := (name, false, shape)

/-- A field that has to be there. -/
def required (name : String) (shape : Shape) : String × Bool × Shape := (name, true, shape)

def retry : Shape :=
  .model "RetryModel"
    [optional "max" (.integer .atLeastZero), optional "backoffMs" (.number .atLeastZero),
      optional "multiplier" (.number .aboveZero)]

def transition : Shape :=
  .model "TransitionModel"
    [optional "target" optionalText, optional "guard" optionalReference,
      optional "cond" optionalReference, optional "actions" (.list reference),
      optional "description" optionalText]

/-- What leads on from a state: a target, one candidate, or a list of them under a label. -/
def transitions (listLabel : String) : Shape :=
  .union [("constrained-str", .text false), ("TransitionModel", transition),
    (listLabel, .list (.union [("constrained-str", .text false), ("TransitionModel", transition)]))]

def shortListLabel : String := "list[union[constrained-str,...]]"
def longListLabel : String := "list[union[constrained-str,TransitionModel]]"

def timer : Shape :=
  .model "AfterModel"
    [required "delay" (.integer .atLeastZero), optional "target" optionalText,
      optional "guard" optionalReference, optional "cond" optionalReference,
      optional "actions" (.list reference)]

def timers : Shape :=
  .nullable <| .delays <| .union
    [("list[AfterModel]", .list timer),
      ("dict[union[constrained-str,int],union[constrained-str,...," ++ shortListLabel ++ "]]",
        .mapping .delay (transitions shortListLabel))]

def bindings : Shape :=
  let binding := .model "BindingModel"
    [required "source" (.text true), required "target" (.text true), optional "transform" optionalText]
  .model "BindingsModel" [optional "inputs" (.list binding), optional "outputs" (.list binding)]

def invoke : Shape :=
  .model "InvokeModel"
    [optional "id" optionalText, required "src" (.text true), optional "input" .any,
      optional "timeoutMs" (.nullable (.integer .aboveZero)), optional "retry" (.nullable retry),
      optional "cacheKey" optionalText, optional "cacheTtlMs" (.nullable (.integer .atLeastZero)),
      optional "mapResult" (.nullable (.mapping .text (.text false))),
      optional "assignTo" optionalText,
      optional "onDone" (.nullable (transitions longListLabel)),
      optional "onError" (.nullable (transitions longListLabel))]

def lifecycle : Shape :=
  .model "LifecycleModel"
    [optional "onEnter" (.list reference), optional "onExit" (.list reference)]

def logic : Shape :=
  .model "LogicModel"
    [optional "computed" (.list (.model "ComputedFieldModel"
        [required "field" (.text true), required "expression" .any, optional "cache" .boolean])),
      optional "validations" (.list (.model "ValidationRuleModel"
        [required "field" (.text true), required "expression" .any,
          optional "message" optionalText]))]

/-! ## 2. States and flows -/

/-- The fields of a state other than its child states. -/
def stateFields : List (String × Bool × Shape) :=
  [optional "type" (.nullable (.oneOf ["atomic", "compound", "final"])),
    optional "initial" optionalText, optional "description" optionalText,
    optional "tags" (.list (.text false)),
    optional "meta" (.nullable (.mapping .text .any)), optional "ui" (.nullable (.mapping .text .any)),
    optional "lifecycle" (.nullable lifecycle),
    optional "entry" (.nullable (.list reference)), optional "exit" (.nullable (.list reference)),
    optional "binding" (.nullable bindings), optional "logic" (.nullable logic),
    optional "invoke" (.nullable (.union [("InvokeModel", invoke), ("list[InvokeModel]", .list invoke)])),
    optional "on" (.nullable (.mapping .text (transitions shortListLabel))),
    optional "after" timers]

/-- The names of all fields of a state. -/
def stateFieldNames : List String := Shape.fieldNames stateFields ++ ["states"]

mutual

/-- Everything about a state that does not have the right form. -/
def stateMisfits : Value → List Misfit
  | .dict es => Shape.checkFields stateFields es ++ childMisfits es ++ Shape.extras stateFieldNames es
  | _ => Misfit.here (.notAModel "StateModel")

/-- Complaints about the child states among the fields of a state. -/
def childMisfits : List (Key × Value) → List Misfit
  | [] => []
  | (k, v) :: es =>
    if k = .text "states" then
      (match v with
        | .dict states => entryMisfits states
        | .null => []
        | _ => Misfit.here .notAMapping).map (Misfit.under "states")
    else childMisfits es

/-- Complaints about states by name. -/
def entryMisfits : List (Key × Value) → List Misfit
  | [] => []
  | (k, v) :: es =>
    KeyShape.text.check k ++ (stateMisfits v).map (Misfit.under k.locationPart) ++ entryMisfits es

end

/-- The fields of a flow before and after its states. -/
def headFields : List (String × Bool × Shape) :=
  [optional "id" optionalText, optional "version" optionalText, optional "name" optionalText,
    optional "description" optionalText, optional "initial" optionalText,
    optional "context" (.mapping .text .any)]

def tailFields : List (String × Bool × Shape) :=
  [optional "guards" (.mapping .text reference), optional "actions" (.mapping .text reference),
    optional "actors" (.mapping .text (.mapping .text .any)),
    optional "meta" (.nullable (.mapping .text .any))]

/-- Complaints about the states of a flow, of which there has to be one at least. -/
def statesMisfits (es : Entries) : List Misfit :=
  match Entries.lookup "states" es with
  | none => [⟨["states"], .missing⟩]
  | some (.dict []) => [⟨["states"], .empty⟩]
  | some (.dict states) => (entryMisfits states).map (Misfit.under "states")
  | some _ => [⟨["states"], .notAMapping⟩]

/-- Everything about a flow that does not have the right form. -/
def misfits (es : Entries) : List Misfit :=
  Shape.checkFields headFields es ++ statesMisfits es ++ Shape.checkFields tailFields es ++
    Shape.extras (Shape.fieldNames headFields ++ ["states"] ++ Shape.fieldNames tailFields) es

/-- The names of the states a location leads through. -/
def stateNames : List String → List String
  | "states" :: name :: rest => name :: stateNames rest
  | _ => []

/-- The state a location belongs to. -/
def stateOf (location : List String) : Option String :=
  let id := ".".intercalate (stateNames location)
  if id.isEmpty then none else some id

end Schema

end Statechart
