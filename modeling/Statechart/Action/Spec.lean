/-
# Kinds of action

An action turns a context into another. Eleven are built in; a host may add its own or replace one.
The specification of an action says which of its parameters name paths that it reads or writes and
how its shorthand is read.

* `ActionSpec`: an action under a name;
* `BuiltinAction.spec`: the specifications of the built-in actions;
* `requiredParameters`: what an action of a given name cannot do without.
-/
import Statechart.Effect

namespace Statechart

/-- The built-in actions. -/
inductive BuiltinAction where
  | assignField | copyField | clearField | accumulateArray | generateId | log
  | renderTemplateInto | evaluateExpressionInto | validateWithRules | mapResult | assignResult
deriving DecidableEq, Repr, Inhabited

namespace BuiltinAction

/-- The name of a built-in action. -/
def label : BuiltinAction → String
  | assignField => "assignField"
  | copyField => "copyField"
  | clearField => "clearField"
  | accumulateArray => "accumulateArray"
  | generateId => "generateId"
  | log => "log"
  | renderTemplateInto => "renderTemplateInto"
  | evaluateExpressionInto => "evaluateExpressionInto"
  | validateWithRules => "validateWithRules"
  | mapResult => "mapResult"
  | assignResult => "assignResult"

def all : List BuiltinAction :=
  [assignField, copyField, clearField, accumulateArray, generateId, log, renderTemplateInto,
    evaluateExpressionInto, validateWithRules, mapResult, assignResult]

end BuiltinAction

/-- Code of the host: a context, an event and parameters give a new context, or null to keep it. -/
abbrev HostAction := Value → Value → Entries → Except DataFault Value

/-- What an action does. -/
inductive ActionCode where
  | builtin (b : BuiltinAction)
  | host (f : HostAction)
deriving Inhabited

/-- An action under a name. -/
structure ActionSpec where
  name : String
  code : ActionCode
  /-- Paths that are always read or written. -/
  reads : List String := []
  writes : List String := []
  /-- Parameters that name paths. -/
  readParams : List String := []
  writeParams : List String := []
  /-- The parameter a lone argument of the shorthand stands for. -/
  positional : Option String := none
  /-- Whether the shorthand passes all of its rest as one argument. -/
  takesRest : Bool := false
deriving Inhabited

/-- The specification of a built-in action. -/
def BuiltinAction.spec (b : BuiltinAction) : ActionSpec :=
  let base : ActionSpec := { name := b.label, code := .builtin b }
  match b with
  | assignField | accumulateArray =>
    { base with readParams := ["from"], writeParams := ["field"], positional := some "field" }
  | copyField => { base with readParams := ["from"], writeParams := ["to"] }
  | clearField | generateId => { base with writeParams := ["field"], positional := some "field" }
  | log => { base with positional := some "message", takesRest := true }
  | renderTemplateInto | evaluateExpressionInto => { base with writeParams := ["target"] }
  | validateWithRules => { base with writes := ["context.errors"] }
  | mapResult => { base with writeParams := ["mapping"] }
  | assignResult => { base with writeParams := ["target"], positional := some "target" }

@[simp] theorem BuiltinAction.spec_name (b : BuiltinAction) : b.spec.name = b.label := by
  cases b <;> rfl

/-- The parameters an action of this name cannot do without. -/
def requiredParameters (name : String) : List String :=
  match BuiltinAction.all.find? (·.label = name) with
  | some .assignField | some .clearField | some .accumulateArray => ["field"]
  | some .copyField => ["from", "to"]
  | some .renderTemplateInto => ["target", "template"]
  | some .evaluateExpressionInto => ["target", "expression"]
  | some .validateWithRules => ["rules"]
  | some .mapResult => ["mapping"]
  | some .assignResult => ["target"]
  | some .generateId | some .log | none => []

/-- An action whose parameters are settled. -/
structure BoundAction where
  spec : ActionSpec
  params : Entries
  /-- The qualified paths it reads and writes, in order. -/
  reads : List String
  writes : List String
deriving Inhabited

def BoundAction.name (a : BoundAction) : String := a.spec.name

end Statechart
