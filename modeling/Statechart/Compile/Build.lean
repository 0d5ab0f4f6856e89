/-
# Compiling the parts of a state

References are resolved one by one; one that cannot be resolved is reported and left out, and the
rest goes on. Only data that no check foresees stops a compilation.

* `Build`: steps that report issues;
* `bindActions`, `parseGuard`, `bindings`, `computedFields`, `validations`.
-/
import Statechart.Compile.Tree

namespace Statechart

/-! ## 1. Steps that report issues -/

/-- What the parts of a flow are compiled against. -/
structure Setting where
  registry : Registry
  config : Config
  guards : Entries
  actions : Entries
  /-- The actors the flow defines, as they are written. -/
  actorDefinitions : Entries
  /-- Those of them that could be made, and the names of the others. -/
  actors : Catalogue Actor := []
  failedActors : List String := []
  tree : Tree

/-- What has been reported so far, and the identifiers of calls that are taken. -/
structure Progress where
  issues : List Issue := []
  invokeIds : List String := []
deriving Inhabited

/-- A step that may report issues; unforeseen data stops it. -/
abbrev Build := StateT Progress (Except DataFault)

namespace Build

/-- Report a problem. -/
def report (p : Problem) (state : Option String := none) : Build Unit :=
  modify fun s => { s with issues := s.issues ++ [⟨p, state⟩] }

/-- A step without reports. -/
def lift (r : Except DataFault α) : Build α := fun s => r.map (·, s)

@[simp] theorem report_run (p : Problem) (state : Option String) (s : Progress) :
    (report p state).run s = .ok ((), { s with issues := s.issues ++ [⟨p, state⟩] }) := rfl

end Build

namespace Compile

/-! ## 2. References -/

/-- The guard of a reference. -/
def parseGuard (c : Setting) (id : String) (ref : Value) : Build (Option Guard) :=
  match Guard.resolve c.guards c.registry.guard? ref with
  | .ok g => return some g
  | .error e => do
    Build.report (.guardRef ref e) id
    return none

/-- The action of a reference. -/
def bindAction (c : Setting) (id : String) (ref : Value) : Build (Option BoundAction) :=
  match Action.bind c.actions c.registry.action? ref with
  | .ok a => return some a
  | .error e => do
    Build.report (.actionRef e) id
    return none

/-- The actions of references, in order. -/
def bindActions (c : Setting) (id : String) (refs : List Value) : Build (List BoundAction) := do
  return (← refs.mapM (bindAction c id)).reduceOption

/-- The binding of a descriptor. -/
def bindingOf (c : Setting) (id : String) (direction : Direction) (descriptor : Value) :
    Build (Option Binding) :=
  match Binding.parse c.registry.transform? direction descriptor with
  | .ok b => return some b
  | .error (.problems ps) => do
    ps.forM fun p => Build.report (.binding direction p) id
    return none
  | .error (.badName e) => Build.lift (.error e)

/-- The bindings of descriptors, in order. -/
def bindingsOf (c : Setting) (id : String) (direction : Direction) (descriptors : List Value) :
    Build (List Binding) := do
  return (← descriptors.mapM (bindingOf c id direction)).reduceOption

/-! ## 3. Expressions -/

/-- Whether an expression uses known operators only. -/
def checkExpression (id label : String) (expression : Value) : Build Bool :=
  match distinctSorted (unknownOperators expression) with
  | [] => return true
  | names => do
    Build.report (.unknownOperators label names) id
    return false

/-- The path inside the context that a text addresses. -/
def contextField (name : String) : Except ActionError String :=
  match splitScope name with
  | (.context, rest) => .ok rest
  | (.event, _) => .error (.notContext name)

/-- The computed field of a definition. -/
def computedField (id : String) (item : Value) : Build (Option ComputedField) := do
  let name := (item.getD "field").display
  match contextField name with
  | .error e =>
    Build.report (.computedField e) id
    return none
  | .ok field =>
    let expression := item.getD "expression"
    if ← checkExpression id ("Computed field '" ++ name ++ "'") expression then
      return some { field, expression, cache := (item.getD "cache").isTruthy }
    else return none

def computedFields (id : String) (items : List Value) : Build (List ComputedField) := do
  return (← items.mapM (computedField id)).reduceOption

/-- Whether the rules use known operators only; the first that does not ends the check. -/
def checkRules (id : String) : List Value → Build Bool
  | [] => return true
  | rule :: rest => do
    let label := "Validation rule for '" ++ (rule.getD "field").display ++ "'"
    if ← checkExpression id label (rule.getD "expression") then checkRules id rest else return false

/-- The action that applies validation rules. -/
def validations (c : Setting) (id : String) (rules : List Value) : Build (Option BoundAction) := do
  if rules.isEmpty then return none
  if ← checkRules id rules then
    bindAction c id (.record [("type", .text "validateWithRules"), ("rules", .list rules)])
  else return none

end Compile

end Statechart
