/-
# Analysis of a graph

What is odd about a graph as a whole: states that no run can enter, states that no run can leave,
guards and templates that read what nothing in the flow provides.

* `Analysis.unreachableStates`, `Analysis.deadEnds`;
* `Analysis.provided`: the paths that a flow provides;
* `Analysis.unprovided`: guards and templates that read other ones.
-/
import Statechart.Compile.State
import Statechart.Template.Requirement

namespace Statechart

namespace Analysis

/-! ## 1. States -/

/-- The outermost states that cannot be entered in a run. -/
def unreachableStates (g : Graph) : Except Fault (List Issue) := do
  let reachable ← g.reachable
  return (g.states.filter fun n =>
    !reachable.contains n.id && n.parent.all reachable.contains).map fun n =>
      ⟨.unreachable n.id g.initial, some n.id⟩

/-- The leaves, other than final ones, that cannot be left. -/
def deadEnds (g : Graph) : Except Fault (List Issue) := do
  let found ← g.states.mapM fun n => do
    if n.isCompound || n.isFinal then return none
    if (← g.outgoing n.id).any (·.target.isSome) then return none
    return some (⟨.deadEnd n.id, some n.id⟩ : Issue)
  return found.reduceOption

/-! ## 2. Provided paths -/

/-- All actions of a state, those of its transitions included. -/
def actionsOf (n : StateNode) : List BoundAction :=
  n.entry ++ n.exit ++ n.candidates.flatMap (·.actions)

/-- The scoped paths that something in a flow writes, or that are there from the start. -/
def provided (g : Graph) : List String :=
  (g.context.paths "").map ("context." ++ ·) ++
    g.states.flatMap fun n =>
      (actionsOf n ++ n.validations.toList).flatMap (·.writes) ++
        n.inputs.map (·.target.reference) ++ n.computed.map ("context." ++ ·.field)

/-- Whether a path is provided, lies below a provided one or above one. -/
def isProvided (provided : List String) (path : String) : Bool :=
  provided.any fun key =>
    path = key || beginsWith (key ++ ".") path || beginsWith (key ++ "[") path ||
      beginsWith (path ++ ".") key

/-- The paths of the context that a guard reads and nothing provides. -/
def unprovidedReads (provided : List String) (g : Guard) : List String :=
  g.reads.filter fun path => beginsWith "context." path && !isProvided provided path

/-- Guards of a state that read what nothing provides, each path once. -/
def guardIssues (provided : List String) (n : StateNode) : List Issue :=
  let found := n.candidates.flatMap fun c =>
    match c.guard with
    | some g => (unprovidedReads provided g).map fun path => (g.name, path)
    | none => []
  let firsts := found.foldl (fun done (name, path) =>
    if done.any (·.2 = path) then done else done ++ [(name, path)]) ([] : List (String × String))
  firsts.map fun (name, path) => ⟨.unprovidedPath name path, some n.id⟩

/-! ## 3. Templates -/

/-- The template an action renders, with a label. -/
def actionTemplate? (a : BoundAction) : Except DataFault (Option (String × String)) :=
  if a.name = "renderTemplateInto" then do
    let template := (Entries.lookup "template" a.params).getD .null
    return some ("Template of '" ++ a.name ++ "'", ← template.shown)
  else if a.name = "log" then
    match Entries.lookup "message" a.params with
    | some (.text s) => .ok (some ("Log message", s))
    | _ => .ok none
  else .ok none

/-- The templates of a call, with labels. -/
def callTemplates (i : Invocation) : List (String × String) :=
  (match i.cacheKey with
    | .text s => if s.isEmpty then [] else [("Cache key of invoke '" ++ i.id ++ "'", s)]
    | _ => []) ++
  match i.actor with
  | .http a =>
    match Entries.lookup "url" a.config with
    | some (.text s) => [("URL of invoke '" ++ i.id ++ "'", s)]
    | _ => []
  | _ => []

/-- The templates of a state, with labels. -/
def templates (n : StateNode) : Except DataFault (List (String × String)) := do
  return (← (actionsOf n).mapM actionTemplate?).reduceOption ++ n.invokes.flatMap callTemplates

/-- Templates of a state that read what nothing provides. -/
def templateIssues (strict : Bool) (provided : List String) (n : StateNode) :
    Except Fault (List Issue) := do
  let found ← (← liftData (templates n)).mapM fun (label, template) => do
    return (← Template.missing template provided).map fun name =>
      (⟨.unprovidedVariable label name strict, some n.id⟩ : Issue)
  return found.flatten

/-- Guards and templates that read what nothing provides. -/
def unprovided (strict : Bool) (g : Graph) : Except Fault (List Issue) := do
  let provided := provided g
  let found ← g.states.mapM fun n => do
    return guardIssues provided n ++ (← templateIssues strict provided n)
  return found.flatten

/-- Everything odd about a graph. -/
def issues (strict : Bool) (g : Graph) : Except Fault (List Issue) := do
  return (← unreachableStates g) ++ (← deadEnds g) ++ (← unprovided strict g)

end Analysis

end Statechart
