/-
# Compiling flows

A definition is checked for its form, its states are flattened and compiled one by one, and the
graph is analysed. All issues are collected in one pass; a graph is the result only if none of them
is fatal.

* `Definition.compile`, `Definition.compileSource`: the graph of a definition, or its errors;
* `Definition.validate`, `Definition.validateSource`: all issues of a definition;
* `errors_of_compile`: a definition that compiles has no errors.
-/
import Statechart.Compile.Analysis

namespace Statechart

/-- A compiled flow with the warnings about it. -/
structure Compiled where
  graph : Graph
  warnings : List Issue

/-- What a compilation found: all issues, and the graph if none of them is fatal. -/
structure CompileOutcome where
  issues : List Issue
  graph : Option Graph
deriving Inhabited

namespace Definition

/-- The name of flows without one. -/
def anonymous : String := "flow"

/-- The identifier of a flow. -/
def flowId (definition : Value) : String :=
  let id := definition.getD "id"
  if id.isTruthy then id.display else anonymous

/-- Whether an issue ends a compilation before references are looked at. -/
def isBlocked (issues : List Issue) : Bool := issues.any (·.problem.isBlocking)

/-- Complaints about the form of a definition. -/
def formIssues (es : Entries) : List Issue :=
  (Schema.misfits es).map fun m => ⟨.form m, Schema.stateOf m.location⟩

/-- The actors of a flow. -/
def buildActors (registry : Registry) (definitions : Entries) :
    Build (Catalogue Actor × List String) :=
  definitions.foldlM (fun (made, failed) (k, definition) =>
    let name := k.display
    match registry.createActor name definition with
    | .ok a => return (made ++ [(name, a)], failed)
    | .error (.reference e) => do
      Build.report (.actorRef name e)
      return (made, failed ++ [name])
    | .error (.data e) => Build.lift (.error e)) ([], [])

/-- The initial state of a flow. -/
def initialState (tree : Tree) (initial : Value) : Build (Option String) := do
  if !initial.isTruthy then
    Build.report .noInitial
    return none
  let name := initial.display
  let id := (Tree.absolute? name).getD name
  if tree.has id then return some id
  Build.report (.unknownInitial initial)
  return none

/-- The initial state and the nodes of a flow whose form is right. -/
def nodes (registry : Registry) (config : Config) (es : Entries) (tree : Tree) :
    Build (Option String × List StateNode) := do
  let field := fun name => ((Entries.lookup name es).getD .null).entries
  let (actors, failedActors) ← buildActors registry (field "actors")
  let initial ← initialState tree ((Entries.lookup "initial" es).getD .null)
  let setting : Setting := {
    registry, config, guards := field "guards", actions := field "actions"
    actorDefinitions := field "actors", actors, failedActors, tree }
  return (initial, ← tree.states.mapM (Compile.state setting))

/-- The issues of an analysis; only data that no check foresees stops it. -/
def analysed (strict : Bool) (g : Graph) : Except DataFault (List Issue) :=
  match Analysis.issues strict g with
  | .ok is => .ok is
  | .error (.data e) => .error e
  | .error _ => .ok []

/-- Whether a state was found inside itself. -/
def isCyclic (issues : List Issue) : Bool :=
  issues.any fun i => match i.problem with
    | .selfContaining _ => true
    | _ => false

/-- What can be said of a definition before its references are looked at. -/
def formalIssues (es : Entries) (tree : Tree) : List Issue :=
  tree.issues ++ (if isCyclic tree.issues then [] else formIssues es)

/-- Compile a definition: all issues, and the graph if none of them is fatal. The form of a definition
with a state inside itself is not looked at. -/
def run (registry : Registry) (config : Config) (source : FlowSource) :
    Except DataFault CompileOutcome :=
  match source.definition with
  | .dict es => do
    let tree := Tree.ofNests source.states
    let formal := formalIssues es tree
    if isBlocked formal then return ⟨formal, none⟩
    let ((initial, nodes), progress) ← (nodes registry config es tree).run { issues := formal }
    match initial with
    | none => return ⟨progress.issues, none⟩
    | some initial =>
      if !(Issue.errors progress.issues).isEmpty then return ⟨progress.issues, none⟩
      let graph : Graph := {
        id := flowId source.definition, initial, context := .dict (((Entries.lookup "context" es).getD .null).entries)
        states := nodes }
      let issues := progress.issues ++ (← analysed config.strictTemplates.isTruthy graph)
      return ⟨issues, if (Issue.errors issues).isEmpty then some graph else none⟩
  | _ => .ok ⟨[⟨.notAMapping, none⟩], none⟩

/-- Why a definition has no graph: its errors, or data that no check foresees. -/
inductive CompileError where
  | failure (f : CompileFailure)
  | data (e : DataFault)
deriving Inhabited

/-- The result of a compilation. -/
def CompileOutcome.toResult (id : String) (o : CompileOutcome) : Except CompileError Compiled :=
  match Issue.errors o.issues, o.graph with
  | [], some g => .ok ⟨g, Issue.warnings o.issues⟩
  | es, _ => .error (.failure ⟨id, es, Issue.warnings o.issues⟩)

/-- The graph of a definition with the warnings about it, or its errors. -/
def compileSource (registry : Registry) (config : Config) (source : FlowSource) :
    Except CompileError Compiled :=
  match run registry config source with
  | .ok o => CompileOutcome.toResult (flowId source.definition) o
  | .error e => .error (.data e)

/-- The graph of a definition given as a value. -/
def compile (registry : Registry) (config : Config) (definition : Value) :
    Except CompileError Compiled :=
  compileSource registry config (.ofValue definition)

/-- All issues of a definition. -/
def validateSource (registry : Registry) (config : Config) (source : FlowSource) :
    Except DataFault (List Issue) :=
  (·.issues) <$> run registry config source

/-- All issues of a definition given as a value. -/
def validate (registry : Registry) (config : Config) (definition : Value) :
    Except DataFault (List Issue) :=
  validateSource registry config (.ofValue definition)

/-- A definition that compiles has no errors. -/
theorem errors_of_compile {registry : Registry} {config : Config} {definition : Value} {c : Compiled}
    (h : compile registry config definition = .ok c) :
    ∃ is, validate registry config definition = .ok is ∧ Issue.errors is = [] ∧
      c.warnings = Issue.warnings is := by
  unfold compile compileSource at h
  split at h
  · rename_i o ho
    unfold CompileOutcome.toResult at h
    split at h
    · rename_i he _
      simp only [Except.ok.injEq] at h
      subst h
      exact ⟨o.issues, by simp [validate, validateSource, ho, Functor.map, Except.map], he, rfl⟩
    · simp at h
  · simp at h

end Definition

end Statechart
