/-
# Compiling states

A state of a definition becomes a node of the graph: its kind, what it does on entry and exit, what
it carries in and out, and all the ways that lead on from it. Timers and calls become events of
their own, with candidates like any other event.

* `Compile.state`: the node of a state;
* `Compile.candidates`, `Compile.timers`, `Compile.invocations`.
-/
import Statechart.Compile.Build

namespace Statechart

namespace Compile

/-! ## 1. Kinds and initial states -/

/-- A value as a list: null is empty, a single value stands alone. -/
def asList : Value → List Value
  | .null => []
  | .list vs => vs
  | v => [v]

/-- The kind of a state: declared, or that of its children. -/
def kindOf (s : RawState) : Build StateKind := do
  let hasChildren := !s.children.isEmpty
  match (((Entries.lookup "type" s.definition).getD .null).text?).bind StateKind.ofLabel? with
  | none => return if hasChildren then .compound else .atomic
  | some kind =>
    if kind ≠ .compound ∧ hasChildren then Build.report (.childrenNotAllowed kind s.id) s.id
    if kind = .compound ∧ !hasChildren then Build.report (.noChildren s.id) s.id
    return kind

/-- The child that is entered with a compound state: the declared one, or the first. -/
def initialChild (s : RawState) (kind : StateKind) : Build (Option String) := do
  match kind, s.children with
  | .compound, first :: _ =>
    match (Entries.lookup "initial" s.definition).getD .null with
    | .null =>
      Build.report (.implicitInitial s.id first) s.id
      return some first
    | initial =>
      let name := initial.display
      let candidate := (Tree.absolute? name).getD (s.id ++ "." ++ name)
      if s.children.contains candidate then return some candidate
      else
        Build.report (.notAChild initial s.id) s.id
        return none
  | _, _ => return none

/-! ## 2. Transitions -/

/-- Candidates by event, in the order in which the events came up. -/
abbrev Transitions := List (String × List Candidate)

/-- More candidates for an event. -/
def extend (event : String) (cs : List Candidate) : Transitions → Transitions
  | [] => [(event, cs)]
  | (e, ds) :: rest => if e = event then (e, ds ++ cs) :: rest else (e, ds) :: extend event cs rest

/-- The state a candidate leads to, if it leads anywhere. -/
def targetOf (c : Setting) (id event : String) (target : Value) : Build (Option String) :=
  match target with
  | .null => return none
  | target =>
    match c.tree.resolve? id target.display with
    | some t => return some t
    | none => do
      Build.report (.unknownTarget event target) id
      return none

/-- The guard of a candidate, if it has one. -/
def guardOf (c : Setting) (id : String) (ref : Value) : Build (Option Guard) :=
  match ref with
  | .null => return none
  | ref => parseGuard c id ref

/-- The fields of a candidate; a text is its target. -/
def candidateFields : Value → Entries
  | .text target => [(.text "target", .text target)]
  | v => v.entries

/-- One candidate; `first` are actions that run before its own. -/
def candidate (c : Setting) (id event : String) (first : List BoundAction) (item : Value) :
    Build Candidate := do
  let raw := candidateFields item
  let target ← targetOf c id event ((Entries.lookup "target" raw).getD .null)
  let guard ← guardOf c id ((Entries.lookup "guard" raw).getD ((Entries.lookup "cond" raw).getD .null))
  let actions ← bindActions c id (asList ((Entries.lookup "actions" raw).getD .null))
  return { event, source := id, target, guard, actions := first ++ actions }

/-- The candidates a configuration gives an event. -/
def candidates (c : Setting) (id event : String) (first : List BoundAction) (config : Value) :
    Build (List Candidate) :=
  (asList config).mapM (candidate c id event first)

/-- The candidates of all events a state names. -/
def namedTransitions (c : Setting) (id : String) (on : Entries) : Build Transitions :=
  on.foldlM (fun ts (event, config) => do
    return extend event.display (← candidates c id event.display [] config) ts) []

/-! ## 3. Timers -/

/-- The delays of a definition of timers, each with what it leads to. -/
def delays (after : Value) : Except DataFault (List (Int × Value)) :=
  match after with
  | .list items => items.mapM fun item => do
    return (← (item.getD "delay").asInt, .dict (Entries.erase "delay" item.entries))
  | .dict es => es.mapM fun (k, config) => return (← k.toValue.asInt, config)
  | _ => .ok []

/-- The event of a timer. -/
def timerEvent (id : String) (delay : Int) (index : Nat) : String :=
  "xflows.after." ++ toString delay ++ "." ++ id ++ "." ++ toString index

/-- The timers of a state, and the transitions with theirs added. -/
def timers (c : Setting) (id : String) (after : Value) (ts : Transitions) :
    Build (List AfterTimer × Transitions) := do
  let entries ← Build.lift (delays after)
  entries.zipIdx.foldlM (fun (done, ts) ((delay, config), index) => do
    let event := timerEvent id delay index
    let cs ← candidates c id event [] config
    return (done ++ [⟨delay, event⟩], extend event cs ts)) ([], ts)

/-! ## 4. Calls of actors -/

/-- The actor of a name: one of the flow, or of the registry. -/
def resolveActor (c : Setting) (id src : String) : Build (Option Actor) :=
  match c.actors.lookup src with
  | some a => return some a
  | none =>
    if c.failedActors.contains src then return none
    else match c.registry.actor? src with
      | some a => return some a
      | none => do
        Build.report (.unknownActor src) id
        return none

/-- What the flow's definition of an actor says about its calls. -/
def actorDefaults (c : Setting) (src : String) : Entries :=
  ((Entries.lookup src c.actorDefinitions).getD .null).entries

/-- The retry policy of a call; one that cannot be read is reported. -/
def retryPolicy (c : Setting) (id invokeId : String) (definition : Value) : Build RetryPolicy :=
  let base := RetryPolicy.ofConfig c.config
  match RetryPolicy.ofDefinition definition base with
  | .ok p => return p
  | .error (.bad e) =>
    if e.faultClass = .value then do
      Build.report (.retry invokeId (.bad e)) id
      return base
    else Build.lift (.error e)
  | .error e => do
    Build.report (.retry invokeId e) id
    return base

/-- The actions that store the result of a call. -/
def resultActions (c : Setting) (id : String) (item : Value) : Build (List BoundAction) :=
  let mapping := item.getD "mapResult"
  let target := item.getD "assignTo"
  bindActions c id
    ((if mapping.isTruthy then [.record [("type", .text "mapResult"), ("mapping", mapping)]] else []) ++
      if target.isTruthy then [.record [("type", .text "assignResult"), ("target", target)]] else [])

/-- The transitions without an event that has no candidate. -/
def withoutEmpty (event : String) (ts : Transitions) : Transitions :=
  ts.filter fun (e, cs) => !(e = event && cs.isEmpty)

/-- The identifier of a call: a declared one, or one made of the state and the place in it. -/
def invokeIdOf (id : String) (index : Nat) (item : Value) : String :=
  let declared := item.getD "id"
  if declared.isTruthy then declared.display else id ++ ":invoke[" ++ toString index ++ "]"

/-- Take the identifier of a call, which has to be free. -/
def takeInvokeId (id invokeId : String) : Build Unit := do
  if (← get).invokeIds.contains invokeId then Build.report (.duplicateInvoke invokeId) id
  modify fun s => { s with invokeIds := s.invokeIds ++ [invokeId] }

/-- The candidates for the end of a call; without a declaration its results are stored all the
same. -/
def doneCandidates (c : Setting) (id event : String) (results : List BoundAction) (config : Value) :
    Build (List Candidate) :=
  match config with
  | .null => return if results.isEmpty then [] else [{ event, source := id, actions := results }]
  | config => candidates c id event results config

/-- The transitions with the candidates for the failure of a call added; a call without any is worth
a warning. -/
def withErrorHandler (c : Setting) (id invokeId : String) (config : Value) (ts : Transitions) :
    Build Transitions :=
  match config with
  | .null => do
    Build.report (.noErrorHandler invokeId) id
    return ts
  | config => do
    let errorEvent := Invocation.errorEventOf invokeId
    return extend errorEvent (← candidates c id errorEvent [] config) ts

/-- The call of a definition, if its actor is known, and the transitions with its events added. -/
def invocation (c : Setting) (id : String) (index : Nat) (item : Value) (ts : Transitions) :
    Build (Option Invocation × Transitions) := do
  let invokeId := invokeIdOf id index item
  takeInvokeId id invokeId
  let src := (item.getD "src").display
  let actor ← resolveActor c id src
  let defaults := actorDefaults c src
  let fallback := fun name => (Entries.lookup name defaults).getD .null
  let own := item.getD "retry"
  let retry ← retryPolicy c id invokeId (if own.isTruthy then own else fallback "retry")
  let call := actor.map fun actor => {
    id := invokeId, src, stateId := id, actor, retry
    input := (item.get? "input").getD (fallback "input")
    timeoutMs := item.getD "timeoutMs"
    cacheKey := item.getD "cacheKey"
    cacheTtlMs := (item.get? "cacheTtlMs").getD (fallback "cacheTtlMs") }
  let doneEvent := Invocation.doneEventOf invokeId
  let results ← resultActions c id item
  let done ← doneCandidates c id doneEvent results (item.getD "onDone")
  let ts := withoutEmpty doneEvent (extend doneEvent done ts)
  let ts ← withErrorHandler c id invokeId (item.getD "onError") ts
  return (call, ts)

/-- The calls of a state, and the transitions with their events added. -/
def invocations (c : Setting) (id : String) (invoke : Value) (ts : Transitions) :
    Build (List Invocation × Transitions) :=
  (asList invoke).zipIdx.foldlM (fun (done, ts) (item, index) => do
    let (call, ts) ← invocation c id index item ts
    return (done ++ call.toList, ts)) ([], ts)

/-! ## 5. States -/

/-- A value, or an empty mapping in the place of what counts as false. -/
def orEmpty (v : Value) : Value := if v.isTruthy then v else .dict []

/-- The node of a state. -/
def state (c : Setting) (s : RawState) : Build StateNode := do
  let field := fun name => (Entries.lookup name s.definition).getD .null
  let kind ← kindOf s
  let lifecycle := field "lifecycle"
  let entry ← bindActions c s.id ((lifecycle.getD "onEnter").items ++ asList (field "entry"))
  let exit ← bindActions c s.id ((lifecycle.getD "onExit").items ++ asList (field "exit"))
  let binding := field "binding"
  let inputs ← bindingsOf c s.id .input (binding.getD "inputs").items
  let outputs ← bindingsOf c s.id .output (binding.getD "outputs").items
  let logic := field "logic"
  let computed ← computedFields s.id (logic.getD "computed").items
  let validations ← validations c s.id (logic.getD "validations").items
  let ts ← namedTransitions c s.id (field "on").entries
  let (after, ts) ← timers c s.id (field "after") ts
  let (invokes, ts) ← invocations c s.id (field "invoke") ts
  if kind = .final ∧ !(ts.isEmpty && after.isEmpty && invokes.isEmpty) then
    Build.report (.finalWithTransitions s.id) s.id
  let initial ← initialChild s kind
  return {
    id := s.id, key := s.key, kind, parent := s.parent, children := s.children, initial
    info := orEmpty (field "meta"), ui := field "ui", entry, exit, inputs, outputs, computed
    validations, transitions := ts, after, invokes }

end Compile

end Statechart
