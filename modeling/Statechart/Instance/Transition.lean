/-
# Transitions

The first enabled candidate for an event, from the active leaf outwards, is taken. One without a
target only runs its actions. Otherwise the active states are left, innermost first, down to the
common surroundings of source and target; the actions run; and the states on the way to the target's
leaf are entered, outermost first. What has been done before a failure remains.

* `Run`: steps of an instance that may fail;
* `Instance.select`, `Instance.take`;
* `Instance.enter`, `Instance.leave`.
-/
import Statechart.Instance

namespace Statechart

/-! ## 1. Steps of an instance -/

/-- A step of an instance that may fail; what it has done before a failure remains. -/
abbrev Run (α : Type) := ExceptT Fault (StateM Instance) α

namespace Run

/-- The result of a step and the instance after it. -/
def exec (m : Run α) (s : Instance) : Except Fault α × Instance := m s

/-- A step that changes nothing. -/
def lift (r : Except Fault α) : Run α := fun s => (r, s)

def fail (f : Fault) : Run α := lift (.error f)

/-- A step in the world around the instance. -/
def inWorld (m : StateM World α) : Run α := fun s =>
  let (a, world) := m.run s.world
  (.ok a, { s with world })

/-- A step with effects. -/
def perform (m : Act α) : Run α := fun s =>
  let (r, world) := (World.perform m).run s.world
  (r, { s with world })

/-- Write into the journal. -/
def note (x : Happening) : Run Unit := modify (Instance.note x)

/-- A step whose failure is written into the journal. -/
def watched (o : Origin) (m : Run α) : Run α := fun s =>
  match m s with
  | (.error f, s) => (.error f, s.note (.raised o f))
  | r => r

/-- The result of looking for states; a state that is not found is written into the journal. -/
def seek (r : Except Fault α) : Run α := fun s =>
  match r with
  | .error f => (r, s.note (.missed f))
  | .ok _ => (r, s)

/-- The result of a step as a value; only a budget that is used up still fails. -/
def outcome (m : Run α) : Run (Except Fault α) := fun s =>
  match m s with
  | (.error .exhausted, s) => (.error .exhausted, s)
  | (r, s) => (.ok r, s)

@[simp] theorem exec_lift (r : Except Fault α) (s : Instance) : (lift r).exec s = (r, s) := rfl

/-- What a step does remains, whether it fails or not. -/
theorem exec_outcome (m : Run α) (s : Instance) : ((outcome m).exec s).2 = (m.exec s).2 := by
  unfold outcome exec
  dsimp only
  split <;> simp_all

end Run

namespace Instance

/-! ## 2. Choosing a candidate -/

/-- The first candidate whose guard passes; later ones are not checked. -/
def firstEnabled (context event : Value) : List Candidate → Act (Option Candidate)
  | [] => return none
  | c :: cs => do
    let enabled ← match c.guard with
      | none => pure true
      | some g => g.check context event
    if enabled then return some c else firstEnabled context event cs

/-- The candidates for an event, from the active leaf outwards. -/
def candidatesFor (m : Machine) (state : String) (event : String) : Except Fault (List Candidate) := do
  let nodes ← (state :: (← m.graph.ancestors state)).mapM m.graph.state
  return nodes.flatMap (·.candidatesFor event)

/-- The candidate an event selects. -/
def select (m : Machine) (e : Event) : Run (Option Candidate) := do
  let s ← get
  let cs ← Run.seek (candidatesFor m s.state e.type)
  Run.watched .guard (Run.perform (firstEnabled s.context e.value cs))

/-! ## 3. Entering and leaving states -/

/-- What an action makes of a context. -/
def act (m : Machine) (e : Event) (a : BoundAction) (context : Value) : Run Value := do
  Run.note (.acted a)
  Run.watched .action (Run.perform (a.apply m.renderer context e.value))

/-- Run actions, one after the other, on the context. -/
def runActions (m : Machine) (e : Event) (actions : List BoundAction) : Run Unit :=
  actions.forM fun a => do
    let context ← act m e a (← get).context
    modify fun s => { s with context }

/-- Store a computed field; one whose expression has no value is null. -/
def computeField (node : StateNode) (e : Event) (context : Value) (c : ComputedField) : Run Value := do
  let key := node.id ++ ":" ++ c.field
  if c.cache && (← get).computed.contains key then return context
  let v ← Run.perform (Act.catchEval (Act.lift (evaluate c.expression context e.value)) fun f => do
    Act.say .warning .runtime ("Computed field '" ++ c.field ++ "' in '" ++ node.id ++
      "' failed, storing null: " ++ f.message)
    return .null)
  let context ← Run.lift (context.stored c.field v)
  if c.cache then modify fun s => { s with computed := s.computed ++ [key] }
  return context

/-- The context at the entry of a state: inputs, computed fields and validations, in this order. -/
def entryContext (m : Machine) (node : StateNode) (e : Event) : Run Value := do
  let context ← Run.watched .store (Run.perform (Binding.applyInputs node.inputs (← get).context))
  let context ← Run.watched .computed (node.computed.foldlM (computeField node e) context)
  match node.validations with
  | some a => act m e a context
  | none => return context

/-- Set an alarm some seconds from now. -/
def setAlarm (seconds : Number) (kind : AlarmKind) : Run Unit := do
  let world := (← get).world
  let due ← Run.lift (liftData do world.instant (← liftArith seconds.toFloat))
  modify fun s => { s with alarms := s.alarms ++ [⟨due, kind⟩] }

/-- Start a timer. -/
def startTimer (scope : Nat) (timer : AfterTimer) : Run Unit := do
  let seconds ← Run.lift (liftData (Value.int timer.delayMs).seconds)
  setAlarm seconds (.event scope timer.event)
  Run.note (.armed scope (.timer timer.event))

/-- Start a call; it goes on when it is its turn. -/
def openCall (scope : Nat) (e : Event) (i : Invocation) (s : Instance) : Instance :=
  { s with
    serial := s.serial + 1
    calls := s.calls ++ [⟨s.serial, scope, i, .fresh i s.context e.value⟩]
    turns := s.turns ++ [.call s.serial]
    journal := s.journal ++ [.armed scope (.call i.id)] }

/-- Start the timers and the calls of a state. -/
def startWork (m : Machine) (node : StateNode) (scope : Nat) (e : Event) : Run Unit := do
  if node.after.isEmpty && node.invokes.isEmpty then return
  unless m.isTimed do Run.fail (.unscheduled node.id)
  node.after.forM (startTimer scope)
  node.invokes.forM fun i => modify (openCall scope e i)

/-- Open a scope for a state, which becomes the innermost active one. -/
def openState (id : String) (s : Instance) : Instance :=
  { s with
    serial := s.serial + 1
    live := s.live ++ [s.serial]
    scopes := if s.scopes.any (·.state = id) then
        s.scopes.map fun c => if c.state = id then ⟨id, s.serial⟩ else c
      else s.scopes ++ [⟨id, s.serial⟩]
    active := s.active ++ [id]
    journal := s.journal ++ [.entered ⟨id, s.serial⟩] }

/-- Prepare the context at the entry of a state, and run its entry actions. -/
def prepare (m : Machine) (e : Event) (node : StateNode) : Run Unit := do
  let context ← entryContext m node e
  modify fun s => { s with context }
  runActions m e node.entry

/-- Enter a state. -/
def enter (m : Machine) (e : Event) (id : String) : Run Unit := do
  let node ← Run.seek (m.graph.state id)
  let scope := (← get).serial
  modify (openState id)
  prepare m e node
  Run.watched .schedule (startWork m node scope e)

/-- Close the scope of a state, which is not active any more. -/
def closeState (id : String) (s : Instance) : Instance :=
  let scope := (s.scopes.find? (·.state = id)).map (·.serial)
  let s := match scope with
    | some n => s.closeScope n
    | none => s
  { s with
    scopes := s.scopes.filter (·.state ≠ id)
    active := s.active.erase id
    journal := s.journal ++ [.left id scope] }

/-- Leave a state. -/
def leave (m : Machine) (e : Event) (id : String) : Run Unit := do
  let node ← Run.seek (m.graph.state id)
  modify (closeState id)
  Run.watched .store (Run.perform (Binding.applyOutputs node.outputs (← get).context))
  runActions m e node.exit

/-! ## 4. Taking a candidate -/

/-- The length of the common beginning of two lists. -/
def commonLength [DecidableEq α] : List α → List α → Nat
  | a :: as, b :: bs => if a = b then commonLength as bs + 1 else 0
  | _, _ => 0

/-- How many of the outermost active states a transition keeps: those around both its source and
its target. -/
def keptDepth (m : Machine) (source target : String) : Except Fault Nat := do
  return commonLength (← m.graph.pathTo source).dropLast (← m.graph.pathTo target).dropLast

/-- The end of an instance: all work is given up. -/
def finish (s : Instance) : Instance := { s.closeAll with status := .done }.note (.ended .done)

/-- Enter the states on the way to a leaf, all but some of the outermost; a final leaf is the end. -/
def arrive (m : Machine) (e : Event) (leaf : String) (depth : Nat) : Run Unit := do
  ((← Run.seek (m.graph.pathTo leaf)).drop depth).forM (enter m e)
  modify fun s => { s with state := leaf }
  if (← Run.seek (m.graph.state leaf)).isFinal then modify finish

/-- Take a candidate. -/
def take (m : Machine) (e : Event) (c : Candidate) : Run Unit := do
  match c.target with
  | none => runActions m e c.actions
  | some target =>
    let leaf ← Run.seek (m.graph.leafFor target)
    let depth ← Run.seek (keptDepth m c.source target)
    ((← get).active.drop depth).reverse.forM (leave m e)
    runActions m e c.actions
    arrive m e leaf depth

/-- Process an event: the candidate it selects is taken; an event that selects none is ignored. -/
def process (m : Machine) (e : Event) : Run Unit := do
  modify fun s => { s with lastEvent := some e.type }
  match ← select m e with
  | some c => take m e c
  | none =>
    if e.type.startsWith "error.invoke." then
      let state := (← get).state
      let data ← Run.lift (liftData (e.value.getD "data").shown)
      Run.perform (Act.say .warning .runtime ("Unhandled invoke failure in '" ++ state ++ "': " ++ data))

/-- The common beginning is one of both lists. -/
theorem commonLength_le [DecidableEq α] (as bs : List α) :
    commonLength as bs ≤ as.length ∧ as.take (commonLength as bs) = bs.take (commonLength as bs) := by
  fun_induction commonLength as bs with
  | case1 a as bs ih => simp_all
  | case2 => simp
  | case3 => simp

end Instance

end Statechart
