/-
# The queue of an instance

Events are processed one at a time, in the order they were accepted; after each one a snapshot is
published. A listener may send events or stop the instance while it is told a snapshot. While an
event is processed such events only join the queue; otherwise they are processed at once.

* `Instance.start`, `Instance.send`, `Instance.stop`: what the host may do;
* `Instance.deliver`: the event of a timer or a call;
* `Instance.explain`, `Instance.view`: questions that change nothing.
-/
import Statechart.Instance.Transition

namespace Statechart

namespace Instance

/-! ## 1. Snapshots and listeners -/

/-- What the instance shows now. -/
def snapshot (m : Machine) : Run Snapshot := do
  let s ← get
  let node ← Run.seek (m.graph.state s.state)
  return ⟨s.state, s.context, s.status, node.info, s.lastEvent⟩

/-- Tell a listener a snapshot; its failure, or that of a request it makes, is logged. -/
def notify (respond : Request → Run Unit) (shown : Snapshot) (l : Listener) : Run Unit := do
  modify fun s => { s with heard := s.heard ++ [(l.id, shown)] }.note (.told l.id s.configuration)
  let reaction := l.respond shown
  let failed ← match ← Run.outcome (reaction.requests.forM respond) with
    | .ok _ => pure reaction.fails
    | .error _ => pure true
  if failed then
    Run.perform (Act.say .error .runtime
      ("Listener " ++ l.name ++ " failed on snapshot for '" ++ shown.state ++ "'"))

/-- Publish a snapshot; requests of listeners are handled as given. -/
def publish (m : Machine) (respond : Request → Run Unit) : Run Unit := do
  let shown ← snapshot m
  modify fun s => { s with published := s.published ++ [shown] }
  (← get).listeners.forM (notify respond shown)
  modify fun s =>
    if s.watch = .asleep then { s with watch := .idle, turns := s.turns ++ [.look] } else s

/-- Put an event at the end of the queue. -/
def enqueue (q : Queued) (s : Instance) : Instance :=
  { s with queue := s.queue ++ [q] }.note (.accepted q)

/-- Accept an event into the queue, as long as the instance runs. -/
def accept (m : Machine) (event : Value) : Run Unit := do
  let e ← Run.lift (Event.ofValue event)
  let s ← get
  if s.status ≠ .active then Run.fail (.terminated m.graph.id s.state e.type)
  modify (enqueue ⟨e, none⟩)

/-- Handle a request of a listener of an instance that does not run any more. -/
def refuse (m : Machine) : Request → Run Unit
  | .send event => accept m event
  | .stop => return

/-- Stop the instance and give up all of its work. -/
def stop (m : Machine) : Run Unit := do
  if (← get).status = .active then
    modify fun s => { s.closeAll with status := .stopped, queue := [] }.note (.ended .stopped)
    publish m (refuse m)

/-- Handle a request of a listener while an event is processed. -/
def respondLater (m : Machine) : Request → Run Unit
  | .send event => accept m event
  | .stop => stop m

/-! ## 2. Processing the queue -/

/-- Process the events in the queue, at most `fuel` of them; events of closed scopes are dropped,
and all of them once the instance does not run any more. -/
def drainFor (m : Machine) : Nat → Run Unit
  | 0 => Run.fail .exhausted
  | fuel + 1 => do
    let s ← get
    match s.queue with
    | [] => return
    | q :: rest =>
      if s.status ≠ .active then set { s with queue := [] }
      else
        set { s with queue := rest }
        if q.scope.all s.isLive then
          Run.note (.begun q)
          process m q.event
          Run.note (.processed q)
          publish m (respondLater m)
        else Run.note (.dropped q)
        drainFor m fuel

/-- Process the events in the queue. -/
def drain (m : Machine) : Run Unit := drainFor m m.budget

/-- Handle a request of a listener between two events. -/
def respondNow (m : Machine) : Request → Run Unit
  | .send event => do
    accept m event
    drain m
  | .stop => stop m

/-- The event that states are entered with at the start. -/
def startEvent : Event := .ofType "xflows.init"

/-- Enter the first leaf. -/
def enterFirst (m : Machine) : Run Unit := do
  let leaf ← Run.seek m.graph.initialLeaf
  arrive m startEvent leaf 0

/-- Enter the first leaf; only the first start does so. -/
def start (m : Machine) : Run Unit := do
  if (← get).started then return
  modify fun s => { s with started := true }
  enterFirst m
  publish m (respondNow m)
  drain m

/-- Process an event of the host; the instance is started if it has not been. -/
def send (m : Machine) (event : Value) : Run Unit := do
  let e ← Run.lift (Event.ofValue event)
  let s ← get
  if s.status ≠ .active then Run.fail (.terminated m.graph.id s.state e.type)
  unless s.started do start m
  modify (enqueue ⟨e, none⟩)
  drain m

/-- Process the event of a timer or a call, unless its scope is closed. -/
def deliver (m : Machine) (scope : Nat) (e : Event) : Run Unit := do
  let s ← get
  if s.isLive scope && s.status = .active then
    modify (enqueue ⟨e, some scope⟩)
    drain m

/-! ## 3. Questions -/

/-- Why an event would be ignored now; none if it would not. -/
def explain (m : Machine) (event : Value) : Run (Option String) := do
  let e ← Run.lift (Event.ofValue event)
  let s ← get
  if s.status = .active then
    if (← select m e).isSome then return none
  return some ("Event '" ++ e.type ++ "' has no enabled transition in state '" ++ s.state ++ "'")

/-- What the active leaf has to show, with the context put in. -/
def view (m : Machine) : Run Value := do
  let s ← get
  let node ← Run.seek (m.graph.state s.state)
  Run.perform (View.render m.renderer (if node.ui.isTruthy then node.ui else .dict []) s.context .null)

/-- Add a listener. -/
def subscribe (l : Listener) (s : Instance) : Instance := { s with listeners := s.listeners ++ [l] }

/-- Remove the first listener of a number, if there is one. -/
def unsubscribe (id : Nat) (s : Instance) : Instance :=
  { s with listeners := s.listeners.eraseP (·.id = id) }

/-- An instance that has not been started. -/
def ofGraph (m : Machine) (world : World) : Except Fault Instance := do
  return { context := m.graph.context, state := ← m.graph.initialLeaf, world }

/-- A start after the first one changes nothing. -/
theorem start_of_started (m : Machine) {s : Instance} (h : s.started = true) :
    (start m).exec s = (.ok (), s) := by
  cases s
  simp only at h
  subst h
  rfl

end Instance

end Statechart
