/-
# Time in an instance

Time passes only on request. Whatever is ready happens in turn; when nothing is, the earliest alarm
goes off, alarms of one instant in the order they were set.

* `Instance.advance`: let some time pass;
* `Instance.giveWay`: let happen only what is ready now;
* `Instance.waitFor`: let time pass until a state is active.
-/
import Statechart.Instance.Queue

namespace Statechart

namespace Instance

/-! ## 1. Calls -/

/-- The event that reports the end of a call, unless the call ended without a report. -/
def reportOf (i : Invocation) : Except Fault CallResult → Option Event
  | .ok r => some (.withData i.doneEvent r.value)
  | .error (.invocation e) => some (.withData i.errorEvent e.toValue)
  | .error _ => none

/-- Report the end of a call; a failure of what the report sets off is logged. -/
def report (m : Machine) (scope : Nat) (e : Event) : Run Unit := do
  match ← Run.outcome (deliver m scope e) with
  | .ok _ => return
  | .error _ => Run.perform (Act.say .error .runtime
      ("Processing '" ++ e.type ++ "' failed in flow '" ++ m.graph.id ++ "'"))

/-- What follows when a call has gone on: it is waited for again, or its end is reported. -/
def follow (m : Machine) (c : OpenCall) (step : CallStep) : Run Unit := do
  modify (dropAlarms c.serial)
  match step with
  | .waiting state limit wake =>
    let limits := limit.toList.map fun t => Alarm.mk t (.limit c.serial)
    let wakes := wake.toList.map fun t => Alarm.mk t (.wake c.serial)
    modify fun s => { s with
      calls := s.calls.map fun d => if d.serial = c.serial then { c with state } else d
      alarms := s.alarms ++ limits ++ wakes
      turns := if wake.isNone then s.turns ++ [.call c.serial] else s.turns }
  | .finished r =>
    modify fun s => { s with calls := s.calls.filter (·.serial ≠ c.serial) }
    match reportOf c.invocation r with
    | some e => report m c.scope e
    | none => return

/-- Let a call go on, if it is still open. -/
def continueCall (m : Machine) (serial : Nat) (step : CallState → StateM World CallStep) : Run Unit := do
  match (← get).calls.find? (·.serial = serial) with
  | some c => follow m c (← Run.inWorld (step c.state))
  | none => return

/-! ## 2. Turns and alarms -/

/-- Let something happen whose turn it is. -/
def takeTurn (m : Machine) : Turn → Run Unit
  | .call serial => continueCall m serial (CallState.resume m.renderer)
  | .abandon state => Run.inWorld state.abandon
  | .look => modify fun s => { s with watch := .awake }

/-- Let something happen whose instant has come. -/
def ring (m : Machine) : AlarmKind → Run Unit
  | .event scope type => do
    match ← Run.outcome (deliver m scope (.ofType type)) with
    | .ok _ => return
    | .error f => modify fun s => { s with failures := s.failures ++ [f] }
  | .wake serial => continueCall m serial (CallState.resume m.renderer)
  | .limit serial => continueCall m serial CallState.expire
  | .patience => modify fun s => { s with watch := .expired }

/-- The alarm that goes off first: of the earliest the one that was set first. -/
def earliest : List Alarm → Option Alarm
  | [] => none
  | a :: as =>
    match earliest as with
    | some b => if b.due < a.due then some b else some a
    | none => some a

/-- Let one thing happen, if there is anything up to an instant: what is ready, else the earliest
alarm. -/
def tick (m : Machine) (until? : Option Int) : Run Bool := do
  let s ← get
  match s.turns with
  | t :: ts =>
    set { s with turns := ts }
    takeTurn m t
    return true
  | [] =>
    match earliest s.alarms with
    | none => return false
    | some a =>
      if until?.all (a.due ≤ ·) then
        set { s with alarms := s.alarms.erase a, world := s.world.passTo a.due }
        ring m a.kind
        return true
      else return false

/-- Let everything happen that is ready or due up to an instant, at most `fuel` things. -/
def runUntil (m : Machine) (instant : Int) : Nat → Run Unit
  | 0 => Run.fail .exhausted
  | fuel + 1 => do
    if ← tick m (some instant) then runUntil m instant fuel

/-- Let some microseconds pass. -/
def advance (m : Machine) (time : Int) : Run Unit := do
  let instant := (← get).world.now + time
  runUntil m instant m.budget
  modify fun s => { s with world := s.world.passTo instant }

/-- Let everything happen that is ready, but no time pass. -/
def settle (m : Machine) : Nat → Run Unit
  | 0 => Run.fail .exhausted
  | fuel + 1 => do
    let s ← get
    match s.turns with
    | [] => return
    | t :: ts =>
      set { s with turns := ts }
      takeTurn m t
      settle m fuel

/-- Let happen whose turn it is until the mark of the one who gave way comes up. -/
def runToMark (m : Machine) : Nat → Run Unit
  | 0 => Run.fail .exhausted
  | fuel + 1 => do
    let s ← get
    match s.watch, s.turns with
    | .asleep, t :: ts =>
      set { s with turns := ts }
      takeTurn m t
      runToMark m fuel
    | _, _ => modify fun s => { s with watch := .idle }

/-- Let one alarm go off, if it is still set. -/
def ringIfSet (m : Machine) (a : Alarm) : Run Unit := do
  let s ← get
  if s.alarms.contains a then
    set { s with alarms := s.alarms.erase a }
    ring m a.kind

/-- Give way once: what is ready now happens. The alarms that are due by then come after whoever gave
way; they are the result, and the next to go off. -/
def giveWay (m : Machine) (due : List Alarm) : Run (List Alarm) := do
  modify fun s => { s with turns := s.turns ++ [.look], watch := .asleep }
  due.forM (ringIfSet m)
  let s ← get
  let next := (s.alarms.filter (·.due ≤ s.world.now)).mergeSort fun a b => a.due ≤ b.due
  runToMark m m.budget
  return next

/-! ## 3. Waiting for a state -/

/-- Whether a state is the active leaf or around it. -/
def isIn (s : Instance) (id : String) : Bool := s.state = id || s.active.contains id

/-- Look whether a state is active: the snapshot if it is, none if there is hope. -/
def look (m : Machine) (id : String) : Run (Option Snapshot) := do
  let s ← get
  if s.isIn id then some <$> snapshot m
  else if s.status ≠ .active then Run.fail (.waitTerminated m.graph.id s.state)
  else
    set { s with watch := .asleep }
    return none

/-- Let things happen until a state is active; `fuel` things at most. -/
def watchFor (m : Machine) (id : String) : Nat → Run Snapshot
  | 0 => Run.fail .exhausted
  | fuel + 1 => do
    match (← get).watch with
    | .expired => Run.fail .waitTimedOut
    | .awake =>
      match ← look m id with
      | some shown => return shown
      | none => watchFor m id fuel
    | _ =>
      if ← tick m none then watchFor m id fuel else Run.fail .waitTimedOut

/-- Nobody waits any more. -/
def endWatch (s : Instance) : Instance :=
  { s with
    watch := .idle
    alarms := s.alarms.filter (·.kind ≠ .patience)
    turns := s.turns.filter fun t => match t with
      | .look => false
      | _ => true }

/-- Let time pass until a state is active, for some seconds at most; what is ready comes first. -/
def waitFor (m : Machine) (id : String) (seconds : Number) : Run (Snapshot × Int) := do
  settle m m.budget
  if seconds.le (.int 0) then Run.fail .waitTimedOut
  setAlarm seconds .patience
  modify fun s => { s with watch := .awake }
  let r ← Run.outcome (watchFor m id m.budget)
  modify endWatch
  let shown ← Run.lift r
  return (shown, (← get).world.now)

/-! ## 4. The order of alarms -/

/-- No alarm goes off before the earliest. -/
theorem due_earliest_le {as : List Alarm} {a : Alarm} (h : earliest as = some a) :
    a ∈ as ∧ ∀ b ∈ as, a.due ≤ b.due := by
  induction as generalizing a with
  | nil => simp [earliest] at h
  | cons x xs ih =>
    unfold earliest at h
    split at h
    · rename_i b hb
      obtain ⟨hm, hle⟩ := ih hb
      split at h
      · rename_i hlt
        simp only [Option.some.injEq] at h
        subst h
        exact ⟨List.mem_cons_of_mem _ hm, fun c hc => by
          rcases List.mem_cons.mp hc with rfl | hc
          · omega
          · exact hle c hc⟩
      · rename_i hlt
        simp only [Option.some.injEq] at h
        subst h
        exact ⟨List.mem_cons_self, fun c hc => by
          rcases List.mem_cons.mp hc with rfl | hc
          · omega
          · have := hle c hc; omega⟩
    · rename_i hn
      simp only [Option.some.injEq] at h
      subst h
      cases xs with
      | nil => simp
      | cons y ys =>
        unfold earliest at hn
        split at hn
        · split at hn <;> simp at hn
        · simp at hn

end Instance

end Statechart
