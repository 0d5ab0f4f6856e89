/-
# Runs of an instance

A run is what comes of a sequence of operations: those of the host, of the clock, and of everything
an instance waits for.  Alarms may go off and calls may end in any order and at any time, and
listeners may answer every snapshot with requests, so a run is more than what a clock would do.

Inside an operation one event after the other is processed.  What happens between two of them is
told apart from what happens while one is processed:

* `Instance.Step`: one thing that happens to an instance, an event being processed from its begin to
  its end counting as one;
* `Instance.Operation`, `Instance.after`: operations, and the instance after some of them;
* `Instance.Spans`: what operations go through, for any relation that they may be asked to keep to;
* **`Instance.orderly_run`**, `Instance.steps_after`: an operation is a succession of steps, so that
  whatever steps keep holds after every run, and at each moment of it when an event is begun.
-/
import Statechart.Proofs.Part

namespace Statechart

/-- Whether an alarm is that of a timer. -/
def AlarmKind.isTimer : AlarmKind → Bool
  | .event .. => true
  | _ => false

namespace Instance

/-! ## 1. Steps -/

/-- Something happens that no transition depends on. -/
inductive Aside (m : Machine) : Instance → Instance → Prop
  | quiet (s : Instance) (lastEvent : Option String) (listeners : List Listener) (turns : List Turn)
      (watch : Watch) (published : List Snapshot) (heard : List (Nat × Snapshot))
      (failures : List Fault) (world : World) :
      Aside m s { s with lastEvent, listeners, turns, watch, published, heard, failures, world }
  | told (listener : Nat) (s : Instance) : Aside m s (s.note (.told listener s.configuration))
  | missed {f : Fault} {s : Instance} : m.graph.state s.state = .error f →
      Aside m s (s.note (.missed f))

/-- Something happens that leaves the queue and what is published alone. -/
inductive Beside (m : Machine) : Instance → Instance → Prop
  | quiet (s : Instance) (listeners : List Listener) (turns : List Turn) (watch : Watch)
      (heard : List (Nat × Snapshot)) (failures : List Fault) (world : World) :
      Beside m s { s with listeners, turns, watch, heard, failures, world }
  | told (listener : Nat) (s : Instance) : Beside m s (s.note (.told listener s.configuration))
  | missed {f : Fault} {s : Instance} : m.graph.state s.state = .error f →
      Beside m s (s.note (.missed f))

theorem Beside.aside {m : Machine} {s s' : Instance} (h : Beside m s s') : Aside m s s' := by
  cases h with
  | quiet _ listeners turns watch heard failures world =>
    exact .quiet s s.lastEvent listeners turns watch s.published heard failures world
  | told listener => exact .told listener s
  | missed h => exact .missed h

/-- Something happens that leaves the listeners alone as well, and what they have been told. -/
inductive Unheard (m : Machine) : Instance → Instance → Prop
  | quiet (s : Instance) (turns : List Turn) (watch : Watch) (failures : List Fault)
      (world : World) : Unheard m s { s with turns, watch, failures, world }
  | missed {f : Fault} {s : Instance} : m.graph.state s.state = .error f →
      Unheard m s (s.note (.missed f))

theorem Unheard.beside {m : Machine} {s s' : Instance} (h : Unheard m s s') : Beside m s s' := by
  cases h with
  | quiet _ turns watch failures world =>
    exact .quiet s s.listeners turns watch s.heard failures world
  | missed h => exact .missed h

theorem Unheard.listeners {m : Machine} {s s' : Instance} (h : Unheard m s s') :
    s'.listeners = s.listeners := by
  cases h <;> rfl

theorem beside_listeners {m : Machine} (listeners : List Listener) (s : Instance) :
    Beside m s { s with listeners } :=
  .quiet s listeners s.turns s.watch s.heard s.failures s.world

theorem unheard_world {m : Machine} (world : World) (s : Instance) : Unheard m s { s with world } :=
  .quiet s s.turns s.watch s.failures world

theorem unheard_turns {m : Machine} (turns : List Turn) (s : Instance) :
    Unheard m s { s with turns } :=
  .quiet s turns s.watch s.failures s.world

theorem unheard_watch {m : Machine} (watch : Watch) (s : Instance) :
    Unheard m s { s with watch } :=
  .quiet s s.turns watch s.failures s.world

/-- The event of a timer or a call, as it is accepted: not at all if its scope is closed. -/
def received (scope : Nat) (e : Event) (s : Instance) : Instance :=
  if s.isLive scope && s.status = .active then enqueue ⟨e, some scope⟩ s else s

/-- One thing happens to an instance. -/
inductive Step (m : Machine) : Instance → Instance → Prop
  | aside {s s' : Instance} : Aside m s s' → Step m s s'
  /-- Alarms are set or dropped, but none of a timer. -/
  | waited {s : Instance} (alarms : List Alarm) :
      alarms.filter (·.kind.isTimer) = s.alarms.filter (·.kind.isTimer) → Step m s { s with alarms }
  /-- A call goes on. -/
  | resumed {s : Instance} {c : OpenCall} (state : CallState) : c ∈ s.calls →
      Step m s { s with
        calls := s.calls.map fun d => if d.serial = c.serial then { c with state } else d }
  /-- An event is looked at, but not processed. -/
  | looked (e : Event) (s : Instance) : Step m s ((select m e).exec s).2
  | opened {s : Instance} : s.started = false →
      Step m s ((enterFirst m).exec { s with started := true }).2
  | accepted {s : Instance} (e : Event) : s.started = true → Step m s (enqueue ⟨e, none⟩ s)
  /-- The alarm of a timer goes off. -/
  | fired {s : Instance} {a : Alarm} {scope : Nat} {type : String} :
      a ∈ s.alarms → a.kind = .event scope type →
        Step m s ({ s with alarms := s.alarms.erase a }.received scope (.ofType type))
  /-- A call ends without a report, -/
  | vanished {s : Instance} {c : OpenCall} : c ∈ s.calls →
      Step m s { s with calls := s.calls.filter (·.serial ≠ c.serial) }
  /-- or with one. -/
  | reported {s : Instance} {c : OpenCall} {e : Event} : c ∈ s.calls →
      e.type ∈ (Errand.call c.invocation.id).reports →
        Step m s ({ s with calls := s.calls.filter (·.serial ≠ c.serial) }.received c.scope e)
  | cleared {s : Instance} : s.status ≠ .active → Step m s { s with queue := [] }
  | dropped {s : Instance} {q : Queued} {rest : List Queued} :
      s.queue = q :: rest → s.status = .active → Step m s ({ s with queue := rest }.note (.dropped q))
  | begun {s : Instance} {q : Queued} {rest : List Queued} :
      s.queue = q :: rest → s.status = .active → q.scope.all s.isLive = true →
        Step m s ({ s with queue := rest }.note (.begun q))
  | processed {s : Instance} (e : Event) : s.started = true → s.status = .active →
      Step m s ((process m e).exec s).2
  | through (q : Queued) (s : Instance) : Step m s (s.note (.processed q))
  | stopped {s : Instance} : s.status = .active →
      Step m s ({ s.closeAll with status := .stopped, queue := [] }.note (.ended .stopped))

/-- A succession of steps. -/
def Steps (m : Machine) : Instance → Instance → Prop := Relation.ReflTransGen (Step m)

/-! ## 2. Before and after the start -/

/-- Nothing is under way before the start. -/
def Orderly (s : Instance) : Prop := s.started = false → s.queue = [] ∧ s.live = []

theorem Inert.started_eq {s s' : Instance} (h : Inert s s') : s'.started = s.started := by
  obtain ⟨_, _, _, _, _, _, rfl, _⟩ := h
  rfl

theorem Arms.started_eq {scope : Nat} {xs : List Errand} {s s' : Instance}
    (h : Arms scope xs s s') : s'.started = s.started := by
  induction h with
  | nil => rfl
  | cons harm _ ih =>
    cases harm <;> exact ih

theorem Part.started_eq {g : Graph} {s s' : Instance} (h : Part g s s') : s'.started = s.started := by
  cases h with
  | remark h => exact h.started_eq
  | entry _ h _ h' => exact h'.started_eq.trans h.started_eq
  | exit id =>
    unfold closeState
    dsimp only
    split
    · simp [closeScope, dropCalls_eq]
    · rfl
  | ending =>
    obtain ⟨live, alarms, calls, turns, h, -⟩ := closeScopes_frame s.scopes s
    simp [finish, closeAll, note, h]

theorem Parts.started_eq {g : Graph} {s s' : Instance} (h : Parts g s s') :
    s'.started = s.started := by
  induction h with
  | refl => rfl
  | tail _ hp ih => exact hp.started_eq.trans ih

theorem received_frame (scope : Nat) (e : Event) (s : Instance) :
    ∃ queue journal, s.received scope e = { s with queue, journal } ∧
      (scope ∉ s.live → queue = s.queue) := by
  unfold received
  split
  · rename_i h
    refine ⟨_, _, rfl, fun hn => ?_⟩
    simp only [isLive, List.contains_iff_mem, Bool.and_eq_true, decide_eq_true_eq] at h
    exact absurd h.1 hn
  · exact ⟨s.queue, s.journal, rfl, fun _ => rfl⟩

theorem Step.started {m : Machine} {s s' : Instance} (h : Step m s s') (hs : s.started = true) :
    s'.started = true := by
  cases h with
  | aside h => cases h <;> exact hs
  | looked e => exact (inert_select m e s).started_eq.trans hs
  | opened h => exact absurd (h.symm.trans hs) (by decide)
  | fired | reported =>
    obtain ⟨_, _, h, _⟩ := received_frame _ _ _
    rw [h]
    exact hs
  | processed e => exact (parts_process e s).started_eq.trans hs
  | stopped =>
    obtain ⟨live, alarms, calls, turns, h, -⟩ := closeScopes_frame s.scopes s
    simpa [closeAll, note, h] using hs
  | _ => exact hs

theorem Step.orderly {m : Machine} {s s' : Instance} (h : Step m s s') (hs : s.Orderly) :
    s'.Orderly := by
  intro hstart
  have hbefore : s.started = false := by
    cases hb : s.started with
    | false => rfl
    | true => exact absurd (h.started hb) (by simp [hstart])
  obtain ⟨hqueue, hlive⟩ := hs hbefore
  cases h with
  | aside h => cases h <;> exact ⟨hqueue, hlive⟩
  | looked e =>
    obtain ⟨_, _, _, _, _, _, h, _⟩ := inert_select m e s
    rw [h]
    exact ⟨hqueue, hlive⟩
  | opened _ =>
    have hopen := (parts_enterFirst (m := m) { s with started := true }).started_eq
    rw [hopen] at hstart
    cases hstart
  | accepted _ h => simp [hbefore] at h
  | fired | reported =>
    obtain ⟨queue, journal, h, hclosed⟩ := received_frame _ _ _
    rw [h]
    exact ⟨(hclosed (by simp [hlive])).trans hqueue, hlive⟩
  | dropped h | begun h => simp [hqueue] at h
  | processed _ h => simp [hbefore] at h
  | cleared => exact ⟨rfl, hlive⟩
  | stopped =>
    refine ⟨rfl, ?_⟩
    change (s.scopes.foldl (fun s c => s.closeScope c.serial) s).live = []
    rw [live_closeScopes, hlive]
    rfl
  | _ => exact ⟨hqueue, hlive⟩

theorem Steps.started {m : Machine} {s s' : Instance} (h : Steps m s s') (hs : s.started = true) :
    s'.started = true := by
  induction h with
  | refl => exact hs
  | tail _ hstep ih => exact hstep.started ih

theorem Steps.orderly {m : Machine} {s s' : Instance} (h : Steps m s s') (hs : s.Orderly) :
    s'.Orderly := by
  induction h with
  | refl => exact hs
  | tail _ hstep ih => exact hstep.orderly ih

/-- Steps that are made only after the start. -/
def StartedSteps (m : Machine) (s s' : Instance) : Prop := s.started = true → Steps m s s'

instance (m : Machine) : IsPreorder Instance (StartedSteps m) where
  refl _ _ := .refl
  trans _ _ _ h h' hs := (h hs).trans (h' ((h hs).started hs))

/-- Steps that are made whenever nothing was under way before the start. -/
def OrderlySteps (m : Machine) (s s' : Instance) : Prop := s.Orderly → Steps m s s'

instance (m : Machine) : IsPreorder Instance (OrderlySteps m) where
  refl _ _ := .refl
  trans _ _ _ h h' hs := (h hs).trans (h' ((h hs).orderly hs))

variable {m : Machine}

theorem Step.orderlySteps {s s' : Instance} (h : Step m s s') : OrderlySteps m s s' :=
  fun _ => .single h

theorem OrderlySteps.started {s s' : Instance} (h : OrderlySteps m s s') : StartedSteps m s s' :=
  fun hs => h fun hf => by simp [hs] at hf

open Run

/-! ## 3. Snapshots and requests -/

/-- Tell all listeners a snapshot that has been published. -/
def tell (respond : Request → Run Unit) (shown : Snapshot) : Run Unit := do
  (← get).listeners.forM (notify respond shown)
  modify fun s =>
    if s.watch = .asleep then { s with watch := .idle, turns := s.turns ++ [.look] } else s

/-- What an instance shows in a state. -/
def shownIn (node : StateNode) (s : Instance) : Snapshot :=
  ⟨s.state, s.context, s.status, node.info, s.lastEvent⟩

theorem exec_snapshot {s : Instance} {node : StateNode} (h : m.graph.state s.state = .ok node) :
    (snapshot m).exec s = (.ok (s.shownIn node), s) := by
  rw [snapshot, exec_get_bind, h]
  rfl

/-- A snapshot is published before it is told. -/
theorem exec_publish {s : Instance} {node : StateNode} (h : m.graph.state s.state = .ok node)
    (respond : Request → Run Unit) :
    (publish m respond).exec s =
      (tell respond (s.shownIn node)).exec { s with published := s.published ++ [s.shownIn node] } := by
  rw [publish, exec_bind_ok (exec_snapshot h)]
  rfl

/-- Nothing is published of a state that is not found. -/
theorem publish_of_missing {s : Instance} {f : Fault} (h : m.graph.state s.state = .error f)
    (respond : Request → Run Unit) :
    (publish m respond).exec s = (.error f, s.note (.missed f)) := by
  have hsnapshot : (snapshot m).exec s = (.error f, s.note (.missed f)) := by
    rw [snapshot, exec_get_bind, h]
    rfl
  rw [publish, exec_bind_error hsnapshot]

section Publish

variable {R : Instance → Instance → Prop}

/-- A look at the active leaf. -/
theorem moves_look {α : Type} (hR : ∀ s s', Unheard m s s' → R s s')
    {f : Instance → StateNode → Run α} (hf : ∀ s node, Moves R (f s node)) :
    Moves R (do let s ← get; let node ← seek (m.graph.state s.state); f s node) := by
  refine Moves.get_bind fun s => ?_
  cases hnode : m.graph.state s.state with
  | error e => exact hR _ _ (.missed hnode)
  | ok node => exact hf s node s

theorem moves_perform {α : Type} (hR : ∀ s s', Unheard m s s' → R s s') (x : Act α) :
    Moves R (perform x) :=
  Moves.perform fun s world => hR _ _ (unheard_world world s)

variable [IsPreorder Instance R]

/-- A listener that is told a snapshot changes nothing but what its requests do. -/
theorem moves_notify (hR : ∀ s s', Beside m s s' → s'.listeners = s.listeners → R s s')
    {respond : Request → Run Unit} {shown : Snapshot} {l : Listener}
    (hrespond : ∀ q ∈ (l.respond shown).requests, Moves R (respond q)) :
    Moves R (notify respond shown l) := by
  refine Moves.bind (Moves.modify fun s => trans_of R (hR _ _ (.quiet s s.listeners s.turns s.watch
    (s.heard ++ [(l.id, shown)]) s.failures s.world) rfl) (hR _ _ (.told l.id _) rfl)) fun _ => ?_
  refine Moves.bind (Moves.outcome (Moves.forM hrespond)) fun r => ?_
  have hlog : ∀ failed : Bool, Moves R (if failed then
      perform (Act.say .error .runtime
        ("Listener " ++ l.name ++ " failed on snapshot for '" ++ shown.state ++ "'"))
      else Pure.pure () : Run Unit) := by
    intro failed
    split
    · exact moves_perform (fun _ _ h => hR _ _ h.beside h.listeners) _
    · exact Moves.pure ()
  cases r <;> exact Moves.bind (Moves.pure _) hlog

/-- **Telling a snapshot** changes nothing but what the requests of listeners do. -/
theorem moves_tell (hR : ∀ s s', Beside m s s' → s'.listeners = s.listeners → R s s')
    {respond : Request → Run Unit} (hrespond : ∀ q, Moves R (respond q)) (shown : Snapshot) :
    Moves R (tell respond shown) := by
  refine Moves.get_bind fun s => ?_
  refine Moves.bind (Moves.forM fun l _ => moves_notify hR fun q _ => hrespond q)
    (fun _ => Moves.modify fun s => ?_) s
  split
  · exact hR _ _ (.quiet s s.listeners (s.turns ++ [.look]) .idle s.heard s.failures s.world) rfl
  · exact refl_of R s

/-- **Publishing a snapshot** does no more. -/
theorem moves_publish (hR : ∀ s s', Aside m s s' → s'.listeners = s.listeners → R s s')
    {respond : Request → Run Unit} (hrespond : ∀ q, Moves R (respond q)) :
    Moves R (publish m respond) := by
  have hbeside : ∀ s s', Beside m s s' → s'.listeners = s.listeners → R s s' :=
    fun _ _ h => hR _ _ h.aside
  intro s
  cases hnode : m.graph.state s.state with
  | error f =>
    rw [publish_of_missing hnode]
    exact hR _ _ (.missed hnode) rfl
  | ok node =>
    rw [exec_publish hnode]
    refine trans_of R ?_ (moves_tell hbeside hrespond (s.shownIn node) _)
    exact hR _ _ (.quiet s s.lastEvent s.listeners s.turns s.watch (s.published ++ [s.shownIn node])
      s.heard s.failures s.world) rfl

end Publish

/-! ## 4. The queue -/

section Queue

variable {s : Instance}

/-- Nothing is processed if nothing is there, or once the instance has ended. -/
theorem exec_drainFor_nil (fuel : Nat) (h : s.queue = [] ∨ s.status ≠ .active) :
    (drainFor m (fuel + 1)).exec s = (.ok (), { s with queue := [] }) := by
  unfold drainFor
  rw [exec_get_bind]
  dsimp only
  split
  · rename_i hqueue
    rw [← hqueue]
    rfl
  · rename_i hqueue
    rw [if_pos (h.resolve_left (by simp [hqueue]))]
    rfl

/-- An event is processed, and what has come of it is published. -/
theorem exec_drainFor_live (fuel : Nat) {q : Queued} {rest : List Queued}
    (hqueue : s.queue = q :: rest) (hactive : s.status = .active)
    (hlive : q.scope.all s.isLive = true) :
    (drainFor m (fuel + 1)).exec s = (do
      process m q.event
      Run.note (.processed q)
      publish m (respondLater m)
      drainFor m fuel : Run Unit).exec ({ s with queue := rest }.note (.begun q)) := by
  rw [drainFor, exec_get_bind]
  dsimp only
  split
  · rename_i hnone
    cases hnone.symm.trans hqueue
  · rename_i hsome
    cases hsome.symm.trans hqueue
    rw [if_neg (not_not.mpr hactive), if_pos hlive]
    rfl

/-- An event of a scope that is closed is dropped. -/
theorem exec_drainFor_closed (fuel : Nat) {q : Queued} {rest : List Queued}
    (hqueue : s.queue = q :: rest) (hactive : s.status = .active)
    (hclosed : q.scope.all s.isLive ≠ true) :
    (drainFor m (fuel + 1)).exec s =
      (drainFor m fuel).exec ({ s with queue := rest }.note (.dropped q)) := by
  rw [drainFor, exec_get_bind]
  dsimp only
  split
  · rename_i hnone
    cases hnone.symm.trans hqueue
  · rename_i hsome
    cases hsome.symm.trans hqueue
    rw [if_neg (not_not.mpr hactive), if_neg hclosed]
    rfl

/-- Requests to send are refused after the end. -/
theorem send_of_ended (hs : s.status ≠ .active) {event : Value} {e : Event}
    (he : Event.ofValue event = .ok e) :
    (send m event).exec s = (.error (.terminated m.graph.id s.state e.type), s) := by
  rw [send, exec_bind_ok (a := e) (by rw [exec_lift, he]), exec_get_bind, if_pos hs]
  rfl

/-- What is not an event is refused at all times. -/
theorem send_of_malformed {event : Value} {f : Fault} (he : Event.ofValue event = .error f) :
    (send m event).exec s = (.error f, s) := by
  rw [send, exec_bind_error (by rw [exec_lift, he])]

/-- Any other event joins the queue, -/
theorem send_of_started (hs : s.status = .active) (hstarted : s.started = true) {event : Value}
    {e : Event} (he : Event.ofValue event = .ok e) :
    (send m event).exec s = (drain m).exec (enqueue ⟨e, none⟩ s) := by
  rw [send, exec_bind_ok (a := e) (by rw [exec_lift, he]), exec_get_bind,
    if_neg (not_not.mpr hs), if_pos hstarted]
  rfl

/-- after the start. -/
theorem send_of_unstarted (hs : s.status = .active) (hstarted : s.started = false) {event : Value}
    {e : Event} (he : Event.ofValue event = .ok e) :
    (send m event).exec s =
      (start m >>= fun _ => do modify (enqueue ⟨e, none⟩); drain m : Run Unit).exec s := by
  rw [send, exec_bind_ok (a := e) (by rw [exec_lift, he]), exec_get_bind,
    if_neg (not_not.mpr hs), if_neg (by simp [hstarted])]

/-- The events of timers and calls are not received after the end. -/
theorem deliver_of_ended (hs : s.status ≠ .active) (scope : Nat) (e : Event) :
    (deliver m scope e).exec s = (.ok (), s) := by
  rw [deliver, exec_get_bind, if_neg (by simp [hs])]
  rfl

theorem stop_of_ended (hs : s.status ≠ .active) : (stop m).exec s = (.ok (), s) := by
  rw [stop, exec_get_bind, if_neg hs]
  rfl

/-- What a listener sends is refused, or it joins the queue. -/
theorem accept_cases (event : Value) (s : Instance) :
    (∃ f, f ≠ .exhausted ∧ (accept m event).exec s = (.error f, s)) ∨
      ∃ e, s.status = .active ∧ (accept m event).exec s = (.ok (), enqueue ⟨e, none⟩ s) := by
  cases he : Event.ofValue event with
  | error f =>
    refine Or.inl ⟨f, ?_, by rw [accept, exec_bind_error (by rw [exec_lift, he])]⟩
    rintro rfl
    unfold Event.ofValue at he
    split at he <;> grind
  | ok e =>
    by_cases hs : s.status = .active
    · refine Or.inr ⟨e, hs, ?_⟩
      rw [accept, exec_bind_ok (a := e) (by rw [exec_lift, he]), exec_get_bind,
        if_neg (not_not.mpr hs)]
      rfl
    · refine Or.inl ⟨.terminated m.graph.id s.state e.type, by simp, ?_⟩
      rw [accept, exec_bind_ok (a := e) (by rw [exec_lift, he]), exec_get_bind, if_pos hs]
      rfl

/-- What is sent by a listener joins the queue at most. -/
theorem moves_accept {R : Instance → Instance → Prop} [IsPreorder Instance R]
    (h : ∀ e s, R s (enqueue ⟨e, none⟩ s)) (event : Value) : Moves R (accept m event) := by
  intro s
  rcases accept_cases (m := m) event s with ⟨f, -, haccept⟩ | ⟨e, -, haccept⟩
  · rw [haccept]
    exact refl_of R s
  · rw [haccept]
    exact h e s

theorem moves_refuse {R : Instance → Instance → Prop} [IsPreorder Instance R]
    (h : ∀ e s, R s (enqueue ⟨e, none⟩ s)) (q : Request) : Moves R (refuse m q) := by
  cases q with
  | send event => exact moves_accept h event
  | stop => exact Moves.pure ()

end Queue

theorem aside_started {s s' : Instance} (h : Aside m s s') : StartedSteps m s s' :=
  fun _ => .single (.aside h)

theorem aside_orderly {s s' : Instance} (h : Aside m s s') : OrderlySteps m s s' :=
  fun _ => .single (.aside h)

theorem started_accept (event : Value) : Moves (StartedSteps m) (accept m event) :=
  moves_accept (fun e _ hs => .single (.accepted e hs)) event

/-- Once an instance has ended, requests to send are refused. -/
theorem accept_of_ended (event : Value) {s : Instance} (h : s.status ≠ .active) :
    ((accept m event).exec s).2 = s := by
  rcases accept_cases (m := m) event s with ⟨f, -, haccept⟩ | ⟨_, hactive, -⟩
  · rw [haccept]
  · exact absurd hactive h

/-- Steps of an instance that has ended, which stays so. -/
def EndedSteps (m : Machine) (s s' : Instance) : Prop :=
  s.status ≠ .active → Steps m s s' ∧ s'.status ≠ .active

instance (m : Machine) : IsPreorder Instance (EndedSteps m) where
  refl _ h := ⟨.refl, h⟩
  trans _ _ _ h h' hs := ⟨(h hs).1.trans (h' (h hs).2).1, (h' (h hs).2).2⟩

theorem aside_ended {s s' : Instance} (h : Aside m s s') : EndedSteps m s s' := by
  intro hs
  refine ⟨.single (.aside h), ?_⟩
  cases h <;> exact hs

/-- Stopping an instance; nothing is accepted any more while the end is published. -/
theorem orderly_stop : Moves (OrderlySteps m) (stop m) := by
  intro s _
  unfold stop
  rw [exec_get_bind]
  split
  · rename_i hactive
    have hrefuse : ∀ q, Moves (EndedSteps m) (refuse m q) := by
      intro q
      cases q with
      | send event =>
        intro s hs
        rw [refuse, accept_of_ended event hs]
        exact ⟨.refl, hs⟩
      | stop => exact Moves.pure ()
    have hpublish := moves_publish (fun _ _ h _ => aside_ended h) hrefuse
    exact (Relation.ReflTransGen.single (.stopped hactive)).trans (hpublish _ (by simp [note])).1
  · exact .refl

theorem started_respondLater (q : Request) : Moves (StartedSteps m) (respondLater m q) := by
  cases q with
  | send event => exact started_accept event
  | stop => exact orderly_stop.mono fun _ _ h => h.started

theorem started_drainFor (fuel : Nat) : Moves (StartedSteps m) (drainFor m fuel) := by
  induction fuel with
  | zero => exact Moves.fail _
  | succ fuel ih =>
    intro s hs
    by_cases hactive : s.status = .active
    · cases hqueue : s.queue with
      | nil =>
        rw [exec_drainFor_nil fuel (Or.inl hqueue), ← hqueue]
        exact .refl
      | cons q rest =>
        by_cases hlive : q.scope.all s.isLive = true
        · rw [exec_drainFor_live fuel hqueue hactive hlive]
          refine (Relation.ReflTransGen.single (Step.begun hqueue hactive hlive)).trans ?_
          exact Moves.bind_from (R := StartedSteps m)
            (fun h => .single (.processed q.event h hactive)) (fun _ =>
              Moves.bind (Moves.note fun s _ => .single (.through q s)) fun _ =>
                Moves.bind (moves_publish (fun _ _ h _ => aside_started h) started_respondLater)
                  fun _ => ih) hs
        · rw [exec_drainFor_closed fuel hqueue hactive hlive]
          exact (Relation.ReflTransGen.single (Step.dropped hqueue hactive)).trans (ih _ hs)
    · rw [exec_drainFor_nil fuel (Or.inr hactive)]
      exact .single (.cleared hactive)

theorem started_drain : Moves (StartedSteps m) (drain m) := started_drainFor m.budget

/-- Before the start there is nothing in the queue. -/
theorem orderly_drain : Moves (OrderlySteps m) (drain m) := by
  intro s hs
  cases hstart : s.started with
  | true => exact started_drain s hstart
  | false =>
    unfold drain
    cases m.budget with
    | zero => exact .refl
    | succ fuel =>
      unfold drainFor
      rw [exec_get_bind]
      simp only [(hs hstart).1]
      exact .refl

theorem started_respondNow (q : Request) : Moves (StartedSteps m) (respondNow m q) := by
  cases q with
  | send event => exact Moves.bind (started_accept event) fun _ => started_drain
  | stop => exact orderly_stop.mono fun _ _ h => h.started

/-- What follows the first entries at the start. -/
theorem started_afterFirst :
    Moves (StartedSteps m) (do publish m (respondNow m); drain m) :=
  Moves.bind (moves_publish (fun _ _ h _ => aside_started h) started_respondNow) fun _ => started_drain

/-- The first start enters the first leaf. -/
theorem start_of_unstarted {s : Instance} (h : s.started = false) :
    (start m).exec s = (enterFirst m >>= fun _ =>
      (do publish m (respondNow m); drain m : Run Unit)).exec { s with started := true } := by
  rw [start, exec_get_bind, if_neg (by simp [h])]
  rfl

/-- At the start the first leaf is entered, and what follows is steps. -/
theorem steps_start {s : Instance} (h : s.started = false) :
    Steps m ((enterFirst m).exec { s with started := true }).2 ((start m).exec s).2 := by
  rw [start_of_unstarted h]
  have hopen := (parts_enterFirst (m := m) { s with started := true }).started_eq
  rcases hfirst : (enterFirst m).exec { s with started := true } with ⟨r, s₁⟩
  rw [hfirst] at hopen
  cases r with
  | error f =>
    rw [exec_bind_error hfirst]
    exact .refl
  | ok u =>
    rw [exec_bind_ok hfirst]
    exact started_afterFirst s₁ hopen

theorem orderly_start : Moves (OrderlySteps m) (start m) := by
  intro s _
  cases hstart : s.started with
  | true =>
    rw [start_of_started m hstart]
    exact .refl
  | false => exact (Relation.ReflTransGen.single (.opened hstart)).trans (steps_start hstart)

theorem started_of_start (s : Instance) : ((start m).exec s).2.started = true := by
  cases hstart : s.started with
  | true => rwa [start_of_started m hstart]
  | false =>
    have hopen := (parts_enterFirst (m := m) { s with started := true }).started_eq
    exact (steps_start hstart).started hopen

theorem orderly_send (event : Value) : Moves (OrderlySteps m) (send m event) := by
  intro s hs
  have hrest : ∀ e, Moves (StartedSteps m) (do modify (enqueue ⟨e, none⟩); drain m : Run Unit) :=
    fun e => Moves.bind (Moves.modify fun s h => .single (.accepted e h)) fun _ => started_drain
  cases he : Event.ofValue event with
  | error f =>
    rw [send_of_malformed he]
    exact .refl
  | ok e =>
    by_cases hactive : s.status = .active
    · cases hstart : s.started with
      | true =>
        rw [send_of_started hactive hstart he]
        exact hrest e s hstart
      | false =>
        rw [send_of_unstarted hactive hstart he]
        have hfirst := orderly_start (m := m) s hs
        have hstarted := started_of_start (m := m) s
        rcases hrun : (start m).exec s with ⟨r, s₁⟩
        rw [hrun] at hfirst hstarted
        cases r with
        | error f =>
          rw [exec_bind_error hrun]
          exact hfirst
        | ok u =>
          rw [exec_bind_ok hrun]
          exact hfirst.trans (hrest e s₁ hstarted)
    · rw [send_of_ended hactive he]
      exact .refl

/-- The event of a timer or a call is received, and what follows is steps. -/
theorem orderly_deliver (scope : Nat) (e : Event) (s : Instance) :
    OrderlySteps m (s.received scope e) ((deliver m scope e).exec s).2 := by
  unfold received deliver
  rw [exec_get_bind]
  split
  · exact orderly_drain _
  · exact fun _ => .refl

/-! ## 5. Timers and calls -/

/-- What is to be known of a relation in order that operations keep to it, apart from starting and
sending: they go through this, and nothing else. -/
structure Spans (m : Machine) (R : Instance → Instance → Prop) : Prop where
  unheard : ∀ {s s' : Instance}, Unheard m s s' → R s s'
  waited : ∀ {s : Instance} (alarms : List Alarm),
    alarms.filter (·.kind.isTimer) = s.alarms.filter (·.kind.isTimer) → R s { s with alarms }
  resumed : ∀ {s : Instance} {c : OpenCall} (state : CallState), c ∈ s.calls → R s { s with
    calls := s.calls.map fun d => if d.serial = c.serial then { c with state } else d }
  looked : ∀ e s, R s ((select m e).exec s).2
  vanished : ∀ {s : Instance} {c : OpenCall}, c ∈ s.calls →
    R s { s with calls := s.calls.filter (·.serial ≠ c.serial) }
  fired : ∀ {s : Instance} {a : Alarm} {scope : Nat} {type : String}, a ∈ s.alarms →
    a.kind = .event scope type →
      R s ((deliver m scope (.ofType type)).exec { s with alarms := s.alarms.erase a }).2
  reported : ∀ {s : Instance} {c : OpenCall} {e : Event}, c ∈ s.calls →
    e.type ∈ (Errand.call c.invocation.id).reports →
      R s ((deliver m c.scope e).exec { s with calls := s.calls.filter (·.serial ≠ c.serial) }).2
  stopped : Moves R (stop m)

theorem spans_orderly : Spans m (OrderlySteps m) where
  unheard h := aside_orderly h.beside.aside
  waited alarms h := (Step.waited alarms h).orderlySteps
  resumed state hc := (Step.resumed state hc).orderlySteps
  looked e s := (Step.looked e s).orderlySteps
  vanished hc := (Step.vanished hc).orderlySteps
  fired ha hkind := trans_of (OrderlySteps m) (Step.fired ha hkind).orderlySteps (orderly_deliver _ _ _)
  reported hc he := trans_of (OrderlySteps m) (Step.reported hc he).orderlySteps (orderly_deliver _ _ _)
  stopped := orderly_stop

theorem type_of_reportOf {i : Invocation} {r : Except Fault CallResult} {e : Event}
    (h : reportOf i r = some e) : e.type ∈ (Errand.call i.id).reports := by
  unfold reportOf at h
  split at h
  · cases h
    simp [Errand.reports, Event.withData, Invocation.doneEvent]
  · cases h
    simp [Errand.reports, Event.withData, Invocation.errorEvent]
  · cases h

namespace Spans

variable {R : Instance → Instance → Prop} [IsPreorder Instance R] (h : Spans m R)

include h

omit [IsPreorder Instance R] in
/-- The alarms of a call can be dropped: those of timers are left. -/
theorem dropAlarms (serial : Nat) (s : Instance) : R s (s.dropAlarms serial) := by
  refine h.waited _ ?_
  rw [List.filter_filter]
  refine List.filter_congr fun a _ => ?_
  cases a.kind <;> rfl

theorem report {c : OpenCall} {e : Event} {s : Instance} (hc : c ∈ s.calls)
    (he : e.type ∈ (Errand.call c.invocation.id).reports) :
    R s ((report m c.scope e).exec { s with calls := s.calls.filter (·.serial ≠ c.serial) }).2 := by
  refine Moves.bind_from (x := outcome (deliver m c.scope e)) ?_ fun r => ?_
  · rw [exec_outcome]
    exact h.reported hc he
  · cases r with
    | ok _ => exact Moves.pure ()
    | error _ => exact moves_perform (fun _ _ => h.unheard) _

theorem follow {c : OpenCall} {s : Instance} (hc : c ∈ s.calls) (step : CallStep) :
    R s ((follow m c step).exec s).2 := by
  have hdrop : R s (s.dropAlarms c.serial) := h.dropAlarms c.serial s
  have hc' : c ∈ (s.dropAlarms c.serial).calls := hc
  unfold Instance.follow
  rw [exec_bind_ok (exec_modify _ s)]
  refine trans_of R hdrop ?_
  generalize s.dropAlarms c.serial = t at hc'
  cases step with
  | waiting state limit wake =>
    refine trans_of R (h.resumed state hc') ?_
    have hwaited := h.waited
      (s := { t with calls := t.calls.map fun d => if d.serial = c.serial then { c with state } else d })
      (t.alarms ++ limit.toList.map (fun x => Alarm.mk x (.limit c.serial)) ++
        wake.toList.map fun x => Alarm.mk x (.wake c.serial)) (by
          cases limit <;> cases wake <;> simp [AlarmKind.isTimer])
    exact trans_of R hwaited (h.unheard (unheard_turns _ _))
  | finished r =>
    rw [exec_bind_ok (exec_modify _ t)]
    cases hreport : reportOf c.invocation r with
    | none => exact h.vanished hc'
    | some e => exact h.report hc' (type_of_reportOf hreport)

theorem continueCall (serial : Nat) (step : CallState → StateM World CallStep) :
    Moves R (continueCall m serial step) := by
  intro s
  unfold Instance.continueCall
  rw [exec_get_bind]
  split
  · rename_i c hc
    have hmem : c ∈ s.calls := List.mem_of_find?_eq_some hc
    refine trans_of R (h.unheard (unheard_world (step c.state s.world).2 s)) ?_
    exact h.follow (s := { s with world := (step c.state s.world).2 }) hmem _
  · exact refl_of R s

theorem takeTurn (t : Turn) : Moves R (takeTurn m t) := by
  cases t with
  | call serial => exact h.continueCall serial _
  | abandon state => exact Moves.inWorld fun s world => h.unheard (unheard_world world s)
  | look => exact Moves.modify fun s => h.unheard (unheard_watch _ s)

/-- An alarm goes off: that of a timer is delivered, any other is a matter of a call. -/
theorem ring {a : Alarm} {s : Instance} (ha : a ∈ s.alarms) :
    R s ((ring m a.kind).exec { s with alarms := s.alarms.erase a }).2 := by
  have hother : a.kind.isTimer = false → R s { s with alarms := s.alarms.erase a } := by
    intro hk
    refine h.waited _ ?_
    rw [← List.erase_filter, List.erase_of_not_mem]
    simp [hk]
  cases hkind : a.kind with
  | event scope type =>
    refine Moves.bind_from (x := outcome (deliver m scope (.ofType type))) ?_ fun r => ?_
    · rw [exec_outcome]
      exact h.fired ha hkind
    · cases r with
      | ok _ => exact Moves.pure ()
      | error f =>
        exact Moves.modify fun s => h.unheard (.quiet s s.turns s.watch _ s.world)
  | wake serial => exact trans_of R (hother (by rw [hkind]; rfl)) (h.continueCall serial _ _)
  | limit serial => exact trans_of R (hother (by rw [hkind]; rfl)) (h.continueCall serial _ _)
  | patience => exact trans_of R (hother (by rw [hkind]; rfl)) (h.unheard (unheard_watch _ _))

/-! ## 6. The clock -/

theorem tick (until? : Option Int) : Moves R (tick m until?) := by
  intro s
  unfold Instance.tick
  rw [exec_get_bind]
  split
  · rename_i t ts _
    refine trans_of R (h.unheard (unheard_turns ts s)) ?_
    exact Moves.bind (h.takeTurn t) (fun _ => Moves.pure true) { s with turns := ts }
  · split
    · exact refl_of R s
    · rename_i a ha
      split
      · refine trans_of R (h.unheard (unheard_world (s.world.passTo a.due) s)) ?_
        refine Moves.bind_from (x := Instance.ring m a.kind)
          (s := { s with world := s.world.passTo a.due, alarms := s.alarms.erase a }) ?_
          fun _ => Moves.pure true
        exact h.ring (s := { s with world := s.world.passTo a.due }) (due_earliest_le ha).1
      · exact refl_of R s

theorem runUntil (instant : Int) (fuel : Nat) : Moves R (runUntil m instant fuel) := by
  induction fuel with
  | zero => exact Moves.fail _
  | succ fuel ih =>
    refine Moves.bind (h.tick _) fun more => ?_
    split
    · exact ih
    · exact Moves.pure ()

theorem advance (time : Int) : Moves R (advance m time) :=
  Moves.get_bind fun s => Moves.bind (h.runUntil _ m.budget)
    (fun _ => Moves.modify fun s => h.unheard (unheard_world _ s)) s

theorem settle (fuel : Nat) : Moves R (settle m fuel) := by
  induction fuel with
  | zero => exact Moves.fail _
  | succ fuel ih =>
    intro s
    unfold Instance.settle
    rw [exec_get_bind]
    split
    · exact refl_of R s
    · rename_i t ts _
      refine trans_of R (h.unheard (unheard_turns ts s)) ?_
      exact Moves.bind (h.takeTurn t) (fun _ => ih) { s with turns := ts }

theorem runToMark (fuel : Nat) : Moves R (runToMark m fuel) := by
  induction fuel with
  | zero => exact Moves.fail _
  | succ fuel ih =>
    intro s
    unfold Instance.runToMark
    rw [exec_get_bind]
    split
    · rename_i t ts _ _
      refine trans_of R (h.unheard (unheard_turns ts s)) ?_
      exact Moves.bind (h.takeTurn t) (fun _ => ih) { s with turns := ts }
    · exact h.unheard (unheard_watch _ s)

theorem ringIfSet (a : Alarm) : Moves R (ringIfSet m a) := by
  intro s
  unfold Instance.ringIfSet
  rw [exec_get_bind]
  split
  · rename_i ha
    exact h.ring (by simpa using ha)
  · exact refl_of R s

theorem giveWay (due : List Alarm) : Moves R (giveWay m due) := by
  refine Moves.bind (Moves.modify fun s => h.unheard (.quiet s _ _ s.failures s.world)) fun _ => ?_
  refine Moves.bind (Moves.forM fun a _ => h.ringIfSet a) fun _ => Moves.get_bind fun s => ?_
  exact Moves.bind (h.runToMark m.budget) (fun _ => Moves.pure _) s

theorem look (id : String) : Moves R (look m id) := by
  refine Moves.get_bind fun s => ?_
  split
  · refine Moves.bind (moves_look (fun _ _ => h.unheard) fun s node => Moves.pure _)
      (fun shown => Moves.pure _) s
  · split
    · exact refl_of R s
    · exact h.unheard (unheard_watch _ s)

theorem watchFor (id : String) (fuel : Nat) : Moves R (watchFor m id fuel) := by
  induction fuel with
  | zero => exact Moves.fail _
  | succ fuel ih =>
    refine Moves.get_bind fun s => ?_
    split
    · exact refl_of R s
    · refine Moves.bind (h.look id) (fun shown? => ?_) s
      cases shown? with
      | some shown => exact Moves.pure _
      | none => exact ih
    · refine Moves.bind (h.tick none) (fun more => ?_) s
      split
      · exact ih
      · exact Moves.fail _

theorem setAlarm (seconds : Number) {kind : AlarmKind} (hkind : kind.isTimer = false) :
    Moves R (setAlarm seconds kind) := by
  have hadd : ∀ (due : Int) (s : Instance),
      R s { s with alarms := s.alarms ++ [Alarm.mk due kind] } := fun due s =>
    h.waited _ (by simp [hkind])
  exact Moves.get_bind fun s =>
    Moves.bind (Moves.lift _) (fun due => Moves.modify (hadd due)) s

theorem endWatch : Moves R (modify endWatch : Run Unit) := by
  refine Moves.modify fun s => ?_
  have hwaited : R s { s with alarms := s.alarms.filter (·.kind ≠ .patience) } := by
    refine h.waited _ ?_
    rw [List.filter_filter]
    refine List.filter_congr fun a _ => ?_
    cases a.kind <;> rfl
  exact trans_of R hwaited (h.unheard (.quiet _ _ _ s.failures s.world))

theorem waitFor (id : String) (seconds : Number) : Moves R (waitFor m id seconds) := by
  have hrest : Moves R (do
      Instance.setAlarm seconds .patience
      modify fun s => { s with watch := .awake }
      let r ← outcome (Instance.watchFor m id m.budget)
      modify Instance.endWatch
      let shown ← lift r
      return (shown, (← get).world.now) : Run (Snapshot × Int)) :=
    Moves.bind (h.setAlarm seconds rfl) fun _ =>
      Moves.bind (Moves.modify fun s => h.unheard (unheard_watch _ s)) fun _ =>
        Moves.bind (Moves.outcome (h.watchFor id m.budget)) fun r =>
          Moves.bind h.endWatch fun _ => Moves.bind (Moves.lift r) fun shown =>
            Moves.get_bind fun s => refl_of R s
  refine Moves.bind (h.settle m.budget) fun _ => ?_
  dsimp only
  split
  · exact Moves.bind (Moves.fail (α := PUnit) _) fun _ => hrest
  · exact hrest

theorem explain (event : Value) : Moves R (explain m event) := by
  refine Moves.bind (Moves.lift _) fun e => Moves.get_bind fun s => ?_
  dsimp only
  split
  · refine Moves.bind (h.looked e) (fun c? => ?_) s
    split <;> exact Moves.pure _
  · exact refl_of R s

omit [IsPreorder Instance R] in
theorem view : Moves R (view m) :=
  moves_look (fun _ _ => h.unheard) fun _ _ => moves_perform (fun _ _ => h.unheard) _

end Spans

/-! ## 7. Operations -/

/-- What can happen to an instance from outside. -/
inductive Operation where
  | start
  | send (event : Value)
  | stop
  | subscribe (l : Listener)
  | unsubscribe (id : Nat)
  | explain (event : Value)
  | view
  /-- An alarm goes off, whether it is due or not. -/
  | ring (a : Alarm)
  /-- Something happens that is ready, whether it is its turn or not. -/
  | turn (place : Nat)
  /-- A call goes on in some way, or ends with some result. -/
  | proceed (call : Nat) (step : CallState → StateM World CallStep)
  /-- The world changes. -/
  | change (world : World)
  | advance (time : Int)
  | settle
  | giveWay (due : List Alarm)
  | waitFor (id : String) (seconds : Number)

/-- Let something happen that is ready. -/
def turnAt (m : Machine) (place : Nat) : Run Unit := do
  let s ← get
  match s.turns[place]? with
  | some t =>
    set { s with turns := s.turns.eraseIdx place }
    takeTurn m t
  | none => return

/-- An operation as a step. -/
def Operation.run (m : Machine) : Operation → Run Unit
  | start => Instance.start m
  | send event => Instance.send m event
  | stop => Instance.stop m
  | subscribe l => modify (Instance.subscribe l)
  | unsubscribe id => modify (Instance.unsubscribe id)
  | explain event => do let _ ← Instance.explain m event
  | view => do let _ ← Instance.view m
  | ring a => ringIfSet m a
  | turn place => turnAt m place
  | proceed call step => continueCall m call step
  | change world => modify fun s => { s with world }
  | advance time => Instance.advance m time
  | settle => Instance.settle m m.budget
  | giveWay due => do let _ ← Instance.giveWay m due
  | waitFor id seconds => do let _ ← Instance.waitFor m id seconds

/-- An instance after an operation, whether it failed or not. -/
def afterOne (m : Machine) (s : Instance) (o : Operation) : Instance := ((o.run m).exec s).2

/-- An instance after operations, one after the other. -/
def after (m : Machine) (os : List Operation) (s : Instance) : Instance := os.foldl (afterOne m) s

theorem after_append (os more : List Operation) (s : Instance) :
    after m (os ++ more) s = after m more (after m os s) := List.foldl_append

/-- **What an operation keeps to**: what its kinds of steps do, apart from who listens; starting and
sending on their own. -/
theorem Spans.run {R : Instance → Instance → Prop} [IsPreorder Instance R] (h : Spans m R)
    (o : Operation) (hstart : o = .start → Moves R (Instance.start m))
    (hsend : ∀ event, o = .send event → Moves R (Instance.send m event))
    (hsubscribe : ∀ l, o = .subscribe l → ∀ s, R s (Instance.subscribe l s))
    (hunsubscribe : ∀ id, o = .unsubscribe id → ∀ s, R s (Instance.unsubscribe id s)) :
    Moves R (o.run m) := by
  cases o with
  | start => exact hstart rfl
  | send event => exact hsend event rfl
  | stop => exact h.stopped
  | subscribe l => exact Moves.modify (hsubscribe l rfl)
  | unsubscribe id => exact Moves.modify (hunsubscribe id rfl)
  | explain event => exact Moves.bind (h.explain event) fun _ => Moves.pure ()
  | view => exact Moves.bind h.view fun _ => Moves.pure ()
  | ring a => exact h.ringIfSet a
  | turn place =>
    intro s
    change R s ((turnAt m place).exec s).2
    unfold turnAt
    rw [exec_get_bind]
    split
    · rename_i t _
      refine trans_of R (h.unheard (unheard_turns (s.turns.eraseIdx place) s)) ?_
      exact h.takeTurn t { s with turns := s.turns.eraseIdx place }
    · exact refl_of R s
  | proceed call step => exact h.continueCall call step
  | change world => exact Moves.modify fun s => h.unheard (unheard_world world s)
  | advance time => exact h.advance time
  | settle => exact h.settle m.budget
  | giveWay due => exact Moves.bind (h.giveWay due) fun _ => Moves.pure ()
  | waitFor id seconds => exact Moves.bind (h.waitFor id seconds) fun _ => Moves.pure ()

/-- **An operation is a succession of steps.** -/
theorem orderly_run (o : Operation) : Moves (OrderlySteps m) (o.run m) :=
  spans_orderly.run o (fun _ => orderly_start) (fun event _ => orderly_send event)
    (fun _ _ s => aside_orderly (beside_listeners _ s).aside)
    fun _ _ s => aside_orderly (beside_listeners _ s).aside

theorem steps_after (os : List Operation) {s : Instance} (h : s.Orderly) :
    Steps m s (after m os s) := by
  induction os generalizing s with
  | nil => exact .refl
  | cons o os ih =>
    have hone : Steps m s (afterOne m s o) := orderly_run o s h
    exact hone.trans (ih (hone.orderly h))

/-! ## 8. Reached instances -/

/-- An instance as it is made, with anyone listening. -/
def IsFresh (m : Machine) (s : Instance) : Prop :=
  ∃ world listeners s₀, ofGraph m world = .ok s₀ ∧ s = { s₀ with listeners }

theorem eq_of_fresh {s : Instance} (h : IsFresh m s) : ∃ context state world listeners,
    s = { context, state, world, listeners } := by
  obtain ⟨world, listeners, s₀, h₀, rfl⟩ := h
  unfold ofGraph at h₀
  cases hleaf : m.graph.initialLeaf with
  | error f => simp [hleaf, bind, Except.bind] at h₀
  | ok leaf =>
    simp only [hleaf, bind, Except.bind, pure, Except.pure, Except.ok.injEq] at h₀
    subst h₀
    exact ⟨m.graph.context, leaf, world, listeners, rfl⟩

/-- An instance in the course of some run, not inside the processing of an event. -/
def Reached (m : Machine) (s : Instance) : Prop := ∃ s₀, IsFresh m s₀ ∧ Steps m s₀ s

theorem Reached.steps {s s' : Instance} (hs : Reached m s) (h : Steps m s s') : Reached m s' :=
  hs.imp fun _ h₀ => ⟨h₀.1, h₀.2.trans h⟩

theorem orderly_of_reached {s : Instance} (h : Reached m s) : s.Orderly := by
  obtain ⟨s₀, hfresh, hsteps⟩ := h
  refine Steps.orderly hsteps fun _ => ?_
  obtain ⟨_, _, _, _, rfl⟩ := eq_of_fresh hfresh
  exact ⟨rfl, rfl⟩

/-- A run that begins with the start is a succession of steps from the first leaf. -/
theorem steps_of_start (os : List Operation) {s : Instance} (hs : IsFresh m s) :
    Steps m ((enterFirst m).exec { s with started := true }).2 (after m (.start :: os) s) := by
  have hstart : s.started = false := by
    obtain ⟨_, _, _, _, rfl⟩ := eq_of_fresh hs
    rfl
  have hfirst := steps_start (m := m) hstart
  have hstarted := started_of_start (m := m) s
  exact hfirst.trans (steps_after os fun h => absurd (h.symm.trans hstarted) (by decide))

theorem reached_after (os : List Operation) {s : Instance} (hs : IsFresh m s) :
    Reached m (after m os s) := by
  refine ⟨s, hs, steps_after os fun _ => ?_⟩
  obtain ⟨_, _, _, _, rfl⟩ := eq_of_fresh hs
  exact ⟨rfl, rfl⟩

end Instance

end Statechart
