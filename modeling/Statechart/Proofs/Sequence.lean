/-
# One event after the other

There is no flag that says that an event is being processed.  The requests of a listener are handled in
one way while the queue is worked off, when they only join it, and in another way otherwise, when they
are worked off at once.  That no event begins before the one before it is through, and that none is
left behind, is a property of all operations together.

* `Instance.Advances`, `Instance.Settles`: what operations go through keeps the history of the queue in
  sequence, and leaves nothing in the queue;
* **`Instance.drains_drainFor`**: the events in the queue are worked off one after the other;
* **`Instance.spans_settles`**, `Instance.settles_start`, `Instance.settles_send`: so every operation
  settles;
* **`Definition.sequenced_of_run`**: all this for all runs in which nothing raises while an event is
  processed;
* `Definition.waiting_after_schedule`: work that cannot be started raises as well, and leaves events in
  the queue.
-/
import Statechart.Proofs.History

namespace Statechart

namespace Instance

variable {m : Machine} {late : Queued → Prop} {s s' s₁ : Instance} {journal notes : List Happening}

open Run

/-! ## 1. What operations go through -/

/-- Steps that keep the sequence, unless an event has been disturbed. -/
structure Advances (m : Machine) (late : Queued → Prop) (s s' : Instance) : Prop where
  steps : Steps m s s'
  sequenced : Undisturbed s'.journal → Sequenced late s → Sequenced late s'

/-- They leave nothing in the queue, unless the budget is used up. -/
structure Settles (m : Machine) (late : Queued → Prop) (s s' : Instance) : Prop
    extends Advances m late s s' where
  emptied : Undisturbed s'.journal → s.queue = [] →
    (taken s'.journal).length < (taken s.journal).length + m.budget → s'.queue = []

theorem Advances.trans (h : Advances m late s s₁) (h' : Advances m late s₁ s') :
    Advances m late s s' :=
  ⟨h.steps.trans h'.steps, fun hund hs =>
    h'.sequenced hund (h.sequenced (hund.of_grown h'.steps.grown) hs)⟩

instance : IsPreorder Instance (Advances m late) where
  refl _ := ⟨.refl, fun _ h => h⟩
  trans _ _ _ := Advances.trans

instance : IsPreorder Instance (Settles m late) where
  refl _ := ⟨⟨.refl, fun _ h => h⟩, fun _ h _ => h⟩
  trans s s₁ s₂ h h' := by
    refine ⟨h.toAdvances.trans h'.toAdvances, fun hund hqueue hless => ?_⟩
    have hgrown := length_taken_le h.steps.grown
    have hgrown' := length_taken_le h'.steps.grown
    exact h'.emptied hund (h.emptied (hund.of_grown h'.steps.grown) hqueue (by omega)) (by omega)

/-- An instance in the course of some run, after the start. -/
def Running (m : Machine) (s : Instance) : Prop := Reached m s ∧ s.started = true

theorem Running.steps (hs : Running m s) (h : Steps m s s') : Running m s' :=
  ⟨hs.1.steps h, h.started hs.2⟩

instance : IsPreorder Instance (Given (Reached m) (Settles m late)) :=
  isPreorder_given fun _ _ hs h => hs.steps h.steps

instance : IsPreorder Instance (Given (Running m) (Settles m late)) :=
  isPreorder_given fun _ _ hs h => hs.steps h.steps

instance : IsPreorder Instance (Given (Running m) (Advances m late)) :=
  isPreorder_given fun _ _ hs h => hs.steps h.steps

/-- A step that is not about events. -/
theorem Step.settles (h : Step m s s') (hapart : Apart Happening.IsOuter s s') :
    Settles m late s s' :=
  ⟨⟨.single h, fun _ hs => hs.of_outer hapart⟩, fun _ hqueue _ => hapart.queue.trans hqueue⟩

theorem Beside.settles (h : Beside m s s') : Settles m late s s' := by
  refine Step.settles (.aside h.aside) ?_
  cases h with
  | quiet => exact .of_same rfl rfl rfl rfl rfl rfl
  | told | missed =>
    exact ⟨rfl, rfl, rfl, rfl, Or.inl rfl, [_], rfl, fun x hx => (List.mem_singleton.mp hx) ▸ trivial⟩

/-! ## 2. Requests of listeners -/

/-- An event joins the queue. -/
theorem advances_enqueue (hs : Running m s) {e : Event} (h : s.status = .active ∨ late ⟨e, none⟩) :
    Advances m late s (enqueue ⟨e, none⟩ s) :=
  ⟨.single (.accepted e hs.2), fun _ hseq =>
    hseq.accepted (h.imp_left fun hactive => (recorded_of_reached hs.1).running hactive)⟩

theorem advances_accept (event : Value) :
    Moves (Given (Running m) (Advances m late)) (accept m event) := by
  intro s hs
  rcases accept_cases (m := m) event s with ⟨f, -, h⟩ | ⟨e, hactive, h⟩
  · rw [h]
    exact refl_of (Advances m late) s
  · rw [h]
    exact advances_enqueue hs (Or.inl hactive)

instance : IsPreorder Instance
    (Given (fun s => s.status ≠ .active) (Relation.ReflTransGen (Beside m))) :=
  isPreorder_given fun s s' hs h => by
    induction h with
    | refl => exact hs
    | tail _ h ih => cases h <;> exact ih

/-- After the end listeners are told what there is to tell, and ask for nothing. -/
theorem beside_tell (shown : Snapshot) (hs : s.status ≠ .active) :
    Relation.ReflTransGen (Beside m) s ((tell (refuse m) shown).exec s).2 := by
  have hrefuse : ∀ q, Moves (Given (fun s => s.status ≠ .active) (Relation.ReflTransGen (Beside m)))
      (refuse m q) := by
    intro q
    cases q with
    | send event =>
      intro s hs
      rw [refuse, accept_of_ended event hs]
    | stop => exact Moves.pure ()
  exact moves_tell (fun _ _ h _ _ => .single h) hrefuse shown s hs

theorem settles_besides (h : Relation.ReflTransGen (Beside m) s s') : Settles m late s s' := by
  induction h with
  | refl => exact refl_of (Settles m late) s
  | tail _ h ih => exact trans_of (Settles m late) ih h.settles

/-- The snapshot of a stop is published, and nothing else comes of it. -/
theorem settles_publish_refuse (hstopped : s.status = .stopped) :
    Settles m late s ((publish m (refuse m)).exec s).2 := by
  cases hnode : m.graph.state s.state with
  | error f =>
    rw [publish_of_missing hnode]
    exact Beside.settles (.missed hnode)
  | ok node =>
    have hpublished : Settles m late s { s with published := s.published ++ [s.shownIn node] } :=
      ⟨⟨.single (.aside (.quiet s s.lastEvent s.listeners s.turns s.watch _ s.heard s.failures
        s.world)), fun _ hs => hs.published hstopped⟩, fun _ hqueue _ => hqueue⟩
    rw [exec_publish hnode]
    exact trans_of (Settles m late) hpublished (settles_besides (beside_tell _ (by simp [hstopped])))

/-- **Stopping** clears the queue, and a snapshot is published. -/
theorem settles_stop : Moves (Settles m late) (stop m) := by
  intro s
  by_cases hactive : s.status = .active
  · have hstop : (stop m).exec s = (publish m (refuse m)).exec
        ({ s.closeAll with status := .stopped, queue := [] }.note (.ended .stopped)) := by
      rw [stop, exec_get_bind, if_pos hactive]
      rfl
    have hapart : Apart Happening.IsOuter s
        ({ s.closeAll with status := .stopped }.note (.ended .stopped)) := by
      obtain ⟨_, _, _, _, hclose, -⟩ := closeAll_frame s
      rw [hclose]
      exact ⟨rfl, rfl, rfl, rfl, Or.inr (by simp [note]), [_], rfl,
        fun x hx => (List.mem_singleton.mp hx) ▸ trivial⟩
    have hended : Settles m late s
        ({ s.closeAll with status := .stopped, queue := [] }.note (.ended .stopped)) :=
      ⟨⟨.single (.stopped hactive), fun _ hs => (hs.of_outer hapart).cleared (by simp [note])⟩,
        fun _ _ _ => rfl⟩
    rw [hstop]
    exact trans_of (Settles m late) hended (settles_publish_refuse rfl)
  · rw [stop_of_ended hactive]
    exact refl_of (Settles m late) s

theorem advances_respondLater (q : Request) :
    Moves (Given (Running m) (Advances m late)) (respondLater m q) := by
  cases q with
  | send event => exact advances_accept event
  | stop => exact settles_stop.mono fun _ _ h _ => h.toAdvances

/-! ## 3. Telling snapshots -/

theorem lasts_accept (event : Value) : Lasts (accept m event) := by
  intro s
  rcases accept_cases (m := m) event s with ⟨f, hf, h⟩ | ⟨e, -, h⟩
  · exact Comes.of_error h hf
  · exact Comes.of_ok h trivial

/-- **A listener that is told a snapshot** makes nobody else fail. -/
theorem sure_notify {respond : Request → Run Unit} (h : ∀ q, Lasts (respond q)) (shown : Snapshot)
    (l : Listener) : Sure (notify respond shown l) := by
  intro s
  refine Comes.modify_bind ?_
  have hrequests : ∀ s, ((l.respond shown).requests.forM respond).Comes s (fun _ _ => True)
      fun f _ => f ≠ .exhausted := fun s =>
    Comes.forM (I := fun _ _ => True) (fun _ q _ s _ _ => h q s) trivial
  refine Comes.bind (Comes.outcome (hrequests _) (fun h => h rfl)) fun r s' _ => ?_
  have hlog : ∀ failed s', (if failed = true then
      perform (Act.say .error .runtime
        ("Listener " ++ l.name ++ " failed on snapshot for '" ++ shown.state ++ "'"))
      else Pure.pure () : Run Unit).Comes s' (fun _ _ => True) fun _ _ => False := by
    intro failed s'
    cases failed <;> trivial
  cases r <;> exact Comes.bind (Comes.pure (Q := fun _ _ => True) trivial) fun _ _ _ => hlog _ _

theorem sure_tell {respond : Request → Run Unit} (h : ∀ q, Lasts (respond q)) (shown : Snapshot) :
    Sure (tell respond shown) := fun _ =>
  Comes.get_bind <| Comes.bind (Comes.forM (I := fun _ _ => True)
    (fun _ l _ s _ _ => sure_notify h shown l s) trivial) fun _ s' _ =>
      Comes.of_ok (exec_modify _ s') trivial

theorem lasts_stop : Lasts (stop m) := by
  intro s
  refine Comes.get_bind ?_
  split
  · refine Comes.modify_bind ?_
    generalize { s.closeAll with status := .stopped, queue := [] }.note (.ended .stopped) = t
    cases hnode : m.graph.state t.state with
    | error f =>
      refine Comes.of_error (publish_of_missing hnode _) ?_
      rintro rfl
      unfold Graph.state at hnode
      split at hnode <;> cases hnode
    | ok node =>
      refine Comes.of_exec (exec_publish hnode _) ((sure_tell (fun q => ?_) _ _).mono
        (fun _ _ h => h) fun _ _ h => h.elim)
      cases q with
      | send event => exact lasts_accept event
      | stop => exact fun _ => trivial
  · trivial

theorem lasts_respondLater (q : Request) : Lasts (respondLater m q) := by
  cases q with
  | send event => exact lasts_accept event
  | stop => exact lasts_stop

/-! ## 4. The queue -/

/-- An event is dropped for a scope that has been left. -/
theorem exists_left_of_closed (wf : m.graph.WellFormed) (hs : Reached m s) {q : Queued}
    (hq : q ∈ s.queue) (hactive : s.status = .active) (hclosed : q.scope.all s.isLive ≠ true) :
    ∃ n id, q.scope = some n ∧ .left id (some n) ∈ s.journal := by
  cases hscope : q.scope with
  | none => simp [hscope] at hclosed
  | some n =>
    obtain ⟨id, -, hentered, -⟩ := (accounted_of_reached wf hs).exists_started hq hscope
    rcases tracked_of_reached hs _ hentered with hlive | ⟨id', hleft⟩ | ⟨status, hended⟩
    · simp [hscope, isLive, hlive] at hclosed
    · exact ⟨n, id', rfl, hleft⟩
    · exact absurd hended ((recorded_of_reached hs).running hactive status)

/-- An event that is processed has not been disturbed if nothing has raised since its begin. -/
theorem not_undisturbed {q : Queued} (hnotes : ∀ x ∈ notes, x.IsOther)
    (hjournal : s₁.journal = journal ++ [.begun q] ++ notes)
    {f : Fault} (h : s₁.Broken f ∨ f ≠ .exhausted ∧ q.event.IsUnshown) :
    ¬ Undisturbed s₁.journal := by
  intro hund
  rcases h with ⟨before, o, hbroken⟩ | ⟨-, hunshown⟩
  · have hbusy : inProgress before = some q := by
      rw [hbroken] at hjournal
      rcases List.eq_nil_or_concat notes with rfl | ⟨init, x, rfl⟩
      · rw [List.append_nil] at hjournal
        cases (List.append_inj' hjournal rfl).2
      · rw [List.concat_eq_append, ← List.append_assoc] at hjournal
        obtain ⟨rfl, -⟩ := List.append_inj' hjournal rfl
        rw [inProgress_append fun y hy => hnotes y (by simp [hy]), inProgress_concat]
        rfl
    exact Option.some_ne_none q (hbusy.symm.trans (hund.calm before o f [] hbroken))
  · exact hund.shown q (by simp [hjournal]) hunshown

theorem started_of_queued (hs : Reached m s) {q : Queued} (hq : q ∈ s.queue) : s.started = true := by
  by_contra hnot
  rw [(orderly_of_reached hs (by simpa using hnot)).1] at hq
  cases hq

/-- **One event**: it is processed and a snapshot is published, or it has been disturbed. -/
theorem comes_event (late : Queued → Prop) (wf : m.graph.WellFormed) (hs : Reached m s)
    {q : Queued} {rest : List Queued} (hqueue : s.queue = q :: rest) (hactive : s.status = .active)
    (hlive : q.scope.all s.isLive = true) :
    (process m q.event).Comes ({ s with queue := rest }.note (.begun q))
      (fun _ s₁ => ∃ node, m.graph.state s₁.state = .ok node ∧
        Advances m late s { s₁.note (.processed q) with
          published := s₁.published ++ [s₁.shownIn node] } ∧
        taken (s₁.note (.processed q)).journal = taken s.journal ++ [q])
      fun f s₁ => Steps m s s₁ ∧ ¬ Undisturbed s₁.journal ∧
        (f = .exhausted → ∃ o, .raised o .exhausted ∈ s₁.journal) := by
  have hknown := known_of_reached wf hs
  have hrecorded := recorded_of_reached hs
  have hstarted := started_of_queued hs (hqueue ▸ List.mem_cons_self)
  have hopen : ∀ n id, q.scope = some n → .left id (some n) ∉ s.journal := by
    intro n id hscope
    exact hrecorded.live n (by simpa [hscope, isLive] using hlive) id
  have hbefore : Known m.graph ({ s with queue := rest }.note (.begun q)) :=
    ⟨hknown.leaf, hknown.active⟩
  have hcomes := (comes_process_recorded wf q.event hbefore).and <| Comes.of_after
    (P := fun s₁ => Course m.graph { s with
      queue := rest, lastEvent := some q.event.type, journal := s.journal ++ [.begun q] } s₁ ∧
        Steps m s s₁)
    ⟨course_process wf q.event hbefore.leaf,
      (Relation.ReflTransGen.single (Step.begun hqueue hactive hlive)).tail
        (.processed q.event hstarted hactive)⟩
  refine hcomes.mono ?_ ?_
  · rintro - s₁ ⟨-, hcourse, hbegun⟩
    have hknown₁ : Known m.graph s₁ := hcourse.known wf ⟨hknown.leaf, hknown.active⟩
    obtain ⟨node, -, -, hnode⟩ := wf.exists_state hknown₁.leaf
    obtain ⟨notes, hjournal, hnotes⟩ := hcourse.apart.noted
    have hpublished : Steps m s { s₁.note (.processed q) with
        published := s₁.published ++ [s₁.shownIn node] } :=
      (hbegun.tail (.through q s₁)).tail (.aside (.quiet (s₁.note (.processed q)) s₁.lastEvent
        s₁.listeners s₁.turns s₁.watch _ s₁.heard s₁.failures s₁.world))
    refine ⟨node, hnode, ⟨hpublished, fun _ hseq =>
      hseq.processed hrecorded hstarted hqueue hactive hopen hcourse node⟩, ?_⟩
    have hnoted : (s₁.note (.processed q)).journal =
        s.journal ++ [.begun q] ++ notes ++ [.processed q] :=
      congrArg (· ++ [Happening.processed q]) hjournal
    rw [hnoted, taken_concat, taken_append fun x hx => (hnotes x hx).isOther, taken_concat]
    simp [Happening.taken?]
  · rintro f s₁ ⟨hbroken, hcourse, hbegun⟩
    obtain ⟨notes, hjournal, hnotes⟩ := hcourse.apart.noted
    refine ⟨hbegun, not_undisturbed (fun x hx => (hnotes x hx).isOther) hjournal hbroken, ?_⟩
    rintro rfl
    obtain ⟨before, o, hlast⟩ := hbroken.resolve_right fun h => h.1 rfl
    exact ⟨o, by simp [hlast]⟩

/-- While the queue is worked off, listeners are told a snapshot, and what they send has to wait. -/
theorem comes_publish_later (late : Queued → Prop) {node : StateNode}
    (hnode : m.graph.state s.state = .ok node)
    (hs : Running m { s with published := s.published ++ [s.shownIn node] }) :
    (publish m (respondLater m)).Comes s
      (fun _ s' => Advances m late { s with published := s.published ++ [s.shownIn node] } s')
      fun _ _ => False := by
  have hsure := sure_tell (lasts_respondLater (m := m)) (s.shownIn node)
    { s with published := s.published ++ [s.shownIn node] }
  have htold := moves_tell (R := Given (Running m) (Advances m late))
    (fun _ _ h _ _ => h.settles.toAdvances) advances_respondLater (s.shownIn node) _ hs
  exact Comes.of_exec (exec_publish hnode _)
    ((hsure.and (Comes.of_after htold)).mono (fun _ _ h => h.2) fun _ _ h => h.1)

/-- What comes of working off the queue: nothing is left of it, unless so many events have had their
turn that the budget is used up. -/
structure Drains (m : Machine) (late : Queued → Prop) (fuel : Nat) (s s' : Instance) : Prop
    extends Advances m late s s' where
  emptied : Undisturbed s'.journal →
    (taken s'.journal).length < (taken s.journal).length + fuel → s'.queue = []

theorem Drains.of_disturbed {fuel : Nat} (h : Steps m s s') (hdisturbed : ¬ Undisturbed s'.journal) :
    Drains m late fuel s s' :=
  ⟨⟨h, fun hund => absurd hund hdisturbed⟩, fun hund => absurd hund hdisturbed⟩

/-- Other steps come first, in which some events have their turn. -/
theorem Drains.of_advances {fuel more : Nat} (h : Advances m late s s₁)
    (hmore : (taken s.journal).length + more ≤ (taken s₁.journal).length)
    (h' : Drains m late fuel s₁ s') : Drains m late (fuel + more) s s' :=
  ⟨h.trans h'.toAdvances, fun hund hless => h'.emptied hund (by omega)⟩

/-- **Working off the queue** takes the events one after the other, until none is left. -/
theorem drains_drainFor (wf : m.graph.WellFormed) (fuel : Nat) (hs : Reached m s) :
    Drains m late fuel s ((drainFor m fuel).exec s).2 := by
  induction fuel generalizing s with
  | zero => exact ⟨refl_of (Advances m late) s, fun _ hless => absurd hless (Nat.lt_irrefl _)⟩
  | succ fuel ih =>
    by_cases hactive : s.status = .active
    · cases hqueue : s.queue with
      | nil =>
        rw [exec_drainFor_nil fuel (Or.inl hqueue), ← hqueue]
        exact ⟨refl_of (Advances m late) s, fun _ _ => hqueue⟩
      | cons q rest =>
        have hq : q ∈ s.queue := hqueue ▸ List.mem_cons_self
        by_cases hlive : q.scope.all s.isLive = true
        · refine (Comes.of_exec (exec_drainFor_live fuel hqueue hactive hlive) ?_).after
          refine Comes.bind ((comes_event late wf hs hqueue hactive hlive).mono (fun _ _ h => h)
            fun _ _ h => Drains.of_disturbed h.1 h.2.1) ?_
          rintro - s₁ ⟨node, hnode, hadvances, htaken⟩
          have hpublished : Running m { s₁.note (.processed q) with
              published := s₁.published ++ [s₁.shownIn node] } :=
            ⟨hs.steps hadvances.steps, hadvances.steps.started (started_of_queued hs hq)⟩
          refine Comes.modify_bind (Comes.bind ((comes_publish_later late
            (s := s₁.note (.processed q)) hnode hpublished).mono (fun _ _ h => h)
              fun _ _ h => h.elim) fun _ s₂ htold => Comes.of_after ?_)
          refine Drains.of_advances (hadvances.trans htold) ?_
            (ih (hs.steps (hadvances.trans htold).steps))
          have hgrown := length_taken_le htold.steps.grown
          have hlength := congrArg List.length htaken
          rw [List.length_append, List.length_singleton] at hlength
          exact Nat.le_trans (Nat.le_of_eq hlength.symm) hgrown
        · have hdropped : Advances m late s ({ s with queue := rest }.note (.dropped q)) :=
            ⟨.single (.dropped hqueue hactive), fun _ hseq => hseq.dropped (recorded_of_reached hs)
              hqueue hactive (exists_left_of_closed wf hs hq hactive hlive)⟩
          rw [exec_drainFor_closed fuel hqueue hactive hlive]
          refine Drains.of_advances hdropped ?_ (ih (hs.steps hdropped.steps))
          simp [note, taken_concat, Happening.taken?]
    · rw [exec_drainFor_nil fuel (Or.inr hactive)]
      exact ⟨⟨.single (.cleared hactive), fun _ hseq => hseq.cleared hactive⟩, fun _ _ => rfl⟩

/-- Events that have just joined the queue are worked off. -/
theorem settles_drain (wf : m.graph.WellFormed) (hs : Reached m s) (h : Advances m late s s₁)
    (htaken : taken s₁.journal = taken s.journal) : Settles m late s ((drain m).exec s₁).2 := by
  have hdrains : Drains m late m.budget s₁ ((drain m).exec s₁).2 :=
    drains_drainFor wf m.budget (hs.steps h.steps)
  exact ⟨h.trans hdrains.toAdvances, fun hund _ hless => hdrains.emptied hund (htaken ▸ hless)⟩

theorem taken_enqueue (q : Queued) (s : Instance) :
    taken (enqueue q s).journal = taken s.journal := by
  have hjournal : (enqueue q s).journal = s.journal ++ [.accepted q] := rfl
  rw [hjournal, taken_concat]
  exact List.append_nil _

theorem settles_respondNow (wf : m.graph.WellFormed) (q : Request) :
    Moves (Given (Running m) (Settles m late)) (respondNow m q) := by
  cases q with
  | stop => exact settles_stop.mono fun _ _ h _ => h
  | send event =>
    intro s hs
    rw [respondNow]
    rcases accept_cases (m := m) event s with ⟨f, -, h⟩ | ⟨e, hactive, h⟩
    · rw [exec_bind_error h]
      exact refl_of (Settles m late) s
    · rw [exec_bind_ok h]
      exact settles_drain wf hs.1 (advances_enqueue hs (Or.inl hactive)) (taken_enqueue _ s)

/-! ## 5. Operations -/

/-- The event of a timer or a call is received and worked off, unless its scope is closed. -/
theorem settles_deliver (wf : m.graph.WellFormed) (hs : Reached m s) {t : Instance} {scope : Nat}
    {e : Event} (hstep : Step m s (t.received scope e)) (hapart : Apart Happening.IsOuter s t)
    (hjournal : t.journal = s.journal) (hstatus : t.status = s.status) :
    Settles m late s ((deliver m scope e).exec t).2 := by
  unfold received at hstep
  rw [deliver, exec_get_bind]
  split at hstep
  · rename_i hlive
    rw [if_pos hlive, exec_bind_ok (exec_modify _ t)]
    simp only [Bool.and_eq_true, decide_eq_true_eq] at hlive
    have hrunning : ∀ status, .ended status ∉ t.journal :=
      hjournal ▸ (recorded_of_reached hs).running (hstatus ▸ hlive.2)
    refine settles_drain wf hs ⟨.single hstep, fun _ hseq => ?_⟩ ?_
    · exact (hseq.of_outer hapart).accepted (Or.inl hrunning)
    · rw [taken_enqueue, hjournal]
  · rename_i hclosed
    rw [if_neg hclosed]
    exact hstep.settles hapart

/-- **Whatever operations go through keeps the sequence** and leaves nothing in the queue. -/
theorem spans_settles (wf : m.graph.WellFormed) : Spans m (Given (Reached m) (Settles m late)) where
  unheard h _ := h.beside.settles
  waited alarms h _ := (Step.waited alarms h).settles (.of_same rfl rfl rfl rfl rfl rfl)
  resumed state hc _ := (Step.resumed state hc).settles (.of_same rfl rfl rfl rfl rfl rfl)
  looked e s _ := by
    refine (Step.looked e s).settles ?_
    obtain ⟨world, notes, h, hnotes⟩ := select_frame m e s
    rw [h]
    refine ⟨rfl, rfl, rfl, rfl, Or.inl rfl, notes, rfl, fun x hx => ?_⟩
    rcases hnotes x hx with ⟨f, rfl⟩ | ⟨f, rfl⟩ <;> trivial
  vanished hc _ := (Step.vanished hc).settles (.of_same rfl rfl rfl rfl rfl rfl)
  fired ha hkind hs := settles_deliver wf hs (.fired ha hkind) (.of_same rfl rfl rfl rfl rfl rfl)
    rfl rfl
  reported hc he hs := settles_deliver wf hs (.reported hc he) (.of_same rfl rfl rfl rfl rfl rfl)
    rfl rfl
  stopped s _ := settles_stop s

/-- The first leaf is entered and a snapshot is published, unless something raises. -/
theorem comes_first (late : Queued → Prop) (wf : m.graph.WellFormed) (hs : s.started = false) :
    (enterFirst m).Comes { s with started := true }
      (fun _ s₁ => ∃ node, m.graph.state s₁.state = .ok node ∧
        Settles m late s { s₁ with published := s₁.published ++ [s₁.shownIn node] } ∧
        s₁.started = true)
      fun _ s₁ => Settles m late s s₁ := by
  obtain ⟨node, hnode, -, -, hcomes⟩ := comes_enterFirst wf { s with started := true }
  have hopened : Steps m s ((enterFirst m).exec { s with started := true }).2 :=
    .single (.opened hs)
  refine (hcomes.and (Comes.of_after hopened)).mono ?_ ?_
  · rintro - _ ⟨⟨s₁, hs₁, -, rfl⟩, hopened⟩
    have hapart := hs₁.apart_settleAt node
    refine ⟨node, ?_, ⟨⟨?_, fun _ hseq => hseq.opened hs hapart node⟩, fun _ hqueue _ =>
      hapart.queue.trans hqueue⟩, hapart.started⟩
    · obtain ⟨_, _, _, _, _, _, _, hframe, -⟩ := settleAt_frame node s₁
      rw [hframe]
      exact wf.state_of_mem hnode
    · exact hopened.tail (.aside (.quiet (settleAt node s₁) _ _ _ _ _ _ _ _))
  · rintro f s₁ ⟨hs₁, hopened⟩
    refine ⟨⟨hopened, fun _ hseq => ?_⟩, fun _ hqueue _ => hs₁.queue.trans hqueue⟩
    exact hseq.onceStarted.of_inner (hseq.fresh hs).1 hs₁.apart

/-- **The start** works off what listeners send when they are told of it. -/
theorem settles_start (wf : m.graph.WellFormed) :
    Moves (Given (Reached m) (Settles m late)) (start m) := by
  intro s hs
  cases hstarted : s.started with
  | true =>
    rw [start_of_started m hstarted]
    exact refl_of (Settles m late) s
  | false =>
    rw [start_of_unstarted hstarted]
    refine (Comes.bind (comes_first late wf hstarted) ?_).after
    rintro - s₁ ⟨node, hnode, hopened, hstarted₁⟩
    have hrest : Moves (Given (Running m) (Settles m late))
        (do tell (respondNow m) (s₁.shownIn node); drain m : Run Unit) :=
      Moves.bind (moves_tell (fun _ _ h _ _ => h.settles) (settles_respondNow wf) _) fun _ s hs =>
        settles_drain wf hs.1 (refl_of (Advances m late) s) rfl
    refine Comes.of_after ?_
    rw [exec_bind, exec_publish hnode, ← exec_bind]
    exact trans_of (Settles m late) hopened (hrest _ ⟨hs.steps hopened.steps, hstarted₁⟩)

/-- **A request to send** works off what has joined the queue.  The event joins it even if the
instance had to be started for it, and has ended with that. -/
theorem settles_send (wf : m.graph.WellFormed) (hs : Reached m s) {event : Value}
    (hlate : s.started = false → ∀ e, Event.ofValue event = .ok e → late ⟨e, none⟩) :
    Settles m late s ((send m event).exec s).2 := by
  cases he : Event.ofValue event with
  | error f =>
    rw [send_of_malformed he]
    exact refl_of (Settles m late) s
  | ok e =>
    by_cases hactive : s.status = .active
    · cases hstarted : s.started with
      | true =>
        rw [send_of_started hactive hstarted he]
        exact settles_drain wf hs (advances_enqueue ⟨hs, hstarted⟩ (Or.inl hactive))
          (taken_enqueue _ s)
      | false =>
        have hstart : Settles m late s ((start m).exec s).2 := settles_start wf s hs
        have hstarted₁ := started_of_start (m := m) s
        rw [send_of_unstarted hactive hstarted he]
        refine (Comes.bind ((Comes.of_after (P := fun s₁ => Settles m late s s₁ ∧ s₁.started = true)
          ⟨hstart, hstarted₁⟩).mono (fun _ _ h => h) fun _ _ h => h.1) ?_).after
        rintro - s₁ ⟨hstart, hstarted₁⟩
        have hs₁ : Running m s₁ := ⟨hs.steps hstart.steps, hstarted₁⟩
        refine Comes.modify_bind (Comes.of_after ?_)
        exact trans_of (Settles m late) hstart (settles_drain wf hs₁.1
          (advances_enqueue hs₁ (Or.inr (hlate hstarted e he))) (taken_enqueue _ s₁))
    · rw [send_of_ended hactive he]
      exact refl_of (Settles m late) s

theorem settles_afterOne (wf : m.graph.WellFormed) (hs : Reached m s) (o : Operation)
    (hlate : ∀ event, o = .send event → s.started = false →
      ∀ e, Event.ofValue event = .ok e → late ⟨e, none⟩) :
    Settles m late s (afterOne m s o) := by
  by_cases hsend : ∃ event, o = .send event
  · obtain ⟨event, rfl⟩ := hsend
    exact settles_send wf hs (hlate event rfl)
  · exact (spans_settles wf).run o (fun _ => settles_start wf)
      (fun event ho => absurd ⟨event, ho⟩ hsend) (fun _ _ s _ => (beside_listeners _ s).settles)
      (fun _ _ s _ => (beside_listeners _ s).settles) s hs

/-! ## 6. Runs -/

theorem sequenced_of_fresh (h : IsFresh m s) : Sequenced late s := by
  obtain ⟨_, _, _, _, rfl⟩ := eq_of_fresh h
  exact ⟨fun before x rest hcut => by simp at hcut, rfl, rfl, ⟨[], rfl, fun _ => rfl⟩,
    ⟨[], List.nil_prefix, rfl, fun _ => rfl⟩, fun _ => ⟨rfl, rfl⟩⟩

theorem grown_after {s₀ : Instance} (hs : IsFresh m s₀) (os more : List Operation) :
    (after m os s₀).journal <+: (after m (os ++ more) s₀).journal := by
  rw [after_append]
  exact Steps.grown (steps_after more (orderly_of_reached (reached_after os hs)))

/-- No operation of a run takes as many events as the budget allows, so none is broken off for want of
it. -/
def WithinBudget (m : Machine) (os : List Operation) (s₀ : Instance) : Prop :=
  ∀ pre o post, os = pre ++ o :: post →
    (taken (after m (pre ++ [o]) s₀).journal).length <
      (taken (after m pre s₀).journal).length + m.budget

/-- A short run is within the budget. -/
theorem withinBudget_of_length {s₀ : Instance} (hs : IsFresh m s₀) {os : List Operation}
    (h : (taken (after m os s₀).journal).length < m.budget) : WithinBudget m os s₀ := by
  rintro pre o post rfl
  have hgrown := length_taken_le (grown_after hs (pre ++ [o]) post)
  rw [List.append_assoc, List.singleton_append] at hgrown
  omega

/-- The event of a request to send for which the instance has to be started. -/
def Opens (m : Machine) (os : List Operation) (s₀ : Instance) (q : Queued) : Prop :=
  ∃ pre event post, os = pre ++ .send event :: post ∧ (after m pre s₀).started = false ∧
    Event.ofValue event = .ok q.event ∧ q.scope = none

/-- **Every run in which no event is disturbed is in sequence**, and leaves nothing in the queue. -/
theorem sequenced_after (wf : m.graph.WellFormed) {s₀ : Instance} (hs : IsFresh m s₀)
    {os : List Operation} (hlate : ∀ q, Opens m os s₀ q → late q)
    (hund : Undisturbed (after m os s₀).journal) :
    Sequenced late (after m os s₀) ∧ (WithinBudget m os s₀ → (after m os s₀).queue = []) := by
  induction os using List.reverseRecOn with
  | nil =>
    refine ⟨sequenced_of_fresh hs, fun _ => ?_⟩
    obtain ⟨_, _, _, _, rfl⟩ := eq_of_fresh hs
    rfl
  | append_singleton os o ih =>
    have hgrown := grown_after hs os [o]
    obtain ⟨hseq, hqueue⟩ := ih
      (fun q ⟨pre, event, post, hcut, h⟩ => hlate q ⟨pre, event, post ++ [o], by simp [hcut], h⟩)
      (hund.of_grown hgrown)
    have hsettles : Settles m late (after m os s₀) (after m [o] (after m os s₀)) := by
      refine settles_afterOne wf (reached_after os hs) o fun event ho hstarted e he => ?_
      exact hlate _ ⟨os, event, [], by rw [ho], hstarted, he, rfl⟩
    have hless : WithinBudget m (os ++ [o]) s₀ → _ := fun hbudget => hbudget os o [] rfl
    rw [after_append] at hund hless ⊢
    refine ⟨hsettles.sequenced hund hseq, fun hbudget => ?_⟩
    exact hsettles.emptied hund (hqueue fun pre x post hcut => hbudget pre x (post ++ [o])
      (by simp [hcut])) (hless hbudget)

end Instance

namespace Definition

open Instance

variable {registry : Registry} {config : Config} {source : FlowSource} {c : Compiled} {m : Machine}

/-! ## 7. Runs of definitions -/

/-- **Events are processed one after the other, in the order of acceptance**, each of them once and with
one snapshot, and nothing is left in the queue when an operation is through: for every definition that
compiles, whoever listens and whatever they send, if nothing raises while an event is processed.
Dropped are events of scopes that have been closed before their turn, and nothing is lost but what is
in the queue at the end. -/
theorem sequenced_of_run (h : compileSource registry config source = .ok c) (hm : m.graph = c.graph)
    {s₀ : Instance} (hs : IsFresh m s₀) (os : List Operation)
    (hund : Undisturbed (after m os s₀).journal) :
    Sequenced (Opens m os s₀) (after m os s₀) ∧
      (WithinBudget m os s₀ → (after m os s₀).queue = []) :=
  sequenced_after (hm ▸ wellFormed_graph h) hs (fun _ h => h) hund

/-- A listener that sends two events when it is told of a third one. -/
def answering (event first second : String) : Listener :=
  { id := 1, name := "listener"
    respond := fun shown =>
      if shown.event = some event then { requests := [.send (.text first), .send (.text second)] }
      else {} }

/-- Where nothing raises, no event is disturbed. -/
theorem undisturbed_of_silent {journal : List Happening}
    (h : (journal.all fun x => x.origin?.isNone && x.begun?.all fun q =>
      (q.event.value.getD "data").shown.toOption.isSome) = true) : Undisturbed journal := by
  rw [List.all_eq_true] at h
  refine ⟨fun before o f rest hcut => ?_, fun q hq ⟨_, f, hf⟩ => ?_⟩
  · have hx := h (.raised o f) (by simp [hcut])
    simp [Happening.origin?] at hx
  · have hx := h (.begun q) hq
    simp [Happening.origin?, Happening.begun?, hf, Except.toOption] at hx

/-- Two events are sent while a third one is told of; the first of them is the end, and the second is
lost. -/
theorem sequenced_of_run_answered : ∃ c m s₀,
    compileSource (.bare {}) {} (.ofValue nestedFlow) = .ok c ∧ m.graph = c.graph ∧ IsFresh m s₀ ∧
      Undisturbed (after m [.subscribe (answering "GO" "OUT" "LATE"), .start, .send (.text "GO")]
        s₀).journal ∧
      WithinBudget m [.subscribe (answering "GO" "OUT" "LATE"), .start, .send (.text "GO")] s₀ ∧
      (accepted (after m [.subscribe (answering "GO" "OUT" "LATE"), .start, .send (.text "GO")]
        s₀).journal).map (·.event.type) = ["GO", "OUT", "LATE"] ∧
      (processed (after m [.subscribe (answering "GO" "OUT" "LATE"), .start, .send (.text "GO")]
        s₀).journal).map (·.event.type) = ["GO", "OUT"] ∧
      (Sequenced
          (Opens m [.subscribe (answering "GO" "OUT" "LATE"), .start, .send (.text "GO")] s₀)
          (after m [.subscribe (answering "GO" "OUT" "LATE"), .start, .send (.text "GO")] s₀) ∧
        (WithinBudget m [.subscribe (answering "GO" "OUT" "LATE"), .start, .send (.text "GO")] s₀ →
          (after m [.subscribe (answering "GO" "OUT" "LATE"), .start, .send (.text "GO")]
            s₀).queue = [])) := by
  obtain ⟨c, m, s₀, hc, hm, hs, hrun⟩ := exists_played (.bare {}) {} (.ofValue nestedFlow)
    [.subscribe (answering "GO" "OUT" "LATE"), .start, .send (.text "GO")]
    (fun m s => (s.journal.all fun x => x.origin?.isNone && x.begun?.all fun q =>
        (q.event.value.getD "data").shown.toOption.isSome) &&
      (taken s.journal).length < m.budget &&
      (accepted s.journal).map (·.event.type) = ["GO", "OUT", "LATE"] &&
      (processed s.journal).map (·.event.type) = ["GO", "OUT"]) (by decide +kernel)
  rw [Bool.and_eq_true, Bool.and_eq_true, Bool.and_eq_true, decide_eq_true_eq, decide_eq_true_eq,
    decide_eq_true_eq] at hrun
  obtain ⟨⟨⟨hsilent, hless⟩, haccepted⟩, hprocessed⟩ := hrun
  have hund := undisturbed_of_silent hsilent
  exact ⟨c, m, s₀, hc, hm, hs, hund, withinBudget_of_length hs hless, haccepted, hprocessed,
    sequenced_of_run hc hm hs _ hund⟩

/-- A state with a timer. -/
def timedFlow : Value :=
  .record [("initial", .text "a"), ("states", .record [
    ("a", .record [("on", .record [("GO", .text "b")])]),
    ("b", .record [("after", .record [("100", .text "a")])])])]

/-- Work that cannot be started raises as well, though it is neither a guard nor an action nor a
binding, and leaves an event in the queue of an instance that runs. -/
theorem waiting_after_schedule : ∃ c m s₀,
    compileSource (.bare {}) {} (.ofValue timedFlow) = .ok c ∧ m.graph = c.graph ∧ IsFresh m s₀ ∧
      (∀ o f, .raised o f ∈ (after m [.subscribe (answering "PING" "GO" "LATER"), .start,
        .send (.text "PING")] s₀).journal → o = .schedule) ∧
      (after m [.subscribe (answering "PING" "GO" "LATER"), .start, .send (.text "PING")]
        s₀).status = .active ∧
      (after m [.subscribe (answering "PING" "GO" "LATER"), .start, .send (.text "PING")]
        s₀).queue.map (·.event.type) = ["LATER"] := by
  obtain ⟨c, m, s₀, hc, hm, hs, hrun⟩ := exists_playedOn false (.bare {}) {} (.ofValue timedFlow)
    [.subscribe (answering "PING" "GO" "LATER"), .start, .send (.text "PING")]
    (fun _ s => (s.journal.all fun x => x.origin?.all (· = .schedule)) && s.status = .active &&
      s.queue.map (·.event.type) = ["LATER"]) (by decide +kernel)
  rw [Bool.and_eq_true, Bool.and_eq_true, decide_eq_true_eq, decide_eq_true_eq,
    List.all_eq_true] at hrun
  obtain ⟨⟨hraised, hactive⟩, hqueue⟩ := hrun
  exact ⟨c, m, s₀, hc, hm, hs, fun o f hx => of_decide_eq_true (hraised _ hx), hactive, hqueue⟩

end Definition

end Statechart
