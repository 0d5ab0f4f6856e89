/-
# After the end

An instance ends in a final leaf, or when it is stopped.  Whether it has ended is asked by every
operation on its own: requests to send are refused, events of timers and calls are not received, and
there is nothing left to stop.  The start alone does not ask; it enters the first leaf whenever nobody
has started the instance before.

* `Instance.Unchanged`: nothing changes that shows, no action runs and nothing is started;
* `Instance.spans_ended`: whatever operations go through leaves an instance that has ended unchanged;
* **`Instance.unchanged_of_ended`**: so does every run, short of a first start after the end;
* `Definition.changed_after_end`: such a start runs actions and starts calls.
-/
import Statechart.Proofs.Configuration

namespace Statechart

/-- What is written down while somebody looks at an instance. -/
def Happening.IsLook : Happening → Prop
  | .told .. | .missed _ => True
  | .raised o _ => o = .guard
  | _ => False

namespace Instance

variable {m : Machine} {s s' s₁ : Instance}

open Run

/-! ## 1. Nothing changes -/

/-- Nothing changes that shows, no state is entered or left, no action runs and nothing is started. -/
structure Unchanged (s s' : Instance) : Prop where
  status : s'.status = s.status
  started : s'.started = s.started
  state : s'.state = s.state
  active : s'.active = s.active
  context : s'.context = s.context
  published : s'.published = s.published
  journal : ∃ notes, s'.journal = s.journal ++ notes ∧ ∀ x ∈ notes, x.IsLook

theorem Unchanged.rfl : Unchanged s s :=
  ⟨Eq.refl _, Eq.refl _, Eq.refl _, Eq.refl _, Eq.refl _, Eq.refl _, [], by simp, by simp⟩

theorem Unchanged.trans (h : Unchanged s s₁) (h' : Unchanged s₁ s') : Unchanged s s' := by
  obtain ⟨notes, hjournal, hnotes⟩ := h.journal
  obtain ⟨notes', hjournal', hnotes'⟩ := h'.journal
  refine ⟨h'.status.trans h.status, h'.started.trans h.started, h'.state.trans h.state,
    h'.active.trans h.active, h'.context.trans h.context, h'.published.trans h.published,
    notes ++ notes', by rw [hjournal', hjournal, List.append_assoc], fun x hx => ?_⟩
  exact (List.mem_append.mp hx).elim (hnotes x) (hnotes' x)

/-- Alarms and calls do not show. -/
theorem unchanged_work (alarms : List Alarm) (calls : List OpenCall) (s : Instance) :
    Unchanged s { s with alarms, calls } :=
  ⟨rfl, rfl, rfl, rfl, rfl, rfl, [], by simp, by simp⟩

theorem Beside.unchanged (h : Beside m s s') : Unchanged s s' := by
  cases h with
  | quiet => exact ⟨rfl, rfl, rfl, rfl, rfl, rfl, [], by simp, by simp⟩
  | told | missed =>
    exact ⟨rfl, rfl, rfl, rfl, rfl, rfl, [_], rfl, fun x hx => (List.mem_singleton.mp hx) ▸ trivial⟩

theorem unchanged_select (m : Machine) (e : Event) (s : Instance) :
    Unchanged s ((select m e).exec s).2 := by
  obtain ⟨world, notes, h, hnotes⟩ := select_frame m e s
  rw [h]
  refine ⟨rfl, rfl, rfl, rfl, rfl, rfl, notes, rfl, fun x hx => ?_⟩
  rcases hnotes x hx with ⟨f, rfl⟩ | ⟨f, rfl⟩ <;> trivial

/-! ## 2. Operations after the end -/

/-- If an instance has ended, it is left unchanged. -/
def LeavesEnded (s s' : Instance) : Prop := s.status ≠ .active → Unchanged s s'

instance : IsPreorder Instance LeavesEnded where
  refl _ _ := Unchanged.rfl
  trans _ _ _ h h' hs := (h hs).trans (h' (by rwa [(h hs).status]))

/-- **Whatever operations go through leaves an instance that has ended unchanged.** -/
theorem spans_ended : Spans m LeavesEnded where
  unheard h _ := h.beside.unchanged
  waited alarms _ _ := unchanged_work alarms _ _
  resumed _ _ _ := unchanged_work _ _ _
  looked e s _ := unchanged_select m e s
  vanished _ _ := unchanged_work _ _ _
  fired {s a _ _} _ _ hs := by
    have hended : { s with alarms := s.alarms.erase a }.status ≠ .active := hs
    rw [deliver_of_ended hended]
    exact unchanged_work _ _ _
  reported {s c _} _ _ hs := by
    have hended : { s with calls := s.calls.filter (·.serial ≠ c.serial) }.status ≠ .active := hs
    rw [deliver_of_ended hended]
    exact unchanged_work _ _ _
  stopped s hs := by
    rw [stop_of_ended hs]
    exact Unchanged.rfl

theorem moves_send_ended (event : Value) : Moves LeavesEnded (send m event) := by
  intro s hs
  cases he : Event.ofValue event with
  | error f =>
    rw [send_of_malformed he]
    exact Unchanged.rfl
  | ok e =>
    rw [send_of_ended hs he]
    exact Unchanged.rfl

/-- An operation after the end, unless it is the first start. -/
theorem unchanged_afterOne (o : Operation) (ho : o = .start → s.started = true)
    (hs : s.status ≠ .active) : Unchanged s (afterOne m s o) := by
  by_cases hstart : o = .start
  · subst hstart
    have hnone : afterOne m s .start = s := congrArg Prod.snd (start_of_started m (ho rfl))
    rw [hnone]
    exact Unchanged.rfl
  · exact spans_ended.run o (fun h => absurd h hstart) (fun event _ => moves_send_ended event)
      (fun _ _ s _ => (beside_listeners (m := m) _ s).unchanged)
      (fun _ _ s _ => (beside_listeners (m := m) _ s).unchanged) s hs

/-! ## 3. Runs after the end -/

theorem unchanged_after (os : List Operation) (hs : s.status ≠ .active)
    (hstart : s.started = true ∨ .start ∉ os) : Unchanged s (after m os s) := by
  induction os generalizing s with
  | nil => exact Unchanged.rfl
  | cons o os ih =>
    have hone : Unchanged s (afterOne m s o) := by
      refine unchanged_afterOne o (fun ho => hstart.resolve_right ?_) hs
      exact fun hnot => hnot (ho ▸ List.mem_cons_self)
    refine hone.trans (ih ?_ ?_)
    · rwa [hone.status]
    · rw [hone.started]
      exact hstart.imp_right fun hnot hmem => hnot (List.mem_cons_of_mem _ hmem)

/-- **An instance that has ended does not run again**, and all events sent to it are refused.  Nothing
changes any more, no action runs and nothing is started, unless it is then started for the first
time. -/
theorem unchanged_of_ended (h : Reached m s) (hs : s.status ≠ .active) (os : List Operation) :
    (after m os s).status ≠ .active ∧
      (∀ event e, Event.ofValue event = .ok e → (send m event).exec (after m os s) =
        (.error (.terminated m.graph.id (after m os s).state e.type), after m os s)) ∧
      (s.started = true ∨ .start ∉ os → Unchanged s (after m os s)) := by
  have hsteps : Steps m s (after m os s) := steps_after os (orderly_of_reached h)
  have hended := Steps.ended hsteps hs
  exact ⟨hended, fun event e he => send_of_ended hended he, unchanged_after os hs⟩

end Instance

namespace Definition

open Instance

/-- A final leaf is the end for all operations. -/
theorem unchanged_of_ended_nested : ∃ c m s,
    compileSource (.bare {}) {} (.ofValue nestedFlow) = .ok c ∧ m.graph = c.graph ∧ Reached m s ∧
      s.status ≠ .active ∧ s.started = true ∧
      ((after m [.send (.text "GO"), .stop, .start] s).status ≠ .active ∧
        (∀ event e, Event.ofValue event = .ok e →
          (send m event).exec (after m [.send (.text "GO"), .stop, .start] s) =
            (.error (.terminated m.graph.id (after m [.send (.text "GO"), .stop, .start] s).state
              e.type), after m [.send (.text "GO"), .stop, .start] s)) ∧
        (s.started = true ∨ Operation.start ∉ [.send (.text "GO"), .stop, .start] →
          Unchanged s (after m [.send (.text "GO"), .stop, .start] s))) := by
  obtain ⟨c, m, s₀, hc, hm, hs, hrun⟩ := exists_played (.bare {}) {} (.ofValue nestedFlow)
    [.start, .send (.text "OUT")] (fun _ s => s.status ≠ .active && s.started) (by decide +kernel)
  rw [Bool.and_eq_true, decide_eq_true_eq] at hrun
  have hreached := reached_after (m := m) [.start, .send (.text "OUT")] hs
  exact ⟨c, m, _, hc, hm, hreached, hrun.1, hrun.2, unchanged_of_ended hreached hrun.1 _⟩

/-- A state with an entry action and a call. -/
def busyFlow : Value :=
  .record [("initial", .text "a"),
    ("actors", .record [("nap", .record [("type", .text "timer"), ("ms", .int 5)])]),
    ("states", .record [("a", .record [("entry", .list [.text "mark"]),
      ("invoke", .record [("src", .text "nap")])])])]

/-- What the flow finds in its registry. -/
def markingRegistry : Registry :=
  (Registry.bare {}).withAction "mark" (fun _ _ _ => .ok (.record [("n", .int 1)])) [] []

/-- An instance that is stopped before it has been started can still be started: a state is entered,
its action runs and its call is started, although the instance has ended. -/
theorem changed_after_end : ∃ c m s₀,
    compileSource markingRegistry {} (.ofValue busyFlow) = .ok c ∧ m.graph = c.graph ∧ IsFresh m s₀ ∧
      (after m [.stop] s₀).status = .stopped ∧
      (after m [.stop] s₀).active = [] ∧ (after m [.stop, .start] s₀).active = ["a"] ∧
      (after m [.stop] s₀).context ≠ (after m [.stop, .start] s₀).context ∧
      (after m [.stop] s₀).calls = [] ∧ (after m [.stop, .start] s₀).calls ≠ [] := by
  obtain ⟨c, m, s₀, hc, hm, hs, hrun⟩ := exists_played markingRegistry {} (.ofValue busyFlow) [.stop]
    (fun m s => s.status = .stopped && s.active = [] && (afterOne m s .start).active = ["a"] &&
      ((s.context.getD "n").isTruthy != ((afterOne m s .start).context.getD "n").isTruthy) &&
      s.calls.isEmpty && !(afterOne m s .start).calls.isEmpty) (by decide +kernel)
  simp only [Bool.and_eq_true, decide_eq_true_eq, bne_iff_ne, List.isEmpty_iff,
    Bool.not_eq_true', List.isEmpty_eq_false_iff] at hrun
  obtain ⟨⟨⟨⟨⟨hstatus, hactive⟩, hactive'⟩, hcontext⟩, hcalls⟩, hcalls'⟩ := hrun
  exact ⟨c, m, s₀, hc, hm, hs, hstatus, hactive, hactive',
    fun h => hcontext (congrArg (fun v => (v.getD "n").isTruthy) h), hcalls, hcalls'⟩

end Definition

end Statechart
