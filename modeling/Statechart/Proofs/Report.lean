/-
# How calls end, and what is heard of it

A call ends with a value or with a failure in terms of calls, whatever the actor does: any failure of
an attempt is put into these terms.  What is done around the attempts is not: the key of the result,
the delay before another attempt and the time a result is kept for.  If one of these fails, the call
ends with a failure of another kind.

* `IsAnswer`: results that are reported; `Dispatch.Escapes`, `CallState.Escapes`: why a call can end
  otherwise;
* `CallState.answered_of_run`: there is no other reason;
* `Instance.attended_of_reached`: an open call belongs to a state that has not been left;
* `Instance.announced_le_one`: it is reported once at most, and not while it is open;
* `Instance.heard_of_reached`: what is heard of a call that goes on;
* **`Definition.reported_of_reached`**: a call that ends with an answer is reported, one that ends
  otherwise ends unheard.
-/
import Statechart.Proofs.Attempts
import Statechart.Proofs.Account
import Statechart.Proofs.Configuration
import Statechart.Proofs.History

namespace Statechart

/-! ## 1. Answers and escapes -/

/-- A value, or a failure in terms of calls. -/
def IsAnswer (result : Except Fault CallResult) : Prop :=
  ∀ f, result = .error f → ∃ e, f = .invocation e

theorem isAnswer_ok (r : CallResult) : IsAnswer (.ok r) := fun _ h => by cases h

theorem isAnswer_invocation (e : InvocationError) : IsAnswer (.error (.invocation e)) :=
  fun _ h => by cases h; exact ⟨e, rfl⟩

namespace Dispatch

/-- What can end a dispatched call without an answer: a delay that is out of range, before an attempt
that is allowed, or a time to live that is no duration, after a value. -/
inductive Escapes (d : Dispatch) : Fault → Prop
  | rest {n : Nat} {e : InvocationError} {w : World} {f : Fault} :
      d.invocation.retry.allows n = true → ¬ d.CanRest n w → ((d.rested n e).run w).1 = .error f →
        Escapes d f
  | keep {n : Nat} {v : Value} {w : World} {f : Fault} :
      ¬ d.CanKeep → ((d.kept n v).run w).1 = .error f → Escapes d f

end Dispatch

namespace CallState

/-- A call that goes on after it has been dispatched. -/
def IsOf (d : Dispatch) : CallState → Prop
  | .fresh .. => False
  | .working d' .. => d' = d
  | .resting d' _ => d' = d

end CallState

/-- A step of a dispatched call: it ends with an answer or escapes, or it waits. -/
def CallStep.Follows (d : Dispatch) : CallStep → Prop
  | .finished result => IsAnswer result ∨ ∃ f, result = .error f ∧ d.Escapes f
  | .waiting s _ _ => s.IsOf d

namespace Dispatch

variable {r : Renderer} {d : Dispatch}

/-- What follows the end of an attempt is an answer, a rest, or an escape. -/
theorem follows_answered (n : Nat) (o : Except InvocationError Value) (w : World) :
    ((d.answered n o).run w).1.Follows d := by
  cases o with
  | ok v =>
    rw [answered, run_succeed]
    cases hkept : ((d.kept n v).run w).1 with
    | ok result => exact .inl (isAnswer_ok result)
    | error f =>
      refine .inr ⟨f, rfl, .keep (n := n) (v := v) (w := w) (fun hcan => ?_) hkept⟩
      rw [(kept_of_canKeep hcan n v w).1] at hkept
      cases hkept
  | error e =>
    rw [answered]
    by_cases hretry : e.retryable.isTruthy = true ∧ d.invocation.retry.allows n = true
    · have hrested := run_rested d n e w
      have hbroken : ∀ f, ((d.rested n e).run w).1 = .error f → d.Escapes f := fun f hf => by
        refine .rest hretry.2 (fun hcan => ?_) hf
        rw [(rested_of_canRest hcan e).1] at hf
        cases hf
      rw [run_fail_again hretry.1 hretry.2]
      rcases hrest : (World.perform (d.rest n e)).run w with ⟨f | seconds, w'⟩
      · rw [hrest] at hrested
        exact .inr ⟨f, rfl, hbroken f (congrArg Prod.fst hrested)⟩
      · rw [hrest] at hrested
        dsimp only at hrested ⊢
        rcases hwake : wakeAfter w' seconds with f | _ | t
        · rw [hwake] at hrested
          exact .inr ⟨.data f, rfl, hbroken _ (congrArg Prod.fst hrested)⟩
        · exact rfl
        · exact rfl
    · have hlast : e.retryable.isTruthy = false ∨ d.invocation.retry.allows n = false := by
        by_cases he : e.retryable.isTruthy = true
        · exact .inr (by simpa [he] using hretry)
        · exact .inl (by simpa using he)
      rw [run_fail_last hlast]
      exact .inl (isAnswer_invocation _)

theorem follows_attempt (n : Nat) (w : World) : ((d.attempt r n).run w).1.Follows d := by
  rw [run_attempt]
  rcases (d.begun r).run w with ⟨o | ⟨work, wake, limit⟩, w'⟩
  · exact follows_answered n o w'
  · exact rfl

theorem follows_begin (w : World) : ((d.begin r).run w).1.Follows d := by
  unfold begin
  cases d.key with
  | none => exact follows_attempt 1 w
  | some key =>
    dsimp only
    rw [World.run_get_bind]
    rcases w.cache.get (.float w.seconds) key with ⟨_ | entry, cache⟩
    · exact follows_attempt 1 _
    · exact .inl (isAnswer_ok _)

end Dispatch

namespace CallState

variable {r : Renderer} {d : Dispatch}

theorem follows_resume {s : CallState} (h : s.IsOf d) (w : World) :
    ((s.resume r).run w).1.Follows d := by
  cases s with
  | fresh => exact h.elim
  | working d' n work =>
    obtain rfl : d' = d := h
    rw [resume, World.run_bind, Dispatch.conclude_eq]
    exact Dispatch.follows_answered n _ _
  | resting d' n =>
    obtain rfl : d' = d := h
    exact Dispatch.follows_attempt (n + 1) w

theorem follows_expire {s : CallState} (h : s.IsOf d) (w : World) :
    (s.expire.run w).1.Follows d := by
  cases s with
  | fresh => exact h.elim
  | working d' n work =>
    obtain rfl : d' = d := h
    exact Dispatch.follows_answered n (.error d'.invocation.timedOut) _
  | resting d' n => exact h

/-- What can end a call without an answer: a failure of its input other than a failed evaluation, a
failure of its key, or, once it is dispatched, of what is done around the attempts. -/
inductive Escapes (r : Renderer) : CallState → World → Fault → Prop
  | input {i : Invocation} {context event : Value} {w : World} {f : Fault} :
      r.renderValue context event i.input = .error f → (∀ e, f ≠ .evaluation e) →
        Escapes r (.fresh i context event) w f
  | key {i : Invocation} {context event input : Value} {w : World} {f : Fault} :
      i.renderedInput r context event = .ok input →
        ((i.key? r input context event).exec w.effects).1 = .error f → (∀ e, f ≠ .invocation e) →
          Escapes r (.fresh i context event) w f
  | dispatched {i : Invocation} {context event : Value} {d : Dispatch} {w w' : World} {f : Fault} :
      (World.perform (i.dispatch r context event)).run w = (.ok d, w') → d.Escapes f →
        Escapes r (.fresh i context event) w f
  | under {s : CallState} {d : Dispatch} {w : World} {f : Fault} : s.IsOf d → d.Escapes f →
      Escapes r s w f

/-- A call that cannot be dispatched ends with a failure of its own, or escapes. -/
theorem escapes_of_undispatched {i : Invocation} {context event : Value} {w w' : World} {f : Fault}
    (h : (World.perform (i.dispatch r context event)).run w = (.error f, w')) :
    (∃ e, f = .invocation e) ∨ Escapes r (.fresh i context event) w f := by
  have hexec : ((i.dispatch r context event).exec w.effects).1 = .error f := congrArg Prod.fst h
  rw [Invocation.dispatch, Act.exec_bind, Act.exec_lift] at hexec
  cases hinput : i.renderedInput r context event with
  | error f' =>
    rw [hinput] at hexec
    obtain rfl : f' = f := Except.error.inj hexec
    unfold Invocation.renderedInput at hinput
    split at hinput
    · cases hinput
      exact .inl ⟨_, rfl⟩
    · rename_i hother
      exact .inr (.input hinput fun e he => hother e (he ▸ hinput))
  | ok input =>
    rw [hinput] at hexec
    dsimp only at hexec
    rw [Act.exec_bind] at hexec
    rcases hkey : (i.key? r input context event).exec w.effects with ⟨f' | key, fx⟩
    · rw [hkey] at hexec
      obtain rfl : f' = f := Except.error.inj hexec
      by_cases hanswer : ∃ e, f' = .invocation e
      · exact .inl hanswer
      · exact .inr (.key hinput (congrArg Prod.fst hkey) fun e he => hanswer ⟨e, he⟩)
    · rw [hkey] at hexec
      cases hexec

/-- **A step of a call that ends it ends it with an answer or escapes.** -/
theorem answered_of_finished {s : CallState} {w w' : World} {result : Except Fault CallResult}
    (h : (s.resume r).run w = (.finished result, w') ∨ s.expire.run w = (.finished result, w')) :
    IsAnswer result ∨ ∃ f, result = .error f ∧ Escapes r s w f := by
  have hof : ∀ d, s.IsOf d → IsAnswer result ∨ ∃ f, result = .error f ∧ Escapes r s w f := by
    intro d hd
    have hfollows : (CallStep.finished result).Follows d := by
      rcases h with h | h
      · have hstep := follows_resume (r := r) hd w
        rwa [h] at hstep
      · have hstep := follows_expire hd w
        rwa [h] at hstep
    exact hfollows.imp_right (Exists.imp fun _ => And.imp_right (.under hd))
  cases s with
  | working d n work => exact hof d rfl
  | resting d n => exact hof d rfl
  | fresh i context event =>
    rcases h with h | h
    · rcases hd : (World.perform (i.dispatch r context event)).run w with ⟨f | d, w₁⟩
      · rw [resume, World.run_bind_of hd] at h
        cases h
        rcases escapes_of_undispatched hd with ⟨e, rfl⟩ | hescapes
        · exact .inl (isAnswer_invocation e)
        · exact .inr ⟨f, rfl, hescapes⟩
      · have hstep := Dispatch.follows_begin (r := r) (d := d) w₁
        rw [resume, World.run_bind_of hd] at h
        dsimp only at h
        rw [h] at hstep
        exact hstep.imp_right (Exists.imp fun _ => And.imp_right (.dispatched hd))
    · cases h

/-- So does a call that is followed on and on. -/
theorem answered_of_follow {fuel : Nat} {step : CallStep} (h : step.Follows d) {w w' : World}
    {result : Except Fault CallResult} (hrun : (follow r fuel step).run w = (some result, w')) :
    IsAnswer result ∨ ∃ f, result = .error f ∧ d.Escapes f := by
  induction fuel generalizing step w with
  | zero =>
    cases step with
    | finished =>
      rw [run_follow_finished] at hrun
      cases hrun
      exact h
    | waiting => cases hrun
  | succ fuel ih =>
    cases step with
    | finished =>
      rw [run_follow_finished] at hrun
      cases hrun
      exact h
    | waiting s limit wake =>
      have hresume : ∀ w, (s.resume r >>= follow r fuel).run w = (some result, w') →
          IsAnswer result ∨ ∃ f, result = .error f ∧ d.Escapes f :=
        fun w hrun => ih (follows_resume h w) hrun
      rcases wake with _ | wake
      · rw [run_follow_ready] at hrun
        exact hresume w hrun
      · rcases limit with _ | limit
        · rw [run_follow_wake] at hrun
          exact hresume _ hrun
        · rw [run_follow_limit] at hrun
          split at hrun
          · exact ih (follows_expire h _) hrun
          · exact hresume _ hrun

/-- **A call by itself that comes to an end ends with an answer or escapes.** -/
theorem answered_of_run {i : Invocation} {context event : Value} {w w' : World}
    {result : Except Fault CallResult} (h : (run r i context event).run w = (some result, w')) :
    IsAnswer result ∨ ∃ f, result = .error f ∧ Escapes r (.fresh i context event) w f := by
  rw [run, World.run_bind, resume] at h
  rcases hd : (World.perform (i.dispatch r context event)).run w with ⟨f | d, w₁⟩
  · rw [World.run_bind_of hd] at h
    have hfinished := congrArg Prod.fst ((run_follow_finished _ _ _).symm.trans h)
    obtain rfl : Except.error f = result := Option.some.inj hfinished
    rcases escapes_of_undispatched hd with ⟨e, rfl⟩ | hescapes
    · exact .inl (isAnswer_invocation e)
    · exact .inr ⟨f, rfl, hescapes⟩
  · rw [World.run_bind_of hd] at h
    have hfollows := answered_of_follow (Dispatch.follows_begin (r := r) (d := d) w₁) h
    exact hfollows.imp_right (Exists.imp fun _ => And.imp_right (.dispatched hd))

/-- A call by itself comes to an end. -/
theorem ends_of_run {i : Invocation} {m : Nat} (hmax : i.retry.max.toNumber = .int m)
    (context event : Value) (w : World) :
    ∃ result w', (run r i context event).run w = (some result, w') := by
  rw [run_eq hmax]
  split
  · exact ⟨_, _, rfl⟩
  · exact ⟨_, _, rfl⟩

end CallState

namespace Instance

variable {m : Machine} {g : Graph} {s s' : Instance}

open Run

/-! ## 3. Calls and scopes -/

/-- Every open call belongs to a scope that is open. -/
def Attended (s : Instance) : Prop := ∀ c ∈ s.calls, c.scope ∈ s.live

theorem Attended.ended (hs : s.Attended) (serial : Nat) :
    { s with calls := s.calls.filter (·.serial ≠ serial) }.Attended :=
  fun c hc => hs c (List.mem_filter.mp hc).1

theorem Inert.attended (h : Inert s s') (hs : s.Attended) : s'.Attended := by
  obtain ⟨_, _, _, _, _, _, rfl, _⟩ := h
  exact hs

theorem Inert.live_eq (h : Inert s s') : s'.live = s.live := by
  obtain ⟨_, _, _, _, _, _, rfl, _⟩ := h
  rfl

theorem Arms.attended {scope : Nat} {xs : List Errand} (h : Arms scope xs s s')
    (hscope : scope ∈ s.live) (hs : s.Attended) : s'.Attended := by
  induction h with
  | nil => exact hs
  | cons harm _ ih =>
    cases harm with
    | timer => exact ih hscope hs
    | call e i s =>
      refine ih hscope fun c hc => ?_
      rcases List.mem_append.mp hc with hc | hc
      · exact hs c hc
      · rw [List.mem_singleton] at hc
        exact hc ▸ hscope

/-- Closing a scope gives up the calls that belong to it. -/
theorem Attended.closeScope (hs : s.Attended) (n : Nat) : (s.closeScope n).Attended := by
  intro c hc
  rw [closeScope_eq] at hc ⊢
  obtain ⟨hmem, hall⟩ := List.mem_filter.mp hc
  refine List.mem_filter.mpr ⟨hs c hmem, decide_eq_true fun hn => ?_⟩
  have hne := List.all_eq_true.mp hall c (List.mem_filter.mpr ⟨hmem, decide_eq_true hn⟩)
  exact absurd rfl (of_decide_eq_true hne)

theorem Attended.closeAll (hs : s.Attended) : s.closeAll.Attended := by
  have hall : ∀ (cs : List Scope) (t : Instance), t.Attended →
      (cs.foldl (fun s c => s.closeScope c.serial) t).Attended := by
    intro cs
    induction cs with
    | nil => exact fun _ h => h
    | cons c cs ih => exact fun t h => ih _ (h.closeScope c.serial)
  exact hall s.scopes s hs

theorem Attended.closeState (hs : s.Attended) (id : String) : (closeState id s).Attended := by
  unfold Instance.closeState
  dsimp only
  split
  · exact hs.closeScope _
  · exact hs

theorem Part.attended (h : Part g s s') (hs : s.Attended) : s'.Attended := by
  cases h with
  | remark h => exact h.attended hs
  | @entry _ s₁ _ node _ _ h _ h' =>
    have hopen : (openState node.id s).Attended := fun c hc => List.mem_append_left _ (hs c hc)
    have hscope : s.serial ∈ s₁.live := by
      rw [h.live_eq]
      exact List.mem_append_right _ List.mem_cons_self
    exact h'.attended hscope (h.attended hopen)
  | exit id => exact hs.closeState id
  | ending => exact hs.closeAll

theorem Parts.attended (h : Parts g s s') (hs : s.Attended) : s'.Attended := by
  induction h with
  | refl => exact hs
  | tail _ hp ih => exact hp.attended ih

theorem Attended.received (hs : s.Attended) (scope : Nat) (e : Event) :
    (s.received scope e).Attended := by
  obtain ⟨_, _, h, -⟩ := received_frame scope e s
  rw [h]
  exact hs

theorem Step.attended (h : Step m s s') (hs : s.Attended) : s'.Attended := by
  cases h with
  | aside h => cases h <;> exact hs
  | @resumed _ c state hc =>
    intro d hd
    obtain ⟨d', hd', rfl⟩ := List.mem_map.mp hd
    dsimp only
    split
    · exact hs c hc
    · exact hs d' hd'
  | looked e => exact (inert_select m e s).attended hs
  | opened => exact (parts_enterFirst { s with started := true }).attended hs
  | @fired _ a =>
    have hrung : { s with alarms := s.alarms.erase a }.Attended := hs
    exact hrung.received _ _
  | vanished => exact hs.ended _
  | reported => exact (hs.ended _).received _ _
  | processed e => exact (parts_process e s).attended hs
  | stopped => exact hs.closeAll
  | _ => exact hs

/-- **An open call belongs to a state that has not been left**, in every run. -/
theorem attended_of_reached (h : Reached m s) : s.Attended := by
  obtain ⟨s₀, hfresh, hsteps⟩ := h
  induction hsteps with
  | refl =>
    obtain ⟨_, _, _, _, rfl⟩ := eq_of_fresh hfresh
    exact fun _ hc => by cases hc
  | tail _ hstep ih => exact hstep.attended ih

end Instance

/-! ## 4. Reports are accepted once -/

/-- Whether an event that reports an errand of a scope is accepted. -/
def Happening.accepts (n : Nat) (e : Errand) : Happening → Bool
  | .accepted q => q.isOf n e
  | _ => false

theorem Happening.IsRemark.accepts_eq {x : Happening} (h : x.IsRemark) (n : Nat) (e : Errand) :
    x.accepts n e = false := by
  cases x <;> first | rfl | exact h.elim

namespace Instance

variable {m : Machine} {g : Graph} {s s' : Instance}

open Run

/-- How often an errand of a scope is under way or its report has been accepted. -/
def announced (n : Nat) (e : Errand) (s : Instance) : Nat :=
  s.alarms.countP (·.isOf n e) + s.calls.countP (·.isOf n e) + s.journal.countP (·.accepts n e)

/-- Nothing is under way or reported that has not been started. -/
def Covered (s s' : Instance) : Prop :=
  ∀ n (e : Errand), e.IsProper → s'.announced n e + s.armedFor n e ≤ s.announced n e + s'.armedFor n e

instance : IsPreorder Instance Covered where
  refl _ _ _ _ := Nat.le_refl _
  trans _ _ _ h h' n e he := by
    have hfirst := h n e he
    have hsecond := h' n e he
    omega

/-- Less is under way, and no report is accepted. -/
theorem covered_of_less (notes : List Happening) (hjournal : s'.journal = s.journal ++ notes)
    (hnotes : ∀ x ∈ notes, ∀ n e, x.accepts n e = false)
    (halarms : s'.alarms.Sublist s.alarms) (hcalls : s'.calls.Sublist s.calls) : Covered s s' := by
  intro n e _
  have hnone : notes.countP (·.accepts n e) = 0 := by
    rw [List.countP_eq_zero]
    exact fun x hx => by simp [hnotes x hx n e]
  have hlight : s'.alarms.countP (·.isOf n e) ≤ s.alarms.countP (·.isOf n e) := halarms.countP_le
  have hlight' : s'.calls.countP (·.isOf n e) ≤ s.calls.countP (·.isOf n e) := hcalls.countP_le
  simp only [announced, armedFor, hjournal, List.countP_append, hnone]
  omega

theorem covered_of_noted {x : Happening} (hjournal : s'.journal = s.journal ++ [x])
    (hx : ∀ n e, x.accepts n e = false) (halarms : s'.alarms.Sublist s.alarms)
    (hcalls : s'.calls.Sublist s.calls) : Covered s s' :=
  covered_of_less [x] hjournal (fun _ hy => (List.mem_singleton.mp hy) ▸ hx) halarms hcalls

theorem covered_note {x : Happening} (hx : ∀ n e, x.accepts n e = false) (s : Instance) :
    Covered s (s.note x) := covered_of_noted rfl hx (.refl _) (.refl _)

theorem Inert.covered (h : Inert s s') : Covered s s' := by
  obtain ⟨_, _, _, _, _, notes, rfl, hnotes⟩ := h
  exact covered_of_less notes (Eq.refl _) (fun x hx => Happening.IsRemark.accepts_eq (hnotes x hx))
    (.refl _) (.refl _)

/-- What is started comes to be under way. -/
theorem Arm.covered {scope : Nat} {x : Errand} (h : Arm scope x s s') (hx : x.IsProper) :
    Covered s s' := by
  intro n e he
  have hweight := h.weight_eq hx n he
  have harmed := h.armedFor_eq n e
  have hqueue : s'.queue = s.queue := by cases h <;> rfl
  have hbegins : (Happening.armed scope x).begins n e = false := rfl
  have haccepts : (Happening.armed scope x).accepts n e = false := rfl
  rw [weight, weight, hqueue, h.journal, List.countP_append, List.countP_singleton,
    hbegins] at hweight
  rw [announced, announced, harmed, h.journal, List.countP_append, List.countP_singleton,
    haccepts]
  simp only [Bool.false_eq_true, if_false] at hweight ⊢
  omega

theorem Arms.covered {scope : Nat} {xs : List Errand} (h : Arms scope xs s s')
    (hproper : ∀ x ∈ xs, x.IsProper) : Covered s s' := by
  induction h with
  | nil => exact refl_of Covered _
  | cons harm _ ih =>
    exact trans_of Covered (harm.covered (hproper _ List.mem_cons_self))
      (ih fun y hy => hproper y (List.mem_cons_of_mem _ hy))

theorem Part.covered (wf : g.WellFormed) (h : Part g s s') : Covered s s' := by
  cases h with
  | remark h => exact h.covered
  | @entry _ s₁ _ node _ hnode h hdone h' =>
    have hopen : Covered s (openState node.id s) :=
      covered_of_noted rfl (fun _ _ => rfl) (.refl _) (.refl _)
    exact trans_of Covered hopen <| trans_of Covered h.covered <|
      h'.covered fun x hx => wf.isProper_errands hnode (hdone.subset hx)
  | exit id =>
    obtain ⟨_, _, _, _, _, _, _, hclose, halarms, hcalls⟩ := closeState_frame id s
    rw [hclose]
    exact covered_of_noted rfl (fun _ _ => rfl) halarms hcalls
  | ending =>
    obtain ⟨_, _, _, _, hclose, -, halarms, hcalls, -⟩ := closeAll_frame s
    rw [finish, hclose]
    exact covered_of_noted rfl (fun _ _ => rfl) halarms hcalls

theorem Parts.covered (wf : g.WellFormed) (h : Parts g s s') : Covered s s' := by
  induction h with
  | refl => exact refl_of Covered _
  | tail _ hp ih => exact trans_of Covered ih (hp.covered wf)

/-- **A report takes the place of what it reports.** -/
theorem covered_received {t : Instance} {scope : Nat} {e : Event} (hjournal : t.journal = s.journal)
    (halarms : t.alarms.Sublist s.alarms) (hcalls : t.calls.Sublist s.calls)
    (hlighter : ∀ n (x : Errand), x.IsProper → (Queued.mk e (some scope)).isOf n x = true →
      t.announced n x + 1 ≤ s.announced n x) :
    Covered s (t.received scope e) := by
  have hless : Covered s t := covered_of_less [] (by simp [hjournal]) (by simp) halarms hcalls
  rcases received_cases scope e t with h | h
  · rwa [h]
  · rw [h]
    intro n x hx
    have harmed : (enqueue ⟨e, some scope⟩ t).armedFor n x = s.armedFor n x := by
      simp [armedFor, enqueue, note, hjournal, Happening.arms]
    have hcount : (enqueue ⟨e, some scope⟩ t).announced n x = t.announced n x +
        if (Queued.mk e (some scope)).isOf n x = true then 1 else 0 := by
      have haccepts : (Happening.accepted ⟨e, some scope⟩).accepts n x =
          (Queued.mk e (some scope)).isOf n x := rfl
      simp only [announced, enqueue, note, List.countP_append, List.countP_singleton, haccepts]
      omega
    rw [harmed, hcount]
    split
    · rename_i hof
      have hone := hlighter n x hx hof
      omega
    · have hle := hless n x hx
      have hsame : t.armedFor n x = s.armedFor n x := by rw [armedFor, hjournal, armedFor]
      omega

/-- **A step reports what has been started, and nothing twice.** -/
theorem Step.covered (wf : m.graph.WellFormed) (h : Step m s s') (hnumbered : s.Numbered) :
    Covered s s' := by
  have hquiet : ∀ s' : Instance, s'.journal = s.journal → s'.alarms.Sublist s.alarms →
      s'.calls.Sublist s.calls → Covered s s' := fun s' hjournal halarms hcalls =>
    covered_of_less [] (by simp [hjournal]) (by simp) halarms hcalls
  cases h with
  | aside h =>
    cases h with
    | quiet => exact hquiet _ rfl (.refl _) (.refl _)
    | told | missed => exact covered_note (fun _ _ => rfl) s
  | waited alarms hsame =>
    intro n e _
    simp only [announced]
    rw [countP_timers n e alarms, hsame, ← countP_timers]
    exact Nat.le_refl _
  | @resumed _ c state hc =>
    intro n e _
    simp only [announced]
    rw [countP_resumed hnumbered hc]
    exact Nat.le_refl _
  | looked e => exact (inert_select m e s).covered
  | opened =>
    exact trans_of Covered (hquiet { s with started := true } rfl (.refl _) (.refl _))
      ((parts_enterFirst { s with started := true }).covered wf)
  | accepted e =>
    have haccepts : ∀ n x, (Happening.accepted ⟨e, none⟩).accepts n x = false := fun _ _ => rfl
    exact covered_of_noted rfl haccepts (.refl _) (.refl _)
  | @fired _ a scope type ha hkind =>
    refine covered_received rfl List.erase_sublist (.refl _) fun n x _ hof => ?_
    have hof' : a.isOf n x = true := by
      have htype : (Event.ofType type).type = type := rfl
      rw [Alarm.isOf, hkind]
      simpa [Queued.isOf, htype] using hof
    have hcount : (s.alarms.erase a).countP (·.isOf n x) + 1 = s.alarms.countP (·.isOf n x) := by
      rw [(List.perm_cons_erase ha).countP_eq, List.countP_cons, if_pos hof']
    simp only [announced]
    omega
  | vanished => exact hquiet _ rfl (.refl _) List.filter_sublist
  | @reported _ c e hc hreports =>
    refine covered_received rfl (.refl _) List.filter_sublist fun n x hx hof => ?_
    simp only [Queued.isOf, Bool.and_eq_true, decide_eq_true_eq, List.contains_iff_mem,
      Option.some.injEq] at hof
    obtain rfl : x = .call c.invocation.id := Errand.eq_of_reports hx trivial hof.2 hreports
    have hof' : c.isOf n (.call c.invocation.id) = true := by simp [OpenCall.isOf, hof.1]
    have hcount := countP_ended hc hof'
    simp only [announced]
    omega
  | cleared => exact hquiet _ rfl (.refl _) (.refl _)
  | dropped | begun =>
    exact trans_of Covered (hquiet _ rfl (.refl _) (.refl _)) (covered_note (fun _ _ => rfl) _)
  | processed e => exact (parts_process e s).covered wf
  | through => exact covered_note (fun _ _ => rfl) s
  | stopped =>
    obtain ⟨_, _, _, _, hclose, -, halarms, hcalls, -⟩ := closeAll_frame s
    rw [hclose]
    exact covered_of_noted rfl (fun _ _ => rfl) halarms hcalls

/-- **Whatever is started is reported once at most**, and not as long as it is under way. -/
theorem announced_le_one (wf : m.graph.WellFormed) (h : Reached m s) (n : Nat) {e : Errand}
    (he : e.IsProper) : s.announced n e ≤ 1 := by
  have honce := (accounted_of_reached wf h).once n e
  obtain ⟨s₀, hfresh, hsteps⟩ := h
  have hcovered : Covered s₀ s := by
    induction hsteps with
    | refl => exact refl_of Covered _
    | tail hsteps hstep ih =>
      have hbefore : Reached m _ := ⟨s₀, hfresh, hsteps⟩
      exact trans_of Covered (ih (accounted_of_reached wf hbefore |>.once n e))
        (hstep.covered wf (numbered_of_reached hbefore))
  have hle := hcovered n e he
  obtain ⟨_, _, _, _, rfl⟩ := eq_of_fresh hfresh
  simp only [announced, armedFor, List.countP_nil] at hle
  simp only [armedFor] at honce
  simp only [announced]
  omega

end Instance

namespace Instance

variable {m : Machine} {s : Instance}

open Run

/-! ## 5. What is heard of a call -/

section Heard

variable {c : OpenCall}

/-- A call that goes on is found by its number. -/
theorem exec_continueCall (hs : s.Numbered) (hc : c ∈ s.calls)
    {step : CallState → StateM World CallStep} {r : CallStep} {w : World}
    (hstep : (step c.state).run s.world = (r, w)) :
    (continueCall m c.serial step).exec s = (follow m c r).exec { s with world := w } := by
  have hfound : s.calls.find? (·.serial = c.serial) = some c := by
    cases hfind : s.calls.find? (·.serial = c.serial) with
    | none => exact absurd (List.find?_eq_none.mp hfind c hc) (by simp)
    | some d =>
      have hserial : d.serial = c.serial := by simpa using List.find?_some hfind
      have hd : d ∈ s.calls := List.mem_of_find?_eq_some hfind
      rw [List.inj_on_of_nodup_map hs.calls_nodup hd hc hserial]
  have hworld : (inWorld (step c.state)).exec s = (.ok r, { s with world := w }) := by
    change (inWorld (step c.state)) s = _
    rw [inWorld, hstep]
  rw [continueCall, exec_get_bind, hfound]
  exact exec_bind_ok hworld

/-- A call is over. -/
def endCall (c : OpenCall) (s : Instance) : Instance :=
  { s.dropAlarms c.serial with calls := s.calls.filter (·.serial ≠ c.serial) }

/-- The end of a call is reported, if there is a report of it, -/
theorem exec_follow_reported {result : Except Fault CallResult} {e : Event}
    (h : reportOf c.invocation result = some e) (s : Instance) :
    (follow m c (.finished result)).exec s = (report m c.scope e).exec (s.endCall c) := by
  rw [follow, exec_bind_ok (exec_modify _ s), exec_bind_ok (exec_modify _ _), h]
  rfl

/-- and nothing else happens if there is none. -/
theorem exec_follow_unreported {result : Except Fault CallResult}
    (h : reportOf c.invocation result = none) (s : Instance) :
    (follow m c (.finished result)).exec s = (.ok (), s.endCall c) := by
  rw [follow, exec_bind_ok (exec_modify _ s), exec_bind_ok (exec_modify _ _), h]
  rfl

/-- What is received is on record after the report. -/
theorem grown_report {scope : Nat} {e : Event} (h : (s.received scope e).Orderly) :
    (s.received scope e).journal <+: ((report m scope e).exec s).2.journal := by
  have hsteps : OrderlySteps m (s.received scope e) ((report m scope e).exec s).2 := by
    refine Moves.bind_from (x := outcome (deliver m scope e)) ?_ fun r => ?_
    · rw [exec_outcome]
      exact orderly_deliver scope e s
    · cases r with
      | ok _ => exact Moves.pure ()
      | error _ => exact moves_perform (fun _ _ h => aside_orderly h.beside.aside) _
  exact Steps.grown (hsteps h)

/-- A result that is an answer has a report. -/
theorem exists_reportOf {result : Except Fault CallResult} (h : IsAnswer result) (i : Invocation) :
    ∃ e, reportOf i result = some e := by
  cases result with
  | ok r => exact ⟨_, rfl⟩
  | error f =>
    obtain ⟨e, rfl⟩ := h f rfl
    exact ⟨_, rfl⟩

theorem reportOf_of_other {f : Fault} (h : ∀ e, f ≠ .invocation e) (i : Invocation) :
    reportOf i (.error f) = none := by
  cases f with
  | invocation e => exact absurd rfl (h e)
  | _ => rfl

/-- What is heard of a call that goes on. -/
structure Heard (m : Machine) (s : Instance) (c : OpenCall)
    (step : CallState → StateM World CallStep) : Prop where
  /-- A call that waits stays open, and something is there that makes it go on. -/
  waits : ∀ {state limit wake w}, (step c.state).run s.world = (.waiting state limit wake, w) →
    ∃ s', (continueCall m c.serial step).exec s = (.ok (), s') ∧ { c with state } ∈ s'.calls ∧
      (.call c.serial ∈ s'.turns ∨ ∃ t, ⟨t, .wake c.serial⟩ ∈ s'.alarms) ∧
      s'.journal = s.journal ∧ s'.queue = s.queue
  /-- An answer is accepted as an event of the call, as long as the instance runs. -/
  answered : ∀ {result w}, (step c.state).run s.world = (.finished result, w) → IsAnswer result →
    ∃ e, reportOf c.invocation result = some e ∧ e.type ∈ (Errand.call c.invocation.id).reports ∧
      (s.status = .active → s.journal ++ [.accepted ⟨e, some c.scope⟩] <+:
        ((continueCall m c.serial step).exec s).2.journal)
  /-- Any other end of a call leaves no trace but that it is gone. -/
  unheard : ∀ {f w}, (step c.state).run s.world = (.finished (.error f), w) →
    (∀ e, f ≠ .invocation e) →
      (continueCall m c.serial step).exec s = (.ok (), { s with world := w }.endCall c)

/-- **What is heard of an open call**, in every run. -/
theorem heard_of_reached (hs : Reached m s) (hc : c ∈ s.calls)
    (step : CallState → StateM World CallStep) : Heard m s c step where
  waits {state limit wake w} hstep := by
    rw [exec_continueCall (numbered_of_reached hs) hc hstep, follow, exec_bind_ok (exec_modify _ _)]
    dsimp only
    rw [exec_modify]
    refine ⟨_, rfl, List.mem_map.mpr ⟨c, hc, if_pos rfl⟩, ?_, rfl, rfl⟩
    cases wake with
    | none => exact .inl (by simp)
    | some t => exact .inr ⟨t, by simp⟩
  answered {result w} hstep hanswer := by
    obtain ⟨e, he⟩ := exists_reportOf hanswer c.invocation
    refine ⟨e, he, type_of_reportOf he, fun hactive => ?_⟩
    rw [exec_continueCall (numbered_of_reached hs) hc hstep, exec_follow_reported he]
    have hlive : c.scope ∈ s.live := attended_of_reached hs c hc
    have hreceived : ({ s with world := w }.endCall c).received c.scope e =
        enqueue ⟨e, some c.scope⟩ ({ s with world := w }.endCall c) := by
      refine if_pos ?_
      simpa [isLive, endCall, dropAlarms, hlive] using hactive
    have hended : OrderlySteps m s (({ s with world := w }.endCall c).received c.scope e) :=
      trans_of (OrderlySteps m) (spans_orderly.unheard (unheard_world w s)) <|
        trans_of (OrderlySteps m) (spans_orderly.dropAlarms c.serial { s with world := w })
          (Step.reported (s := { s with world := w }.dropAlarms c.serial) hc
            (type_of_reportOf he)).orderlySteps
    have hgrown := grown_report (m := m) ((hended (orderly_of_reached hs)).orderly
      (orderly_of_reached hs))
    rw [hreceived] at hgrown
    exact hgrown
  unheard {f w} hstep hother := by
    rw [exec_continueCall (numbered_of_reached hs) hc hstep,
      exec_follow_unreported (reportOf_of_other hother c.invocation)]

end Heard

/-- How the calls of an instance end, and what is heard of them. -/
structure Reporting (m : Machine) (s : Instance) : Prop where
  /-- A call by itself ends with an answer, unless it escapes, -/
  answered : ∀ {i context event w result w'},
    (CallState.run m.renderer i context event).run w = (some result, w') → IsAnswer result ∨
      ∃ f, result = .error f ∧ CallState.Escapes m.renderer (.fresh i context event) w f
  /-- and it does end. -/
  ends : ∀ {i} {k : Nat}, i.retry.max.toNumber = .int k → ∀ context event w, ∃ result w',
    (CallState.run m.renderer i context event).run w = (some result, w')
  /-- So it is with each step of an open call. -/
  finished : ∀ {c result w}, c ∈ s.calls →
    ((c.state.resume m.renderer).run s.world = (.finished result, w) ∨
      c.state.expire.run s.world = (.finished result, w)) →
    IsAnswer result ∨ ∃ f, result = .error f ∧ CallState.Escapes m.renderer c.state s.world f
  heard : ∀ {c}, c ∈ s.calls → ∀ step, Heard m s c step
  /-- An open call belongs to a scope that is open. -/
  attended : s.Attended
  /-- No call is reported twice, or while it is open. -/
  once : ∀ n id, s.announced n (.call id) ≤ 1

end Instance

namespace Definition

open Instance

variable {registry : Registry} {config : Config} {source : FlowSource} {c : Compiled}
  {m : Machine} {s : Instance}

/-- **A call ends with an answer, which is reported by one event of the call as long as its state has
not been left; or else with a failure of what is done around the attempts, and then nothing is heard
of it.** -/
theorem reported_of_reached (h : compileSource registry config source = .ok c)
    (hm : m.graph = c.graph) (hs : Reached m s) : Reporting m s where
  answered := CallState.answered_of_run
  ends := CallState.ends_of_run
  finished _ hstep := CallState.answered_of_finished hstep
  heard hc step := heard_of_reached hs hc step
  attended := attended_of_reached hs
  once n id := announced_le_one (hm ▸ wellFormed_graph h) hs n (e := .call id) trivial

/-- A state that waits for the price of an amount. -/
def pricedFlow (price : String) (amount : Int) : Value :=
  .record [("initial", .text "a"), ("context", .record [("n", .int amount)]),
    ("states", .record [
      ("a", .record [("invoke", .record [("id", .text "call"), ("src", .text "quote"),
        ("input", .record [("price", .text price)]), ("onDone", .text "b"),
        ("onError", .text "c")])]),
      ("b", .record []), ("c", .record [])])]

/-- An actor that answers at once. -/
def quotingRegistry : Registry :=
  (Registry.bare {}).withActor "quote"
    (.host { name := "quote", plan := fun _ _ _ _ => ⟨none, .ok (.int 1)⟩ })

/-- What an open call ends with when it goes on, if it ends with a value. -/
def valueOf? (m : Machine) (s : Instance) (o : OpenCall) : Option CallResult :=
  match ((o.state.resume m.renderer).run s.world).1 with
  | .finished (.ok result) => some result
  | _ => none

theorem exists_of_valueOf? {o : OpenCall} (h : (valueOf? m s o).isSome = true) :
    ∃ result w, (o.state.resume m.renderer).run s.world = (.finished (.ok result), w) := by
  unfold valueOf? at h
  split at h
  · rename_i result hstep
    exact ⟨result, _, Prod.ext hstep rfl⟩
  · cases h

/-- A call that ends with an answer. -/
theorem reported_of_reached_priced : ∃ c m s o result w,
    compileSource quotingRegistry {} (.ofValue (pricedFlow "\x7b\x7b context.n \x7d\x7d" 5)) = .ok c ∧
      m.graph = c.graph ∧ Reached m s ∧ o ∈ s.calls ∧ s.status = .active ∧
      (o.state.resume m.renderer).run s.world = (.finished (.ok result), w) ∧ Reporting m s := by
  obtain ⟨c, m, s₀, hc, hm, hs, hrun⟩ := exists_played quotingRegistry {}
    (.ofValue (pricedFlow "\x7b\x7b context.n \x7d\x7d" 5)) [.start] (fun m s => s.status = .active &&
      s.calls.any fun o => (valueOf? m s o).isSome) (by decide +kernel)
  rw [Bool.and_eq_true, decide_eq_true_eq, List.any_eq_true] at hrun
  obtain ⟨hactive, o, ho, hends⟩ := hrun
  obtain ⟨result, w, hstep⟩ := exists_of_valueOf? hends
  have hreached := reached_after (m := m) [.start] hs
  exact ⟨c, m, _, o, result, w, hc, hm, hreached, ho, hactive, hstep,
    reported_of_reached hc hm hreached⟩

/-- Whether the one call of an instance, by itself, ends since an integer has no double. -/
def endsTooLarge (m : Machine) (s : Instance) : Bool :=
  match s.calls with
  | [⟨_, _, _, .fresh i context event⟩] =>
    match ((CallState.run m.renderer i context event).run s.world).1 with
    | some (.error (.data (.arith .intTooLarge))) => true
    | _ => false
  | _ => false

theorem exists_of_endsTooLarge (h : endsTooLarge m s = true) : ∃ o i context event,
    s.calls = [o] ∧ o.state = .fresh i context event ∧
      ((CallState.run m.renderer i context event).run s.world).1 =
        some (.error (.data (.arith .intTooLarge))) := by
  unfold endsTooLarge at h
  split at h
  · rename_i hcalls
    split at h
    · rename_i hrun
      exact ⟨_, _, _, _, hcalls, rfl, hrun⟩
    · cases h
  · cases h

/-- A call whose input cannot be rendered ends with another failure than one of calls; the state that
waits for it hears nothing, although it has transitions for either end, and waits for ever. -/
theorem unheard_of_oversized : ∃ c m s₀ o i context event,
    compileSource quotingRegistry {}
        (.ofValue (pricedFlow "\x7b\x7b context.n | currency \x7d\x7d" (Int.pow 10 400))) = .ok c ∧
      m.graph = c.graph ∧ IsFresh m s₀ ∧ (after m [.start] s₀).calls = [o] ∧
      o.state = .fresh i context event ∧
      ((CallState.run m.renderer i context event).run (after m [.start] s₀).world).1 =
        some (.error (.data (.arith .intTooLarge))) ∧
      (after m [.start, .turn 0] s₀).state = "a" ∧
      (after m [.start, .turn 0] s₀).status = .active ∧
      (after m [.start, .turn 0] s₀).calls = [] ∧ (after m [.start, .turn 0] s₀).turns = [] ∧
      (after m [.start, .turn 0] s₀).alarms = [] ∧
      ∀ n id, (after m [.start, .turn 0] s₀).announced n (.call id) = 0 := by
  obtain ⟨c, m, s₀, hc, hm, hs, hrun⟩ := exists_played quotingRegistry {}
    (.ofValue (pricedFlow "\x7b\x7b context.n | currency \x7d\x7d" (Int.pow 10 400))) [] (fun m s =>
      let m := { m with renderer := .standard }
      let t := after m [.start, .turn 0] s
      endsTooLarge m (after m [.start] s) && t.state = "a" && t.status = .active && t.calls.isEmpty &&
        t.turns.isEmpty && t.alarms.isEmpty && t.journal.all (·.accepted?.isNone))
    (by decide +kernel)
  have hfirst : after m [] s₀ = s₀ := rfl
  rw [hfirst] at hrun
  simp only [Bool.and_eq_true, decide_eq_true_eq, List.isEmpty_iff] at hrun
  obtain ⟨⟨⟨⟨⟨⟨hends, hstate⟩, hactive⟩, hcalls⟩, hturns⟩, halarms⟩, hjournal⟩ := hrun
  obtain ⟨o, i, context, event, hopen, ho, hresult⟩ := exists_of_endsTooLarge hends
  refine ⟨c, { m with renderer := .standard }, s₀, o, i, context, event, hc, hm, hs, hopen, ho,
    hresult, hstate, hactive, hcalls, hturns, halarms, fun n id => ?_⟩
  have hnone : (after { m with renderer := .standard } [.start, .turn 0] s₀).journal.countP
      (·.accepts n (.call id)) = 0 := by
    rw [List.countP_eq_zero]
    intro x hx
    have hother := List.all_eq_true.mp hjournal x hx
    cases x with
    | accepted q => cases hother
    | _ => simp [Happening.accepts]
  rw [announced, hnone, halarms, hcalls]
  rfl

end Definition

end Statechart
