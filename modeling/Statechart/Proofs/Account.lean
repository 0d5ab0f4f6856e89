/-
# The account of timers and calls

What is pending at any moment of a run is what was started by the entry of a state and has not been
reported since.  Nothing here depends on whether something raises: the two invariants hold after every
part of every transition.

* `Instance.Recorded`: the journal of entries and exits agrees with the scopes that are open;
* `Instance.Accounted`: an errand is started once at most, and whatever is pending for it (its timer,
  its call, its event in the queue) or has been begun for it stands for that one start;
* **`Instance.recorded_of_reached`**, **`Instance.accounted_of_reached`**: both, for all runs.
-/
import Statechart.Proofs.Transition

namespace Statechart

/-! ## 1. Errands and their events -/

/-- An errand as states have it: timers are known by events of their own kind. -/
def Errand.IsProper : Errand → Prop
  | .timer event => ∃ rest, event = "xflows.after." ++ rest
  | .call _ => True

theorem append_ne_of_head {p q : String} {a b : Char} (hp : p.toList.head? = some a)
    (hq : q.toList.head? = some b) (hab : a ≠ b) (x y : String) : p ++ x ≠ q ++ y := by
  intro h
  have hheads := congrArg (·.toList.head?) h
  simp only [String.toList_append, List.head?_append, hp, hq, Option.some_or,
    Option.some.injEq] at hheads
  exact hab hheads

/-- No event of a timer reports a call. -/
theorem Errand.not_mem_reports_call {event : String} (he : (Errand.timer event).IsProper)
    (id : String) : event ∉ (Errand.call id).reports := by
  obtain ⟨rest, rfl⟩ := he
  intro h
  have hafter : "xflows.after.".toList.head? = some 'x' := by decide
  simp only [reports, List.mem_cons, List.not_mem_nil, or_false] at h
  rcases h with h | h
  · exact append_ne_of_head (q := "done.invoke.") (b := 'd') hafter (by decide) (by decide) rest id h
  · exact append_ne_of_head (q := "error.invoke.") (b := 'e') hafter (by decide) (by decide) rest id h

/-- **An event reports one errand at most.** -/
theorem Errand.eq_of_reports {e e' : Errand} (he : e.IsProper) (he' : e'.IsProper) {type : String}
    (h : type ∈ e.reports) (h' : type ∈ e'.reports) : e = e' := by
  cases e with
  | timer event =>
    obtain rfl : type = event := List.mem_singleton.mp h
    cases e' with
    | timer event' => rw [List.mem_singleton.mp h']
    | call id' => exact absurd h' (not_mem_reports_call he id')
  | call id =>
    cases e' with
    | timer event' =>
      obtain rfl : type = event' := List.mem_singleton.mp h'
      exact absurd h (not_mem_reports_call he' id)
    | call id' =>
      have hother : ∀ x y, Invocation.doneEventOf x ≠ Invocation.errorEventOf y :=
        append_ne_of_head (a := 'd') (b := 'e') (by decide) (by decide) (by decide)
      simp only [reports, List.mem_cons, List.not_mem_nil, or_false] at h h'
      rcases h with rfl | rfl <;> rcases h' with h' | h'
      · rw [(String.append_right_inj _).mp h']
      · exact absurd h' (hother id id')
      · exact absurd h'.symm (hother id' id)
      · rw [(String.append_right_inj _).mp h']

theorem Errand.contains_reports_timer {e : Errand} (he : e.IsProper) {type : String}
    (htype : (Errand.timer type).IsProper) :
    e.reports.contains type = decide (Errand.timer type = e) := by
  rw [Bool.eq_iff_iff, List.contains_iff_mem, decide_eq_true_eq]
  constructor
  · exact fun h => eq_of_reports htype he (List.mem_singleton.mpr rfl) h
  · rintro rfl
    exact List.mem_singleton.mpr rfl

theorem Graph.WellFormed.isProper_errands {g : Graph} (wf : g.WellFormed) {n : StateNode}
    (hn : n ∈ g.states) {e : Errand} (he : e ∈ n.errands) : e.IsProper := by
  rcases List.mem_append.mp he with he | he
  · obtain ⟨t, ht, rfl⟩ := List.mem_map.mp he
    exact wf.timer_event n hn t ht
  · obtain ⟨i, -, rfl⟩ := List.mem_map.mp he
    trivial

/-- A state starts no errand twice. -/
theorem Graph.WellFormed.nodup_errands {g : Graph} (wf : g.WellFormed) {n : StateNode}
    (hn : n ∈ g.states) : n.errands.Nodup := by
  refine List.nodup_append.mpr ⟨?_, ?_, ?_⟩
  · have h := wf.timers_distinct n hn
    have hmap : n.after.map (Errand.timer ·.event) = (n.after.map (·.event)).map Errand.timer := by
      rw [List.map_map]
      rfl
    rw [hmap]
    exact h.map fun a b hab => Errand.timer.inj hab
  · have h : (n.invokes.map (·.id)).Nodup := by
      obtain ⟨before, after, hcut⟩ := List.append_of_mem hn
      have hall := wf.invokes_distinct
      rw [hcut, List.flatMap_append, List.flatMap_cons, List.map_append, List.map_append] at hall
      exact (List.nodup_append.mp (List.nodup_append.mp hall).2.1).1
    have hmap : n.invokes.map (Errand.call ·.id) = (n.invokes.map (·.id)).map Errand.call := by
      rw [List.map_map]
      rfl
    rw [hmap]
    exact h.map fun a b hab => Errand.call.inj hab
  · rintro a ha b hb rfl
    obtain ⟨t, -, rfl⟩ := List.mem_map.mp ha
    obtain ⟨i, -, h⟩ := List.mem_map.mp hb
    cases h

/-- The scope of an entry. -/
def Happening.entry? : Happening → Option Scope
  | .entered c => some c
  | _ => none

/-- What is written down while scopes stay as they are. -/
def Happening.KeepsScopes : Happening → Prop
  | .entered _ | .left .. => False
  | _ => True

theorem Happening.IsRemark.keepsScopes {x : Happening} (h : x.IsRemark) : x.KeepsScopes := by
  cases x <;> first | exact h.elim | trivial

/-- Whether an alarm stands for an errand of a scope. -/
def Alarm.isOf (n : Nat) (e : Errand) (a : Alarm) : Bool :=
  match a.kind with
  | .event scope type => scope = n && e.reports.contains type
  | _ => false

/-- Whether a call stands for an errand of a scope. -/
def OpenCall.isOf (n : Nat) (e : Errand) (c : OpenCall) : Bool :=
  c.scope = n && e = .call c.invocation.id

/-- Whether an event reports an errand of a scope. -/
def Queued.isOf (n : Nat) (e : Errand) (q : Queued) : Bool :=
  q.scope = some n && e.reports.contains q.event.type

/-- Whether an event that reports an errand of a scope is begun. -/
def Happening.begins (n : Nat) (e : Errand) : Happening → Bool
  | .begun q => q.isOf n e
  | _ => false

/-- Whether an errand of a scope is started. -/
def Happening.arms (n : Nat) (e : Errand) : Happening → Bool
  | .armed k x => k = n && x = e
  | _ => false

/-- What is written down while nothing is started and nothing begun. -/
def Happening.KeepsAccounts : Happening → Prop
  | .begun _ | .armed .. => False
  | _ => True

theorem Happening.IsRemark.keepsAccounts {x : Happening} (h : x.IsRemark) : x.KeepsAccounts := by
  cases x <;> first | exact h.elim | trivial

theorem Happening.KeepsAccounts.arms_eq {x : Happening} (h : x.KeepsAccounts) (n : Nat)
    (e : Errand) : x.arms n e = false := by
  cases x <;> first | rfl | exact h.elim

theorem Happening.KeepsAccounts.begins_eq {x : Happening} (h : x.KeepsAccounts) (n : Nat)
    (e : Errand) : x.begins n e = false := by
  cases x <;> first | rfl | exact h.elim

namespace Instance

variable {m : Machine} {g : Graph} {s s' s₁ : Instance}

open Run

/-! ## 2. Entries and exits -/

/-- The journal of entries and exits agrees with what is open. -/
structure Recorded (s : Instance) : Prop where
  sorted : (s.journal.filterMap Happening.entry?).Pairwise (·.serial < ·.serial)
  entered_lt : ∀ c, .entered c ∈ s.journal → c.serial < s.serial
  left_lt : ∀ id n, .left id (some n) ∈ s.journal → n < s.serial
  scopes : ∀ c ∈ s.scopes, .entered c ∈ s.journal
  /-- A scope that is open has not been left. -/
  live : ∀ n ∈ s.live, ∀ id, .left id (some n) ∉ s.journal
  ended : ∀ status, .ended status ∈ s.journal → s.status ≠ .active

/-- No scope is opened, and those that are closed need no note. -/
theorem Recorded.of_less (hs : s.Recorded) {notes : List Happening}
    (hjournal : s'.journal = s.journal ++ notes) (hnotes : ∀ x ∈ notes, x.KeepsScopes)
    (hserial : s.serial ≤ s'.serial) (hscopes : s'.scopes ⊆ s.scopes) (hlive : s'.live ⊆ s.live)
    (hstatus : s'.status = s.status ∧ (∀ status, .ended status ∉ notes) ∨ s'.status ≠ .active) :
    s'.Recorded := by
  have hentered : ∀ c, .entered c ∈ s'.journal → .entered c ∈ s.journal := by
    intro c hc
    rw [hjournal] at hc
    exact (List.mem_append.mp hc).resolve_right fun h => hnotes _ h
  have hleft : ∀ id n, .left id n ∈ s'.journal → .left id n ∈ s.journal := by
    intro id n hn
    rw [hjournal] at hn
    exact (List.mem_append.mp hn).resolve_right fun h => hnotes _ h
  refine ⟨?_, fun c hc => ?_, fun id n hn => ?_, fun c hc => ?_, fun n hn id hmem => ?_,
    fun status hended => ?_⟩
  · have hnone : notes.filterMap Happening.entry? = [] := by
      rw [List.filterMap_eq_nil_iff]
      intro x hx
      have hkeeps := hnotes x hx
      cases x <;> first | rfl | exact hkeeps.elim
    rw [hjournal, List.filterMap_append, hnone, List.append_nil]
    exact hs.sorted
  · exact Nat.lt_of_lt_of_le (hs.entered_lt c (hentered c hc)) hserial
  · exact Nat.lt_of_lt_of_le (hs.left_lt id n (hleft id _ hn)) hserial
  · rw [hjournal]
    exact List.mem_append_left _ (hs.scopes c (hscopes hc))
  · exact hs.live n (hlive hn) id (hleft id _ hmem)
  · rcases hstatus with ⟨hsame, hnone⟩ | hended'
    · rw [hjournal] at hended
      rw [hsame]
      exact hs.ended status ((List.mem_append.mp hended).resolve_right (hnone status))
    · exact hended'

theorem Inert.recorded (h : Inert s s') (hs : s.Recorded) : s'.Recorded := by
  obtain ⟨_, _, _, _, _, notes, rfl, hnotes⟩ := h
  exact hs.of_less (Eq.refl _) (fun x hx => (hnotes x hx).keepsScopes) (Nat.le_refl _)
    (fun _ h => h) (fun _ h => h) (Or.inl ⟨Eq.refl _, fun _ h => (hnotes _ h).elim⟩)

theorem Arms.recorded {scope : Nat} {xs : List Errand} (h : Arms scope xs s s')
    (hs : s.Recorded) : s'.Recorded := by
  obtain ⟨_, _, _, _, rfl, hserial⟩ := h.frame
  refine hs.of_less rfl (fun x hx => ?_) hserial (fun _ h => h) (fun _ h => h)
    (Or.inl ⟨rfl, fun _ h => ?_⟩)
  · obtain ⟨e, -, rfl⟩ := List.mem_map.mp hx
    trivial
  · obtain ⟨e, -, he⟩ := List.mem_map.mp h
    cases he

theorem Recorded.openState (hs : s.Recorded) (id : String) : (openState id s).Recorded := by
  have hjournal : (Instance.openState id s).journal = s.journal ++ [.entered ⟨id, s.serial⟩] := rfl
  have hentered : ∀ c, .entered c ∈ (Instance.openState id s).journal →
      .entered c ∈ s.journal ∨ c = ⟨id, s.serial⟩ := by
    intro c hc
    rw [hjournal, List.mem_append, List.mem_singleton] at hc
    exact hc.imp_right Happening.entered.inj
  have hleft : ∀ i n, .left i n ∈ (Instance.openState id s).journal → .left i n ∈ s.journal := by
    intro i n hn
    rw [hjournal, List.mem_append, List.mem_singleton] at hn
    exact hn.resolve_right fun h => by cases h
  have hgrown : ∀ x ∈ s.journal, x ∈ (Instance.openState id s).journal := fun x hx => by
    rw [hjournal]
    exact List.mem_append_left _ hx
  refine ⟨?_, fun c hc => ?_, fun i n hn => ?_, fun c hc => ?_, fun n hn i hmem => ?_,
    fun status hended => ?_⟩
  · rw [hjournal, List.filterMap_append, List.pairwise_append]
    refine ⟨hs.sorted, List.pairwise_singleton _ _, fun c hc d hd => ?_⟩
    obtain ⟨x, hx, hentry⟩ := List.mem_filterMap.mp hc
    obtain rfl : d = ⟨id, s.serial⟩ := by simpa [Happening.entry?] using hd
    cases x <;> cases hentry
    exact hs.entered_lt c hx
  · rcases hentered c hc with hc | rfl
    · exact Nat.lt_succ_of_lt (hs.entered_lt c hc)
    · exact Nat.lt_succ_self s.serial
  · exact Nat.lt_succ_of_lt (hs.left_lt i n (hleft i _ hn))
  · change c ∈ (if _ then _ else _) at hc
    have hnew : .entered ⟨id, s.serial⟩ ∈ (Instance.openState id s).journal := by simp [hjournal]
    split at hc
    · obtain ⟨d, hd, rfl⟩ := List.mem_map.mp hc
      split
      · exact hnew
      · exact hgrown _ (hs.scopes d hd)
    · rcases List.mem_append.mp hc with hc | hc
      · exact hgrown _ (hs.scopes c hc)
      · exact (List.mem_singleton.mp hc) ▸ hnew
  · rcases List.mem_append.mp hn with hn | hn
    · exact hs.live n hn i (hleft i _ hmem)
    · rw [List.mem_singleton] at hn
      subst hn
      exact absurd (hs.left_lt i _ (hleft i _ hmem)) (Nat.lt_irrefl _)
  · rw [hjournal, List.mem_append, List.mem_singleton] at hended
    exact hs.ended status (hended.resolve_right fun h => by cases h)

theorem Recorded.of_left (hs : s.Recorded) {id : String} {scope : Option Nat}
    (hjournal : s'.journal = s.journal ++ [.left id scope]) (hserial : s'.serial = s.serial)
    (hscopes : s'.scopes ⊆ s.scopes) (hlive : s'.live ⊆ s.live) (hstatus : s'.status = s.status)
    (hscope : ∀ n, scope = some n → n < s.serial ∧ n ∉ s'.live) : s'.Recorded := by
  have hentered : ∀ c, .entered c ∈ s'.journal → .entered c ∈ s.journal := by
    intro c hc
    rw [hjournal, List.mem_append, List.mem_singleton] at hc
    exact hc.resolve_right fun h => by cases h
  have hleft : ∀ i n, .left i n ∈ s'.journal → .left i n ∈ s.journal ∨ n = scope := by
    intro i n hn
    rw [hjournal, List.mem_append, List.mem_singleton] at hn
    exact hn.imp_right fun h => (Happening.left.inj h).2
  refine ⟨?_, fun c hc => ?_, fun i n hn => ?_, fun c hc => ?_, fun n hn i hmem => ?_,
    fun status hended => ?_⟩
  · have hnone : [Happening.left id scope].filterMap Happening.entry? = [] := rfl
    rw [hjournal, List.filterMap_append, hnone, List.append_nil]
    exact hs.sorted
  · exact hserial ▸ hs.entered_lt c (hentered c hc)
  · rw [hserial]
    rcases hleft i _ hn with hn | hn
    · exact hs.left_lt i n hn
    · exact (hscope n hn.symm).1
  · rw [hjournal]
    exact List.mem_append_left _ (hs.scopes c (hscopes hc))
  · rcases hleft i _ hmem with hmem | hmem
    · exact hs.live n (hlive hn) i hmem
    · exact (hscope n hmem.symm).2 hn
  · rw [hjournal, List.mem_append, List.mem_singleton] at hended
    rw [hstatus]
    exact hs.ended status (hended.resolve_right fun h => by cases h)

/-- Leaving a state closes its scope. -/
theorem Recorded.closeState (hs : s.Recorded) (hnumbered : s.Numbered) (id : String) :
    (closeState id s).Recorded := by
  cases hscope : (s.scopes.find? (·.state = id)).map (·.serial) with
  | none =>
    have hclose : Instance.closeState id s =
        { s with
          scopes := s.scopes.filter (·.state ≠ id), active := s.active.erase id
          journal := s.journal ++ [.left id none] } := by
      simp only [Instance.closeState, hscope]
    rw [hclose]
    exact hs.of_left rfl rfl (fun _ h => (List.mem_filter.mp h).1) (fun _ h => h) rfl
      fun n hn => by cases hn
  | some n =>
    have hclose : Instance.closeState id s =
        { s.closeScope n with
          scopes := s.scopes.filter (·.state ≠ id), active := s.active.erase id
          journal := s.journal ++ [.left id (some n)] } := by
      obtain ⟨_, _, _, _, hframe, -⟩ := closeScope_frame n s
      simp only [Instance.closeState, hscope]
      rw [hframe]
    obtain ⟨c, hc, rfl⟩ := Option.map_eq_some_iff.mp hscope
    have hlive : (s.closeScope c.serial).live = s.live.filter (· ≠ c.serial) := live_closeScope _ s
    obtain ⟨_, _, _, _, hframe, -⟩ := closeScope_frame c.serial s
    rw [hclose]
    refine hs.of_left rfl ?_ (fun _ h => (List.mem_filter.mp h).1) (fun k hk => ?_) ?_
      fun k hk => ⟨?_, ?_⟩
    · rw [hframe]
    · exact (List.mem_filter.mp (hlive ▸ hk : k ∈ s.live.filter _)).1
    · rw [hframe]
    · cases hk
      exact hnumbered.scope_lt c (List.mem_of_find?_eq_some hc)
    · cases hk
      show c.serial ∉ (s.closeScope c.serial).live
      rw [hlive]
      simp

theorem Part.recorded (h : Part g s s') (hnumbered : s.Numbered) (hs : s.Recorded) :
    s'.Recorded := by
  cases h with
  | remark h => exact h.recorded hs
  | entry _ h _ h' => exact h'.recorded (h.recorded (hs.openState _))
  | exit id => exact hs.closeState hnumbered id
  | ending =>
    obtain ⟨_, _, _, _, hclose, hlive, -⟩ := closeAll_frame s
    rw [finish, hclose]
    exact hs.of_less rfl (fun x hx => (List.mem_singleton.mp hx) ▸ trivial) (Nat.le_refl _)
      (List.nil_subset _) hlive.subset (Or.inr fun h => by cases h)

theorem Parts.recorded (h : Parts g s s') (hnumbered : s.Numbered) (hs : s.Recorded) :
    s'.Recorded := by
  induction h with
  | refl => exact hs
  | tail hparts hp ih => exact hp.recorded (Parts.numbered hparts hnumbered) ih

theorem received_cases (scope : Nat) (e : Event) (s : Instance) :
    s.received scope e = s ∨ s.received scope e = enqueue ⟨e, some scope⟩ s := by
  unfold received
  split
  · exact Or.inr rfl
  · exact Or.inl rfl

theorem Step.recorded (h : Step m s s') (hnumbered : s.Numbered) (hs : s.Recorded) :
    s'.Recorded := by
  have hquiet : ∀ s' : Instance, s'.journal = s.journal → s'.serial = s.serial →
      s'.scopes = s.scopes → s'.live = s.live → s'.status = s.status → s'.Recorded := by
    intro s' hjournal hserial hscopes hlive hstatus
    have hjournal' : s'.journal = s.journal ++ [] := by rw [hjournal, List.append_nil]
    exact hs.of_less hjournal' (by simp) (Nat.le_of_eq hserial.symm)
      (fun _ h => hscopes ▸ h) (fun _ h => hlive ▸ h) (Or.inl ⟨hstatus, by simp⟩)
  have hnote : ∀ (t : Instance) x, t.Recorded → x.KeepsScopes → (∀ status, x ≠ .ended status) →
      (t.note x).Recorded := fun t x ht hx hnone =>
    ht.of_less rfl (fun y hy => (List.mem_singleton.mp hy) ▸ hx) (Nat.le_refl _) (fun _ h => h)
      (fun _ h => h) (Or.inl ⟨rfl, fun status h => hnone status (List.mem_singleton.mp h).symm⟩)
  have hreceived : ∀ (scope : Nat) (e : Event) (t : Instance), t.Recorded →
      (t.received scope e).Recorded := by
    intro scope e t ht
    rcases received_cases scope e t with h | h
    · rwa [h]
    · rw [h]
      exact hnote _ _ ⟨ht.sorted, ht.entered_lt, ht.left_lt, ht.scopes, ht.live, ht.ended⟩ trivial
        (fun _ h => by cases h)
  cases h with
  | aside h =>
    cases h with
    | quiet => exact hquiet _ rfl rfl rfl rfl rfl
    | told | missed => exact hnote _ _ hs trivial (fun _ h => by cases h)
  | waited | resumed | vanished | cleared => exact hquiet _ rfl rfl rfl rfl rfl
  | looked e => exact (inert_select m e s).recorded hs
  | opened =>
    refine (parts_enterFirst (m := m) { s with started := true }).recorded ?_ ?_
    · exact hnumbered.sublist rfl (.refl _) (.refl _) (.refl _)
    · exact hquiet _ rfl rfl rfl rfl rfl
  | accepted | dropped | begun | through =>
    exact hnote _ _ (hquiet _ rfl rfl rfl rfl rfl) trivial (fun _ h => by cases h)
  | fired => exact hreceived _ _ _ (hquiet _ rfl rfl rfl rfl rfl)
  | reported => exact hreceived _ _ _ (hquiet _ rfl rfl rfl rfl rfl)
  | processed e => exact (parts_process e s).recorded hnumbered hs
  | stopped =>
    obtain ⟨_, _, _, _, hclose, hlive, -⟩ := closeAll_frame s
    rw [hclose]
    exact hs.of_less rfl (fun x hx => (List.mem_singleton.mp hx) ▸ trivial) (Nat.le_refl _)
      (List.nil_subset _) hlive.subset (Or.inr fun h => by cases h)

/-- **The journal of entries and exits agrees with what is open**, in every run. -/
theorem recorded_of_reached (h : Reached m s) : s.Recorded := by
  obtain ⟨s₀, hfresh, hsteps⟩ := h
  induction hsteps with
  | refl =>
    obtain ⟨_, _, _, _, rfl⟩ := eq_of_fresh hfresh
    exact ⟨.nil, by simp, by simp, by simp, by simp, by simp⟩
  | tail hsteps hstep ih => exact hstep.recorded (numbered_of_reached ⟨s₀, hfresh, hsteps⟩) ih

/-! ## 3. Accounts -/

/-- How often an errand of a scope is pending or has been reported. -/
def weight (n : Nat) (e : Errand) (s : Instance) : Nat :=
  s.alarms.countP (·.isOf n e) + s.calls.countP (·.isOf n e) + s.queue.countP (·.isOf n e) +
    s.journal.countP (·.begins n e)

/-- How often an errand of a scope has been started. -/
def armedFor (n : Nat) (e : Errand) (s : Instance) : Nat := s.journal.countP (·.arms n e)

/-- Everything pending stands for an errand that has been started, and nothing is started twice. -/
structure Accounted (s : Instance) : Prop where
  timers : ∀ a ∈ s.alarms, ∀ n type, a.kind = .event n type → (Errand.timer type).IsProper
  queue : ∀ q ∈ s.queue, ∀ n, q.scope = some n → ∃ e : Errand, e.IsProper ∧ q.event.type ∈ e.reports
  armed : ∀ n e, .armed n e ∈ s.journal → e.IsProper ∧ ∃ id, .entered ⟨id, n⟩ ∈ s.journal
  weight_le : ∀ n (e : Errand), e.IsProper → s.weight n e ≤ s.armedFor n e
  once : ∀ n e, s.armedFor n e ≤ 1

theorem countP_arms_eq_zero {notes : List Happening} (hnotes : ∀ x ∈ notes, x.KeepsAccounts)
    (n : Nat) (e : Errand) : notes.countP (·.arms n e) = 0 := by
  rw [List.countP_eq_zero]
  exact fun x hx => by simp [(hnotes x hx).arms_eq n e]

theorem countP_begins_eq_zero {notes : List Happening} (hnotes : ∀ x ∈ notes, x.KeepsAccounts)
    (n : Nat) (e : Errand) : notes.countP (·.begins n e) = 0 := by
  rw [List.countP_eq_zero]
  exact fun x hx => by simp [(hnotes x hx).begins_eq n e]

/-- Nothing is started, and nothing weighs more than before. -/
theorem Accounted.of_weight (hs : s.Accounted) (notes : List Happening)
    (hjournal : s'.journal = s.journal ++ notes) (hnotes : ∀ x ∈ notes, ∀ n e, x ≠ .armed n e)
    (htimers : ∀ a ∈ s'.alarms, ∀ n type, a.kind = .event n type → (Errand.timer type).IsProper)
    (hqueue : ∀ q ∈ s'.queue, ∀ n, q.scope = some n →
      ∃ e : Errand, e.IsProper ∧ q.event.type ∈ e.reports)
    (hweight : ∀ n (e : Errand), e.IsProper → s'.weight n e ≤ s.weight n e) : s'.Accounted := by
  have harmed : ∀ n e, s'.armedFor n e = s.armedFor n e := by
    intro n e
    have hnone : notes.countP (·.arms n e) = 0 := by
      rw [List.countP_eq_zero]
      intro x hx harms
      cases x with
      | armed k y => exact hnotes _ hx k y rfl
      | _ => cases harms
    rw [armedFor, hjournal, List.countP_append, hnone]
    rfl
  refine ⟨htimers, hqueue, fun n e he => ?_, fun n e he => ?_, fun n e => ?_⟩
  · rw [hjournal, List.mem_append] at he
    obtain ⟨hproper, id, hid⟩ := hs.armed n e (he.resolve_right fun h => hnotes _ h n e rfl)
    exact ⟨hproper, id, hjournal ▸ List.mem_append_left _ hid⟩
  · rw [harmed]
    exact Nat.le_trans (hweight n e he) (hs.weight_le n e he)
  · rw [harmed]
    exact hs.once n e

/-- Less is pending, and nothing is started or begun. -/
theorem Accounted.of_less (hs : s.Accounted) {notes : List Happening}
    (hjournal : s'.journal = s.journal ++ notes) (hnotes : ∀ x ∈ notes, x.KeepsAccounts)
    (halarms : s'.alarms.Sublist s.alarms) (hcalls : s'.calls.Sublist s.calls)
    (hqueue : s'.queue.Sublist s.queue) : s'.Accounted := by
  refine hs.of_weight notes hjournal (fun x hx n e he => ?_)
    (fun a ha => hs.timers a (halarms.subset ha)) (fun q hq => hs.queue q (hqueue.subset hq))
    fun n e _ => ?_
  · subst he
    exact hnotes _ hx
  · have hlight : s'.alarms.countP (·.isOf n e) ≤ s.alarms.countP (·.isOf n e) :=
      halarms.countP_le
    have hlight' : s'.calls.countP (·.isOf n e) ≤ s.calls.countP (·.isOf n e) := hcalls.countP_le
    have hlight'' : s'.queue.countP (·.isOf n e) ≤ s.queue.countP (·.isOf n e) :=
      hqueue.countP_le
    simp only [weight, hjournal, List.countP_append, countP_begins_eq_zero hnotes]
    omega

/-- Less is pending, and nothing is written down. -/
theorem Accounted.of_quiet (hs : s.Accounted) (hjournal : s'.journal = s.journal)
    (halarms : s'.alarms.Sublist s.alarms) (hcalls : s'.calls.Sublist s.calls)
    (hqueue : s'.queue.Sublist s.queue) : s'.Accounted := by
  have hjournal' : s'.journal = s.journal ++ [] := by rw [hjournal, List.append_nil]
  exact hs.of_less hjournal' (by simp) halarms hcalls hqueue

theorem Accounted.noted (hs : s.Accounted) {x : Happening} (hx : x.KeepsAccounts) :
    (s.note x).Accounted :=
  hs.of_less (Eq.refl _) (fun _ hy => (List.mem_singleton.mp hy) ▸ hx) (.refl _) (.refl _) (.refl _)

theorem Inert.armedFor_eq (h : Inert s s') (n : Nat) (e : Errand) :
    s'.armedFor n e = s.armedFor n e := by
  obtain ⟨_, _, _, _, _, notes, rfl, hnotes⟩ := h
  have hnone := countP_arms_eq_zero (fun x hx => (hnotes x hx).keepsAccounts) n e
  simp only [armedFor, List.countP_append, hnone, Nat.add_zero]

theorem Inert.accounted (h : Inert s s') (hs : s.Accounted) : s'.Accounted := by
  obtain ⟨_, _, _, _, _, notes, rfl, hnotes⟩ := h
  exact hs.of_less (Eq.refl _) (fun x hx => (hnotes x hx).keepsAccounts) (.refl _) (.refl _) (.refl _)

section Arm

variable {scope : Nat} {x : Errand}

theorem Arm.journal (h : Arm scope x s s') : s'.journal = s.journal ++ [.armed scope x] := by
  cases h <;> rfl

theorem Arm.armedFor_eq (h : Arm scope x s s') (n : Nat) (e : Errand) :
    s'.armedFor n e = s.armedFor n e + if scope = n ∧ x = e then 1 else 0 := by
  rw [armedFor, h.journal, List.countP_append]
  by_cases hsame : scope = n ∧ x = e <;> simp [armedFor, Happening.arms, hsame]

/-- What is started is pending from now on. -/
theorem Arm.weight_eq (h : Arm scope x s s') (hx : x.IsProper) (n : Nat) {e : Errand}
    (he : e.IsProper) : s'.weight n e = s.weight n e + if scope = n ∧ x = e then 1 else 0 := by
  cases h with
  | timer due type s =>
    have hof : (Alarm.mk due (.event scope type)).isOf n e =
        decide (scope = n ∧ Errand.timer type = e) := by
      rw [Bool.decide_and, ← Errand.contains_reports_timer he hx]
      rfl
    have hbegins : (Happening.armed scope (.timer type)).begins n e = false := rfl
    simp only [weight, note, List.countP_append, List.countP_singleton, hof, hbegins,
      decide_eq_true_eq, Bool.false_eq_true, if_false]
    omega
  | call ev i s =>
    have hof : (OpenCall.mk s.serial scope i (.fresh i s.context ev.value)).isOf n e =
        decide (scope = n ∧ Errand.call i.id = e) := by
      rw [Bool.decide_and, OpenCall.isOf]
      congr 2
      exact propext eq_comm
    have hbegins : (Happening.armed scope (.call i.id)).begins n e = false := rfl
    simp only [weight, openCall, List.countP_append, List.countP_singleton, hof, hbegins,
      decide_eq_true_eq, Bool.false_eq_true, if_false]
    omega

/-- **An errand that is started for the first time** is put to its account. -/
theorem Arm.accounted (h : Arm scope x s s') (hx : x.IsProper) (hnew : s.armedFor scope x = 0)
    (hscope : ∃ id, .entered ⟨id, scope⟩ ∈ s.journal) (hs : s.Accounted) : s'.Accounted := by
  refine ⟨?_, ?_, fun n e he => ?_, fun n e he => ?_, fun n e => ?_⟩
  · cases h with
    | timer due type s =>
      intro a ha n type' hkind
      rcases List.mem_append.mp ha with ha | ha
      · exact hs.timers a ha n type' hkind
      · rw [List.mem_singleton] at ha
        subst ha
        cases hkind
        exact hx
    | call => exact hs.timers
  · cases h <;> exact hs.queue
  · rw [h.journal, List.mem_append, List.mem_singleton] at he
    rw [h.journal]
    rcases he with he | he
    · obtain ⟨hproper, id, hid⟩ := hs.armed n e he
      exact ⟨hproper, id, List.mem_append_left _ hid⟩
    · cases he
      obtain ⟨id, hid⟩ := hscope
      exact ⟨hx, id, List.mem_append_left _ hid⟩
  · rw [h.weight_eq hx n he, h.armedFor_eq]
    have hle := hs.weight_le n e he
    omega
  · rw [h.armedFor_eq]
    split
    · rename_i hsame
      rw [← hsame.1, ← hsame.2, hnew]
    · exact hs.once n e

/-- **The work of a scope is put to its account**, errand by errand. -/
theorem Arms.accounted {xs : List Errand} (h : Arms scope xs s s')
    (hproper : ∀ x ∈ xs, x.IsProper) (hnodup : xs.Nodup)
    (hnew : ∀ x ∈ xs, s.armedFor scope x = 0) (hscope : ∃ id, .entered ⟨id, scope⟩ ∈ s.journal)
    (hs : s.Accounted) : s'.Accounted := by
  induction h with
  | nil => exact hs
  | @cons x xs s s₁ s₂ harm _ ih =>
    obtain ⟨hfirst, hother⟩ := List.nodup_cons.mp hnodup
    have hs₁ := harm.accounted (hproper x List.mem_cons_self) (hnew x List.mem_cons_self) hscope hs
    have hscope₁ : ∃ id, .entered ⟨id, scope⟩ ∈ s₁.journal :=
      hscope.imp fun _ hid => harm.journal ▸ List.mem_append_left _ hid
    refine ih (fun y hy => hproper y (List.mem_cons_of_mem _ hy)) hother (fun y hy => ?_) hscope₁ hs₁
    have hne : ¬ (scope = scope ∧ x = y) := fun hsame => hfirst (hsame.2 ▸ hy)
    rw [harm.armedFor_eq, if_neg hne, hnew y (List.mem_cons_of_mem _ hy)]

end Arm

theorem Part.accounted (wf : g.WellFormed) (h : Part g s s') (hrecorded : s.Recorded)
    (hs : s.Accounted) : s'.Accounted := by
  cases h with
  | remark h => exact h.accounted hs
  | @entry _ s₁ _ node done hnode h hdone h' =>
    have hjournal : (openState node.id s).journal = s.journal ++ [.entered ⟨node.id, s.serial⟩] := rfl
    have hopened : (openState node.id s).Accounted :=
      hs.of_less hjournal (fun x hx => (List.mem_singleton.mp hx) ▸ trivial) (.refl _) (.refl _)
        (.refl _)
    -- no errand can have been started for a scope that is new
    have hnew : ∀ x, s₁.armedFor s.serial x = 0 := by
      intro x
      rw [h.armedFor_eq, armedFor, hjournal, List.countP_eq_zero]
      intro y hy harms
      rcases List.mem_append.mp hy with hy | hy
      · cases y with
        | armed k e =>
          simp only [Happening.arms, Bool.and_eq_true, decide_eq_true_eq] at harms
          obtain ⟨-, id, hid⟩ := hs.armed k e hy
          have hlt : k < s.serial := hrecorded.entered_lt _ hid
          omega
        | _ => cases harms
      · rw [List.mem_singleton] at hy
        subst hy
        cases harms
    exact h'.accounted (fun x hx => wf.isProper_errands hnode (hdone.subset hx))
      ((wf.nodup_errands hnode).sublist hdone.sublist) (fun x _ => hnew x)
      ⟨node.id, h.grown.subset (List.mem_append_right _ List.mem_cons_self)⟩ (h.accounted hopened)
  | exit id =>
    obtain ⟨_, _, _, _, _, _, _, hclose, halarms, hcalls⟩ := closeState_frame id s
    rw [hclose]
    exact hs.of_less rfl (fun x hx => (List.mem_singleton.mp hx) ▸ trivial) halarms hcalls (.refl _)
  | ending =>
    obtain ⟨_, _, _, _, hclose, -, halarms, hcalls, -⟩ := closeAll_frame s
    rw [finish, hclose]
    exact hs.of_less rfl (fun x hx => (List.mem_singleton.mp hx) ▸ trivial) halarms hcalls (.refl _)

theorem Parts.accounted (wf : g.WellFormed) (h : Parts g s s') (hnumbered : s.Numbered)
    (hrecorded : s.Recorded) (hs : s.Accounted) : s'.Accounted := by
  induction h with
  | refl => exact hs
  | tail hparts hp ih => exact hp.accounted wf (Parts.recorded hparts hnumbered hrecorded) ih

/-! ## 4. Accounts along a run -/

/-- Alarms that are not of timers weigh nothing. -/
theorem countP_timers (n : Nat) (e : Errand) (as : List Alarm) :
    as.countP (·.isOf n e) = (as.filter (·.kind.isTimer)).countP (·.isOf n e) := by
  rw [List.countP_filter]
  refine List.countP_congr fun a _ => ?_
  cases hkind : a.kind <;> simp [Alarm.isOf, AlarmKind.isTimer, hkind]

/-- A call that goes on weighs what it did. -/
theorem countP_resumed (hs : s.Numbered) {c : OpenCall} (hc : c ∈ s.calls) (state : CallState)
    (n : Nat) (e : Errand) :
    (s.calls.map fun d => if d.serial = c.serial then { c with state } else d).countP (·.isOf n e) =
      s.calls.countP (·.isOf n e) := by
  rw [List.countP_map]
  refine List.countP_congr fun d hd => ?_
  by_cases hsame : d.serial = c.serial
  · obtain rfl : d = c := List.inj_on_of_nodup_map hs.calls_nodup hd hc hsame
    simp [OpenCall.isOf]
  · simp [hsame]

/-- A call that has ended weighs nothing any more. -/
theorem countP_ended {c : OpenCall} (hc : c ∈ s.calls) {n : Nat} {e : Errand}
    (he : c.isOf n e = true) :
    (s.calls.filter (·.serial ≠ c.serial)).countP (·.isOf n e) + 1 ≤
      s.calls.countP (·.isOf n e) := by
  obtain ⟨before, after, hcut⟩ := List.append_of_mem hc
  have hbefore : (before.filter (·.serial ≠ c.serial)).countP (·.isOf n e) ≤
      before.countP (·.isOf n e) := List.filter_sublist.countP_le
  have hafter : (after.filter (·.serial ≠ c.serial)).countP (·.isOf n e) ≤
      after.countP (·.isOf n e) := List.filter_sublist.countP_le
  have hgone : (c :: after).filter (·.serial ≠ c.serial) = after.filter (·.serial ≠ c.serial) :=
    List.filter_cons_of_neg (by simp)
  rw [hcut, List.filter_append, hgone]
  simp only [List.countP_append, List.countP_cons, he, if_true]
  omega

/-- **An event of a timer or a call takes over the weight** of what it reports. -/
theorem Accounted.received (hs : s.Accounted) {t : Instance} {scope : Nat} {e : Event}
    (hjournal : t.journal = s.journal) (hqueue : t.queue = s.queue)
    (halarms : t.alarms.Sublist s.alarms) (hcalls : t.calls.Sublist s.calls)
    (hreports : ∃ x : Errand, x.IsProper ∧ e.type ∈ x.reports)
    (hlighter : ∀ n (x : Errand), x.IsProper → (Queued.mk e (some scope)).isOf n x = true →
      t.weight n x + 1 ≤ s.weight n x) :
    (t.received scope e).Accounted := by
  have hless : t.Accounted := hs.of_quiet hjournal halarms hcalls (hqueue ▸ List.Sublist.refl _)
  rcases received_cases scope e t with h | h
  · rwa [h]
  · rw [h]
    refine hs.of_weight [.accepted ⟨e, some scope⟩] (by simp [enqueue, note, hjournal])
      (by simp) (fun a ha => hless.timers a ha) (fun q hq n hn => ?_) fun n x hx => ?_
    · rcases List.mem_append.mp hq with hq | hq
      · exact hless.queue q hq n hn
      · exact (List.mem_singleton.mp hq) ▸ hreports
    · have hweight : (enqueue ⟨e, some scope⟩ t).weight n x =
          t.weight n x + if (Queued.mk e (some scope)).isOf n x = true then 1 else 0 := by
        have hbegins : (Happening.accepted ⟨e, some scope⟩).begins n x = false := rfl
        simp only [weight, enqueue, note, List.countP_append, List.countP_singleton, hbegins,
          Bool.false_eq_true, if_false]
        omega
      rw [hweight]
      split
      · rename_i hof
        exact hlighter n x hx hof
      · have hle : t.weight n x ≤ s.weight n x := by
          have hlight : t.alarms.countP (·.isOf n x) ≤ s.alarms.countP (·.isOf n x) :=
            halarms.countP_le
          have hlight' : t.calls.countP (·.isOf n x) ≤ s.calls.countP (·.isOf n x) :=
            hcalls.countP_le
          simp only [weight, hjournal, hqueue]
          omega
        exact hle

/-- Alarms change that are not of timers. -/
theorem Accounted.waited (hs : s.Accounted) {alarms : List Alarm}
    (hsame : alarms.filter (·.kind.isTimer) = s.alarms.filter (·.kind.isTimer)) :
    { s with alarms }.Accounted := by
  refine hs.of_weight [] (by simp) (by simp) (fun a ha n type hkind => ?_) hs.queue fun n e _ => ?_
  · have hmem : a ∈ s.alarms.filter (·.kind.isTimer) :=
      hsame ▸ List.mem_filter.mpr ⟨ha, by rw [hkind]; rfl⟩
    exact hs.timers a (List.mem_filter.mp hmem).1 n type hkind
  · simp only [weight]
    rw [countP_timers n e alarms, hsame, ← countP_timers]

/-- An event of the host belongs to no scope. -/
theorem Accounted.accepted (hs : s.Accounted) (e : Event) : (enqueue ⟨e, none⟩ s).Accounted := by
  refine hs.of_weight [.accepted ⟨e, none⟩] rfl (by simp) hs.timers (fun q hq n hn => ?_)
    fun n x _ => ?_
  · rcases List.mem_append.mp hq with hq | hq
    · exact hs.queue q hq n hn
    · rw [List.mem_singleton] at hq
      subst hq
      cases hn
  · have hof : (Queued.mk e none).isOf n x = false := rfl
    have hbegins : (Happening.accepted ⟨e, none⟩).begins n x = false := rfl
    simp only [weight, enqueue, note, List.countP_append, List.countP_singleton, hof, hbegins,
      Bool.false_eq_true, if_false]
    omega

/-- The event of a timer takes the place of its alarm. -/
theorem Accounted.fired (hs : s.Accounted) {a : Alarm} {scope : Nat} {type : String}
    (ha : a ∈ s.alarms) (hkind : a.kind = .event scope type) :
    ({ s with alarms := s.alarms.erase a }.received scope (.ofType type)).Accounted := by
  refine hs.received rfl rfl List.erase_sublist (.refl _)
    ⟨.timer type, hs.timers a ha scope type hkind, List.mem_singleton.mpr rfl⟩ fun n x _ hof => ?_
  have hof' : a.isOf n x = true := by
    have htype : (Event.ofType type).type = type := rfl
    rw [Alarm.isOf, hkind]
    simpa [Queued.isOf, htype] using hof
  have hcount : (s.alarms.erase a).countP (·.isOf n x) + 1 = s.alarms.countP (·.isOf n x) := by
    rw [(List.perm_cons_erase ha).countP_eq, List.countP_cons, if_pos hof']
  simp only [weight]
  omega

/-- The report of a call takes the place of the call. -/
theorem Accounted.reported (hs : s.Accounted) {c : OpenCall} {e : Event} (hc : c ∈ s.calls)
    (hreports : e.type ∈ (Errand.call c.invocation.id).reports) :
    ({ s with calls := s.calls.filter (·.serial ≠ c.serial) }.received c.scope e).Accounted := by
  refine hs.received rfl rfl (.refl _) List.filter_sublist
    ⟨.call c.invocation.id, trivial, hreports⟩ fun n x hx hof => ?_
  simp only [Queued.isOf, Bool.and_eq_true, decide_eq_true_eq, List.contains_iff_mem,
    Option.some.injEq] at hof
  obtain rfl : x = .call c.invocation.id := Errand.eq_of_reports hx trivial hof.2 hreports
  have hof' : c.isOf n (.call c.invocation.id) = true := by simp [OpenCall.isOf, hof.1]
  have hcount := countP_ended hc hof'
  simp only [weight]
  omega

/-- An event that is begun takes its own place. -/
theorem Accounted.begun (hs : s.Accounted) {q : Queued} {rest : List Queued}
    (hqueue : s.queue = q :: rest) :
    ({ s with queue := rest }.note (.begun q)).Accounted := by
  refine hs.of_weight [.begun q] rfl (by simp) hs.timers (fun p hp => ?_) fun n x _ => ?_
  · exact hs.queue p (hqueue ▸ List.mem_cons_of_mem _ hp)
  · have hbegins : (Happening.begun q).begins n x = q.isOf n x := rfl
    simp only [weight, note, hqueue, List.countP_append, List.countP_cons,
      List.countP_nil, hbegins]
    omega

/-- **A step keeps the accounts**, whether something raises or not. -/
theorem Step.accounted (wf : m.graph.WellFormed) (h : Step m s s') (hnumbered : s.Numbered)
    (hrecorded : s.Recorded) (hs : s.Accounted) : s'.Accounted := by
  cases h with
  | aside h =>
    cases h with
    | quiet => exact hs.of_quiet rfl (.refl _) (.refl _) (.refl _)
    | told | missed => exact hs.noted trivial
  | waited alarms hsame => exact hs.waited hsame
  | @resumed _ c state hc =>
    refine hs.of_weight [] (by simp) (by simp) hs.timers hs.queue fun n e _ => ?_
    simp only [weight]
    rw [countP_resumed hnumbered hc]
  | looked e => exact (inert_select m e s).accounted hs
  | opened =>
    refine (parts_enterFirst (m := m) { s with started := true }).accounted wf ?_ ?_ ?_
    · exact hnumbered.sublist rfl (.refl _) (.refl _) (.refl _)
    · exact ⟨hrecorded.sorted, hrecorded.entered_lt, hrecorded.left_lt, hrecorded.scopes,
        hrecorded.live, hrecorded.ended⟩
    · exact hs.of_quiet rfl (.refl _) (.refl _) (.refl _)
  | accepted e => exact hs.accepted e
  | fired ha hkind => exact hs.fired ha hkind
  | vanished => exact hs.of_quiet rfl (.refl _) List.filter_sublist (.refl _)
  | reported hc hreports => exact hs.reported hc hreports
  | cleared => exact hs.of_quiet rfl (.refl _) (.refl _) (List.nil_sublist _)
  | @dropped _ q rest hqueue =>
    have hless : { s with queue := rest }.Accounted :=
      hs.of_quiet rfl (.refl _) (.refl _) (hqueue ▸ List.sublist_cons_self q rest)
    exact hless.noted trivial
  | begun hqueue => exact hs.begun hqueue
  | processed e => exact (parts_process e s).accounted wf hnumbered hrecorded hs
  | through => exact hs.noted trivial
  | stopped =>
    obtain ⟨_, _, _, _, hclose, -, halarms, hcalls, -⟩ := closeAll_frame s
    rw [hclose]
    refine Accounted.noted ?_ trivial
    exact hs.of_quiet rfl halarms hcalls (List.nil_sublist _)

/-- **Whatever is pending stands for an errand that was started once**, in every run. -/
theorem accounted_of_reached (wf : m.graph.WellFormed) (h : Reached m s) : s.Accounted := by
  obtain ⟨s₀, hfresh, hsteps⟩ := h
  induction hsteps with
  | refl =>
    obtain ⟨_, _, _, _, rfl⟩ := eq_of_fresh hfresh
    exact ⟨by simp, by simp, by simp, by simp [weight], by simp [armedFor]⟩
  | tail hsteps hstep ih =>
    exact hstep.accounted wf (numbered_of_reached ⟨s₀, hfresh, hsteps⟩)
      (recorded_of_reached ⟨s₀, hfresh, hsteps⟩) ih

end Instance

end Statechart
