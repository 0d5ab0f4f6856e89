/-
# The events of timers and calls

An event of a timer or a call belongs to the scope that an entry of a state has opened.  Whether that
scope is still open is asked twice, when the event is received and when its turn comes, and in between
anything may happen.  What a run may rely on is said about its journal: whatever event of a scope is
begun, everything before it shows that the entry has not been left.

* `Instance.Begins`: what the journal shows before an event of a scope is begun;
* `Instance.Latest`: a scope that is open belongs to the last entry of its state.  It takes a run in
  which nothing raises: a transition that breaks off can forget a state without leaving it;
* **`Definition.begun_of_run`**: all this for all runs, and that no errand is reported twice.
-/
import Statechart.Proofs.Account
import Statechart.Proofs.Configuration

namespace Statechart

/-- The event that is begun. -/
def Happening.begun? : Happening → Option Queued
  | .begun q => some q
  | _ => none

theorem Happening.eq_of_begun? {x : Happening} {q : Queued} (h : x.begun? = some q) :
    x = .begun q := by
  cases x <;> cases h
  rfl

theorem Happening.eq_of_entry? {x : Happening} {c : Scope} (h : x.entry? = some c) :
    x = .entered c := by
  cases x <;> cases h
  rfl

namespace Instance

variable {m : Machine} {g : Graph} {s s' s₁ : Instance}

/-! ## 1. The order of entries -/

/-- Entries of a later scope are later. -/
theorem serial_lt_of_since {earlier since : List Happening} {c d : Scope}
    (h : ((earlier ++ .entered c :: since).filterMap Happening.entry?).Pairwise
      (·.serial < ·.serial)) (hd : .entered d ∈ since) : c.serial < d.serial := by
  have hcut : (.entered c :: since).filterMap Happening.entry? =
      c :: since.filterMap Happening.entry? := rfl
  rw [List.filterMap_append, hcut] at h
  have hrest := (List.pairwise_append.mp h).2.1
  exact (List.pairwise_cons.mp hrest).1 d (List.mem_filterMap.mpr ⟨_, hd, rfl⟩)

/-- A scope is entered once. -/
theorem Recorded.eq_of_serial (hs : s.Recorded) {c d : Scope} (hc : .entered c ∈ s.journal)
    (hd : .entered d ∈ s.journal) (h : c.serial = d.serial) : c = d := by
  have hnodup : ((s.journal.filterMap Happening.entry?).map (·.serial)).Nodup :=
    List.pairwise_map.mpr (hs.sorted.imp fun hlt => Nat.ne_of_lt hlt)
  exact List.inj_on_of_nodup_map hnodup (List.mem_filterMap.mpr ⟨_, hc, rfl⟩)
    (List.mem_filterMap.mpr ⟨_, hd, rfl⟩) h

/-- A scope that is open belongs to the last entry of its state. -/
def Latest (s : Instance) : Prop :=
  ∀ c ∈ s.scopes, ∀ d, .entered d ∈ s.journal → d.state = c.state → d.serial ≤ c.serial

theorem Rests.latest (h : Rests g s s') (hs : s.Latest) : s'.Latest := by
  obtain ⟨-, -, hscopes, notes, hjournal, hnotes⟩ := h
  intro c hc d hd
  have hd' : .entered d ∈ s.journal := by
    rw [hjournal] at hd
    exact (List.mem_append.mp hd).resolve_right fun h => hnotes _ h
  rcases hscopes with ⟨-, hsame, -⟩ | ⟨-, hnone, -⟩
  · exact hs c (hsame ▸ hc) d hd'
  · rw [hnone] at hc
    cases hc

/-- **States are entered anew only after they have been left.** -/
theorem Arrival.latest {node : StateNode} {kept opened : List Scope} (wf : g.WellFormed)
    (h : Arrival g node kept opened s s') (hkept : kept ⊆ s.scopes) (hrecorded : s.Recorded)
    (hs : s.Latest) : s'.Latest := by
  have hnodup : ((kept ++ opened).map (·.state)).Nodup := by
    rw [List.map_append]
    exact wf.nodup_pathTo h.path
  obtain ⟨notes, hjournal, hnotes⟩ := h.noted
  have hentered : ∀ d, .entered d ∈ s'.journal → .entered d ∈ s.journal ∨ d ∈ opened := by
    intro d hd
    rw [hjournal] at hd
    exact (List.mem_append.mp hd).imp_right fun h => hnotes (.entered d) h
  cases hfinal : node.isFinal with
  | true =>
    intro c hc
    rw [(h.ended hfinal).2.1] at hc
    cases hc
  | false =>
    intro c hc d hd hstate
    rw [(h.running hfinal).2.1] at hc
    rcases hentered d hd with hold | hnew
    · rcases List.mem_append.mp hc with hc | hc
      · exact hs c (hkept hc) d hold hstate
      · exact Nat.le_of_lt (Nat.lt_of_lt_of_le (hrecorded.entered_lt d hold) (h.fresh c hc))
    · obtain rfl : d = c :=
        List.inj_on_of_nodup_map hnodup (List.mem_append_right _ hnew) hc hstate
      exact Nat.le_refl _

/-- **Open scopes belong to last entries**, as long as nothing raises. -/
theorem latest_of_reached (wf : m.graph.WellFormed) (h : Reached m s) (hcalm : s.Calm)
    (hactive : s.status = .active) : s.Latest := by
  obtain ⟨s₀, hfresh, hsteps⟩ := h
  induction hsteps with
  | refl =>
    obtain ⟨_, _, _, _, rfl⟩ := eq_of_fresh hfresh
    exact fun c hc => by cases hc
  | @tail s₁ s₂ hsteps hstep ih =>
    have hcalm₁ := hcalm.of_grown hstep.grown
    have hactive₁ : s₁.status = .active := Decidable.byContradiction fun h => hstep.ended h hactive
    have hreached : Reached m s₁ := ⟨s₀, hfresh, hsteps⟩
    have hrecorded := recorded_of_reached hreached
    have hs₁ := ih hcalm₁ hactive₁
    rcases standing_of_reached wf hreached hcalm₁ with hblank | hstanding | hended
    · rcases hstep.blank hblank with hblank' | hfirst
      · intro c hc
        rw [hblank'.scopes] at hc
        cases hc
      · rw [hfirst] at hcalm ⊢
        obtain ⟨node, opened, harrival⟩ := arrival_enterFirst wf hblank hcalm
        exact harrival.latest wf (List.nil_subset _) hrecorded hs₁
    · rcases hstep.rests_or_transition wf hstanding hcalm with
          hrests | ⟨-, lastEvent, world, c, target, node, kept, gone, opened, htransition⟩
      · exact hrests.latest hs₁
      · refine htransition.toArrival.latest wf ?_ ?_ hs₁
        · rw [htransition.scopes]
          exact List.subset_append_left _ _
        · exact ⟨hrecorded.sorted, hrecorded.entered_lt, hrecorded.left_lt, hrecorded.scopes,
            hrecorded.live, hrecorded.ended⟩
    · exact absurd hactive₁ hended

/-! ## 2. Closed scopes -/

/-- An entry whose scope is closed has been left, unless the instance has ended. -/
def Tracked (s : Instance) : Prop :=
  ∀ c, .entered c ∈ s.journal → c.serial ∈ s.live ∨ (∃ id, .left id (some c.serial) ∈ s.journal) ∨
    ∃ status, .ended status ∈ s.journal

/-- What is entered is open, and what is closed is left, or all comes to an end. -/
theorem Tracked.of_noted (hs : s.Tracked) {notes : List Happening}
    (hjournal : s'.journal = s.journal ++ notes) (hnew : ∀ c, .entered c ∈ notes → c.serial ∈ s'.live)
    (hlive : ∀ n ∈ s.live, n ∈ s'.live ∨ (∃ id, .left id (some n) ∈ notes) ∨
      ∃ status, .ended status ∈ notes) : s'.Tracked := by
  intro c hc
  rw [hjournal] at hc ⊢
  rcases List.mem_append.mp hc with hc | hc
  · rcases hs c hc with hopen | ⟨id, hleft⟩ | ⟨status, hended⟩
    · rcases hlive _ hopen with hopen | ⟨id, hleft⟩ | ⟨status, hended⟩
      · exact Or.inl hopen
      · exact Or.inr (Or.inl ⟨id, List.mem_append_right _ hleft⟩)
      · exact Or.inr (Or.inr ⟨status, List.mem_append_right _ hended⟩)
    · exact Or.inr (Or.inl ⟨id, List.mem_append_left _ hleft⟩)
    · exact Or.inr (Or.inr ⟨status, List.mem_append_left _ hended⟩)
  · exact Or.inl (hnew c hc)

/-- Leaving a state closes the scope that is noted, and no other. -/
theorem live_closeState (id : String) (s : Instance) :
    ∃ scope, (closeState id s).journal = s.journal ++ [.left id scope] ∧
      ∀ n ∈ s.live, n ∈ (closeState id s).live ∨ scope = some n := by
  unfold closeState
  dsimp only
  split
  · rename_i k hscope
    have hlive : (s.closeScope k).live = s.live.filter (· ≠ k) := live_closeScope k s
    obtain ⟨_, _, _, _, hframe, -⟩ := closeScope_frame k s
    refine ⟨some k, by rw [hframe, hscope], fun n hn => ?_⟩
    by_cases hsame : n = k
    · exact Or.inr (congrArg some hsame.symm)
    · refine Or.inl ?_
      rw [hlive]
      exact List.mem_filter.mpr ⟨hn, by simpa using hsame⟩
  · rename_i hscope
    exact ⟨none, by rw [hscope], fun n hn => Or.inl hn⟩

theorem Part.tracked (h : Part g s s') (hs : s.Tracked) : s'.Tracked := by
  cases h with
  | remark h =>
    obtain ⟨_, _, _, _, _, notes, rfl, hnotes⟩ := h
    exact hs.of_noted rfl (fun c hc => (hnotes _ hc).elim) fun n hn => Or.inl hn
  | @entry _ s₁ _ node done _ h _ h' =>
    obtain ⟨_, _, _, _, _, notes, rfl, hnotes⟩ := h
    obtain ⟨_, _, _, _, rfl, -⟩ := h'.frame
    refine hs.of_noted (show _ = s.journal ++
        (.entered ⟨node.id, s.serial⟩ :: notes ++ done.map (.armed s.serial)) by simp [openState])
      (fun c hc => ?_) fun n hn => Or.inl (List.mem_append_left _ hn)
    simp only [List.cons_append, List.mem_cons, List.mem_append, List.mem_map] at hc
    rcases hc with hc | hc | ⟨e, -, hc⟩
    · cases hc
      exact List.mem_append_right _ List.mem_cons_self
    · exact (hnotes _ hc).elim
    · cases hc
  | exit id =>
    obtain ⟨scope, hjournal, hlive⟩ := live_closeState id s
    refine hs.of_noted hjournal (by simp) fun n hn => (hlive n hn).imp_right fun h => ?_
    exact Or.inl ⟨id, by simp [h]⟩
  | ending =>
    obtain ⟨_, _, _, _, hclose, -⟩ := closeAll_frame s
    rw [finish, hclose]
    exact hs.of_noted rfl (by simp) fun n _ => Or.inr (Or.inr ⟨.done, List.mem_cons_self⟩)

theorem Parts.tracked (h : Parts g s s') (hs : s.Tracked) : s'.Tracked := by
  induction h with
  | refl => exact hs
  | tail _ hp ih => exact hp.tracked ih

theorem Step.tracked (h : Step m s s') (hs : s.Tracked) : s'.Tracked := by
  have hquiet : ∀ s' : Instance, s'.journal = s.journal → s'.live = s.live → s'.Tracked := by
    intro s' hjournal hlive
    exact hs.of_noted (by rw [hjournal, List.append_nil]) (by simp) fun n hn => Or.inl (hlive ▸ hn)
  have hnoted : ∀ (s' : Instance) x, s'.journal = s.journal ++ [x] → x.KeepsScopes →
      s'.live = s.live → s'.Tracked := by
    intro s' x hjournal hx hlive
    refine hs.of_noted hjournal (fun c hc => ?_) fun n hn => Or.inl (hlive ▸ hn)
    rw [← List.mem_singleton.mp hc] at hx
    exact hx.elim
  cases h with
  | aside h =>
    cases h with
    | quiet => exact hquiet _ rfl rfl
    | told | missed => exact hnoted _ _ rfl trivial rfl
  | waited | resumed | vanished | cleared => exact hquiet _ rfl rfl
  | looked e =>
    obtain ⟨_, _, _, _, _, notes, h, hnotes⟩ := inert_select m e s
    rw [h]
    exact hs.of_noted rfl (fun c hc => (hnotes _ hc).elim) fun n hn => Or.inl hn
  | opened => exact (parts_enterFirst (m := m) { s with started := true }).tracked hs
  | accepted | dropped | begun | through => exact hnoted _ _ rfl trivial rfl
  | fired | reported =>
    rcases received_cases _ _ _ with h | h
    · rw [h]
      exact hquiet _ rfl rfl
    · rw [h]
      exact hnoted _ _ rfl trivial rfl
  | processed e => exact (parts_process e s).tracked hs
  | stopped =>
    obtain ⟨_, _, _, _, hclose, -⟩ := closeAll_frame s
    rw [hclose]
    exact hs.of_noted rfl (by simp) fun n _ => Or.inr (Or.inr ⟨.stopped, List.mem_cons_self⟩)

/-- **An entry whose scope is closed has been left**, in every run that goes on. -/
theorem tracked_of_reached (h : Reached m s) : s.Tracked := by
  obtain ⟨s₀, hfresh, hsteps⟩ := h
  induction hsteps with
  | refl =>
    obtain ⟨_, _, _, _, rfl⟩ := eq_of_fresh hfresh
    simp [Tracked]
  | tail _ hstep ih => exact hstep.tracked ih

/-! ## 3. Events that are begun -/

/-- What the journal shows before an event of a scope is begun. -/
structure Begins (before : List Happening) (q : Queued) (n : Nat) : Prop where
  /-- The scope is that of an entry, and the event reports what was started with it. -/
  started : ∃ id e, .entered ⟨id, n⟩ ∈ before ∧ .armed n e ∈ before ∧ q.event.type ∈ e.reports
  /-- That entry has not been left since, -/
  inside : ∀ id, .left id (some n) ∉ before
  /-- nor has the instance ended. -/
  running : ∀ status, .ended status ∉ before
  /-- If the state has been entered again since, something has raised. -/
  current : ∀ earlier id since, before = earlier ++ .entered ⟨id, n⟩ :: since →
    ∀ k, .entered ⟨id, k⟩ ∈ since → ∃ o f, o ≠ .guard ∧ .raised o f ∈ before

/-- Parts of transitions begin no events. -/
theorem Part.notes (h : Part g s s') :
    ∃ notes, s'.journal = s.journal ++ notes ∧ ∀ q, .begun q ∉ notes := by
  cases h with
  | remark h =>
    obtain ⟨_, _, _, _, _, notes, rfl, hnotes⟩ := h
    exact ⟨notes, rfl, fun q hq => hnotes _ hq⟩
  | @entry _ s₁ _ node done _ h _ h' =>
    obtain ⟨_, _, _, _, _, notes, rfl, hnotes⟩ := h
    obtain ⟨_, _, _, _, rfl, -⟩ := h'.frame
    refine ⟨.entered ⟨node.id, s.serial⟩ :: notes ++ done.map (.armed s.serial),
      by simp [openState], fun q hq => ?_⟩
    simp only [List.cons_append, List.mem_cons, List.mem_append, List.mem_map] at hq
    rcases hq with hq | hq | ⟨e, -, hq⟩
    · cases hq
    · exact hnotes _ hq
    · cases hq
  | exit id =>
    obtain ⟨_, _, _, _, _, _, _, hclose, -⟩ := closeState_frame id s
    exact ⟨_, by rw [hclose], by simp⟩
  | ending =>
    obtain ⟨_, _, _, _, hclose, -⟩ := closeAll_frame s
    exact ⟨_, by rw [finish, hclose]; rfl, by simp⟩

theorem Parts.notes (h : Parts g s s') :
    ∃ notes, s'.journal = s.journal ++ notes ∧ ∀ q, .begun q ∉ notes := by
  induction h with
  | refl => exact ⟨[], by simp, by simp⟩
  | tail _ hp ih =>
    obtain ⟨notes, hjournal, hnotes⟩ := ih
    obtain ⟨notes', hjournal', hnotes'⟩ := hp.notes
    refine ⟨notes ++ notes', by rw [hjournal', hjournal, List.append_assoc], fun q hq => ?_⟩
    exact (List.mem_append.mp hq).elim (hnotes q) (hnotes' q)

/-- **An event is begun by a step of its own**, while it is the first in the queue, its scope is open
and the instance runs. -/
theorem Step.notes (h : Step m s s') :
    (∃ q, s'.journal = s.journal ++ [.begun q] ∧ q ∈ s.queue ∧ s.status = .active ∧
      q.scope.all s.isLive = true) ∨
    ∃ notes, s'.journal = s.journal ++ notes ∧ ∀ q, .begun q ∉ notes := by
  have hreceived : ∀ (scope : Nat) (e : Event) (t : Instance), t.journal = s.journal →
      ∃ notes, (t.received scope e).journal = s.journal ++ notes ∧ ∀ q, .begun q ∉ notes := by
    intro scope e t hjournal
    rcases received_cases scope e t with h | h
    · exact ⟨[], by rw [h, hjournal, List.append_nil], by simp⟩
    · exact ⟨[.accepted ⟨e, some scope⟩], by simp [h, enqueue, note, hjournal], by simp⟩
  cases h with
  | aside h =>
    cases h with
    | quiet => exact Or.inr ⟨[], by simp, by simp⟩
    | told | missed => exact Or.inr ⟨[_], rfl, by simp⟩
  | waited | resumed | vanished | cleared => exact Or.inr ⟨[], by simp, by simp⟩
  | looked e =>
    obtain ⟨_, _, _, _, _, notes, h, hnotes⟩ := inert_select m e s
    exact Or.inr ⟨notes, by rw [h], fun q hq => hnotes _ hq⟩
  | opened => exact Or.inr (parts_enterFirst (m := m) { s with started := true }).notes
  | accepted | dropped | through => exact Or.inr ⟨[_], rfl, by simp⟩
  | fired => exact Or.inr (hreceived _ _ _ rfl)
  | reported => exact Or.inr (hreceived _ _ _ rfl)
  | begun hqueue hactive hlive =>
    exact Or.inl ⟨_, rfl, hqueue ▸ List.mem_cons_self, hactive, hlive⟩
  | processed e => exact Or.inr (parts_process e s).notes
  | stopped =>
    obtain ⟨_, _, _, _, hclose, -⟩ := closeAll_frame s
    exact Or.inr ⟨[.ended .stopped], by rw [hclose]; rfl, by simp⟩

/-- An event of a scope that is in the queue is pending for an errand, which must have been started. -/
theorem Accounted.exists_started (hs : s.Accounted) {q : Queued} {n : Nat} (hqueue : q ∈ s.queue)
    (hscope : q.scope = some n) :
    ∃ id e, .entered ⟨id, n⟩ ∈ s.journal ∧ .armed n e ∈ s.journal ∧ q.event.type ∈ e.reports := by
  obtain ⟨e, hproper, hreports⟩ := hs.queue q hqueue n hscope
  have hpending : 0 < s.queue.countP (·.isOf n e) :=
    List.countP_pos_iff.mpr ⟨q, hqueue, by simp [Queued.isOf, hscope, hreports]⟩
  have hweight := hs.weight_le n e hproper
  have harmed : 0 < s.journal.countP (·.arms n e) := by
    simp only [weight, armedFor] at hweight
    omega
  obtain ⟨x, hx, harms⟩ := List.countP_pos_iff.mp harmed
  cases x with
  | armed k y =>
    simp only [Happening.arms, Bool.and_eq_true, decide_eq_true_eq] at harms
    obtain ⟨rfl, rfl⟩ := harms
    obtain ⟨-, id, hid⟩ := hs.armed k y hx
    exact ⟨id, y, hid, hx, hreports⟩
  | _ => cases harms

/-- **What is known when an event of a scope is begun.** -/
theorem begins_of_reached (wf : m.graph.WellFormed) (h : Reached m s) {q : Queued} {n : Nat}
    (hqueue : q ∈ s.queue) (hactive : s.status = .active) (hscope : q.scope = some n)
    (hlive : q.scope.all s.isLive = true) : Begins s.journal q n := by
  have hrecorded := recorded_of_reached h
  have haccounted := accounted_of_reached wf h
  have hopen : n ∈ s.live := by
    rw [hscope] at hlive
    simpa [isLive] using hlive
  refine ⟨haccounted.exists_started hqueue hscope, fun id => hrecorded.live n hopen id,
    fun status hended => hrecorded.ended status hended hactive,
    fun earlier id since hcut k hk => ?_⟩
  by_cases hcalm : s.Calm
  · rcases standing_of_reached wf h hcalm with hblank | hstanding | hended
    · rw [hblank.live] at hopen
      cases hopen
    · obtain ⟨-, hserials, -⟩ := hstanding.settled.running hactive
      obtain ⟨c, hc, rfl⟩ := List.mem_map.mp (hserials ▸ hopen : n ∈ s.scopes.map (·.serial))
      have hmem : .entered ⟨id, c.serial⟩ ∈ s.journal := hcut ▸ by simp
      have hmem' : .entered ⟨id, k⟩ ∈ s.journal := by
        rw [hcut]
        exact List.mem_append_right _ (List.mem_cons_of_mem _ hk)
      have hsame := hrecorded.eq_of_serial hmem (hrecorded.scopes c hc) rfl
      have hstate : id = c.state := congrArg Scope.state hsame
      have hle : k ≤ c.serial := latest_of_reached wf h hcalm hactive c hc _ hmem' hstate
      have hlt := serial_lt_of_since (hcut ▸ hrecorded.sorted) hk
      exact absurd hle (Nat.not_le.mpr hlt)
    · exact absurd hactive hended
  · simp only [Calm, not_forall] at hcalm
    obtain ⟨o, f, hraised, ho⟩ := hcalm
    exact ⟨o, f, ho, hraised⟩

/-- What has been begun was begun before notes that begin nothing. -/
theorem begun_before {before js notes : List Happening} {q : Queued}
    (h : before ++ [.begun q] <+: js ++ notes) (hnotes : .begun q ∉ notes) :
    before ++ [.begun q] <+: js := by
  rcases List.prefix_or_prefix_of_prefix h (List.prefix_append js notes) with hold | ⟨more, hmore⟩
  · exact hold
  · rcases List.eq_nil_or_concat more with rfl | ⟨init, x, rfl⟩
    · rw [List.append_nil] at hmore
      exact hmore ▸ List.prefix_rfl
    · obtain ⟨rest, hrest⟩ := h
      rw [← hmore, List.append_assoc, List.append_cancel_left_eq] at hrest
      rw [List.concat_eq_append, ← List.append_assoc] at hmore
      obtain ⟨-, hlast⟩ := List.append_inj' hmore rfl
      refine absurd ?_ hnotes
      rw [← hrest, ← List.singleton_inj.mp hlast]
      simp

/-- **Every event of a scope that a run has begun** belonged to an entry that had not been left. -/
theorem begins_of_begun (wf : m.graph.WellFormed) (h : Reached m s) :
    ∀ before q n, before ++ [.begun q] <+: s.journal → q.scope = some n → Begins before q n := by
  obtain ⟨s₀, hfresh, hsteps⟩ := h
  induction hsteps with
  | refl =>
    obtain ⟨_, _, _, _, rfl⟩ := eq_of_fresh hfresh
    intro before q n hbegins
    simp at hbegins
  | @tail s₁ s₂ hsteps hstep ih =>
    intro before q n hbegins hscope
    have hreached : Reached m s₁ := ⟨s₀, hfresh, hsteps⟩
    rcases hstep.notes with ⟨p, hjournal, hqueue, hactive, hlive⟩ | ⟨notes, hjournal, hnotes⟩
    · rw [hjournal, List.prefix_concat_iff] at hbegins
      rcases hbegins with heq | hold
      · obtain ⟨rfl, hlast⟩ := List.append_inj' heq rfl
        cases hlast
        exact begins_of_reached wf hreached hqueue hactive hscope hlive
      · exact ih before q n hold hscope
    · rw [hjournal] at hbegins
      exact ih before q n (begun_before hbegins (hnotes q)) hscope

end Instance

namespace Definition

open Instance

variable {registry : Registry} {config : Config} {source : FlowSource} {c : Compiled} {m : Machine}

/-! ## 4. Runs of definitions -/

/-- **An event of a timer or a call is begun only for an entry that has not been left**, while the
instance runs, and at most once for each errand of an entry: for every definition that compiles, and
whatever raises.  If the state has been entered anew meanwhile, something has raised before. -/
theorem begun_of_run (h : compileSource registry config source = .ok c) (hm : m.graph = c.graph)
    {s₀ : Instance} (hs : IsFresh m s₀) (os : List Operation) :
    (∀ before q rest n, (after m os s₀).journal = before ++ .begun q :: rest → q.scope = some n →
      Begins before q n) ∧
    ∀ n e, .armed n e ∈ (after m os s₀).journal →
      (after m os s₀).journal.countP (·.begins n e) ≤ 1 := by
  have wf : m.graph.WellFormed := hm ▸ wellFormed_graph h
  have hreached := reached_after os hs
  refine ⟨fun before q rest n hcut hscope => ?_, fun n e harmed => ?_⟩
  · refine begins_of_begun wf hreached before q n ?_ hscope
    rw [hcut]
    exact ⟨rest, by simp⟩
  · have haccounted := accounted_of_reached wf hreached
    have hweight := haccounted.weight_le n e (haccounted.armed n e harmed).1
    have honce := haccounted.once n e
    simp only [weight] at hweight
    omega

/-- A call that goes on once, and has ended then. -/
def endsAtOnce (_ : CallState) : StateM World CallStep :=
  pure (.finished (.ok { value := .null, attempts := 1 }))

/-- The end of a call is reported to the state that started it. -/
theorem begun_of_run_nested : ∃ c m s₀,
    compileSource (.bare {}) {} (.ofValue nestedFlow) = .ok c ∧ m.graph = c.graph ∧ IsFresh m s₀ ∧
      (∃ q, .begun q ∈ (after m [.start, .send (.text "GO"), .proceed 3 endsAtOnce] s₀).journal ∧
        q.scope = some 2) ∧
      ((∀ before q rest n,
          (after m [.start, .send (.text "GO"), .proceed 3 endsAtOnce] s₀).journal =
            before ++ .begun q :: rest → q.scope = some n → Begins before q n) ∧
        ∀ n e, .armed n e ∈ (after m [.start, .send (.text "GO"), .proceed 3 endsAtOnce] s₀).journal →
          (after m [.start, .send (.text "GO"), .proceed 3 endsAtOnce] s₀).journal.countP
            (·.begins n e) ≤ 1) := by
  obtain ⟨c, m, s₀, hc, hm, hs, hrun⟩ := exists_played (.bare {}) {} (.ofValue nestedFlow)
    [.start, .send (.text "GO"), .proceed 3 endsAtOnce]
    (fun _ s => s.journal.any fun x => x.begun?.any (·.scope = some 2)) (by decide +kernel)
  obtain ⟨x, hx, hbegun⟩ := List.any_eq_true.mp hrun
  obtain ⟨q, hq, hscope⟩ := (Option.any_eq_true _ _).mp hbegun
  rw [Happening.eq_of_begun? hq] at hx
  exact ⟨c, m, s₀, hc, hm, hs, ⟨q, hx, of_decide_eq_true hscope⟩, begun_of_run hc hm hs _⟩

/-- A list, cut at two of its members. -/
theorem eq_append_of_getElem? {α : Type} {xs : List α} {i j : Nat} {x y : α}
    (hx : xs[i]? = some x) (hy : xs[i + 1 + j]? = some y) :
    xs = xs.take i ++ x :: ((xs.drop (i + 1)).take j ++ y :: (xs.drop (i + 1)).drop (j + 1)) := by
  have hcut : ∀ (ys : List α) k z, ys[k]? = some z → ys = ys.take k ++ z :: ys.drop (k + 1) := by
    intro ys k z h
    obtain ⟨hk, rfl⟩ := List.getElem?_eq_some_iff.mp h
    rw [← List.drop_eq_getElem_cons hk, List.take_append_drop]
  rw [← hcut (xs.drop (i + 1)) j y (by rw [List.getElem?_drop, hy]), ← hcut xs i x hx]

/-- After a transition that broke off, a state can be entered anew without having been left, and the
end of a call of its earlier entry is begun. -/
theorem begun_of_earlier_entry : ∃ c m s₀ q,
    compileSource raisingRegistry {} (.ofValue raisingExitFlow) = .ok c ∧ m.graph = c.graph ∧
      IsFresh m s₀ ∧ ∃ before since rest,
        (after m [.start, .send (.text "OUT"), .send (.text "GO"), .send (.text "AGAIN"),
            .proceed 4 endsAtOnce] s₀).journal =
          before ++ .entered ⟨"a.b.d", 3⟩ :: (since ++ .begun q :: rest) ∧
        .entered ⟨"a.b.d", 5⟩ ∈ since ∧ q.scope = some 3 := by
  obtain ⟨c, m, s₀, hc, hm, hs, hrun⟩ := exists_played raisingRegistry {} (.ofValue raisingExitFlow)
    [.start, .send (.text "OUT"), .send (.text "GO"), .send (.text "AGAIN"), .proceed 4 endsAtOnce]
    (fun _ s => s.journal[11]?.bind Happening.entry? = some ⟨"a.b.d", 3⟩ &&
      s.journal[16]?.bind Happening.entry? = some ⟨"a.b.d", 5⟩ &&
      (s.journal[20]?.bind Happening.begun?).any (·.scope = some 3)) (by decide +kernel)
  simp only [Bool.and_eq_true, decide_eq_true_eq] at hrun
  obtain ⟨⟨hfirst, hagain⟩, hlast⟩ := hrun
  obtain ⟨x, hx, hentry⟩ := Option.bind_eq_some_iff.mp hfirst
  obtain ⟨y, hy, hentry'⟩ := Option.bind_eq_some_iff.mp hagain
  obtain ⟨q, hbegun, hscope⟩ := (Option.any_eq_true _ _).mp hlast
  obtain ⟨z, hz, hq⟩ := Option.bind_eq_some_iff.mp hbegun
  rw [Happening.eq_of_entry? hentry] at hx
  rw [Happening.eq_of_entry? hentry'] at hy
  rw [Happening.eq_of_begun? hq] at hz
  refine ⟨c, m, s₀, q, hc, hm, hs, _, _, _, eq_append_of_getElem? (i := 11) (j := 8) hx hz, ?_,
    of_decide_eq_true hscope⟩
  rw [List.mem_iff_getElem?]
  exact ⟨4, by rw [List.getElem?_take_of_lt (by decide), List.getElem?_drop, hy]⟩

end Definition

end Statechart
