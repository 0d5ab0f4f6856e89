/-
# Serial numbers and the journal

Two facts that every step keeps, whatever raises on the way.

* **The journal only grows** (`Steps.grown`): what has happened stays on record.
* **Serial numbers are given once** (`Steps.numbered`): scopes and calls that are open carry different
  numbers, all of them given before.

Each is shown for the parts of a transition first, then for the steps of a run.
-/
import Statechart.Proofs.Operation
import Mathlib.Data.List.Nodup

namespace Statechart

namespace Instance

variable {m : Machine} {g : Graph} {s s' : Instance}

/-! ## 1. The journal -/

theorem grown_note (x : Happening) (s : Instance) : s.journal <+: (s.note x).journal :=
  List.prefix_append _ _

theorem Inert.grown (h : Inert s s') : s.journal <+: s'.journal := by
  obtain ⟨_, _, _, _, _, notes, rfl, _⟩ := h
  exact List.prefix_append _ _

theorem Arms.grown {scope : Nat} {xs : List Errand} (h : Arms scope xs s s') :
    s.journal <+: s'.journal := by
  induction h with
  | nil => exact List.prefix_rfl
  | cons harm _ ih =>
    refine List.IsPrefix.trans ?_ ih
    cases harm <;> exact List.prefix_append _ _

theorem closeScope_frame (n : Nat) (s : Instance) :
    ∃ live alarms calls turns, s.closeScope n = { s with live, alarms, calls, turns } ∧
      live.Sublist s.live ∧ alarms.Sublist s.alarms ∧ calls.Sublist s.calls ∧ s.turns <+: turns :=
  closeScopes_frame [⟨"", n⟩] s

theorem closeState_frame (id : String) (s : Instance) :
    ∃ live alarms calls turns scopes active scope, closeState id s =
        { s with live, alarms, calls, turns, scopes, active
                 journal := s.journal ++ [.left id scope] } ∧
      alarms.Sublist s.alarms ∧ calls.Sublist s.calls := by
  unfold closeState
  dsimp only
  split
  · rename_i n _
    obtain ⟨live, alarms, calls, turns, h, -, halarms, hcalls, -⟩ := closeScope_frame n s
    rw [h]
    exact ⟨live, alarms, calls, turns, _, _, _, rfl, halarms, hcalls⟩
  · exact ⟨s.live, s.alarms, s.calls, s.turns, _, _, _, rfl, .refl _, .refl _⟩

theorem closeAll_frame (s : Instance) :
    ∃ live alarms calls turns,
      s.closeAll = { s with live, alarms, calls, turns, scopes := [] } ∧
        live.Sublist s.live ∧ alarms.Sublist s.alarms ∧ calls.Sublist s.calls ∧
          s.turns <+: turns := by
  obtain ⟨live, alarms, calls, turns, h, hless⟩ := closeScopes_frame s.scopes s
  exact ⟨live, alarms, calls, turns, by rw [closeAll, h], hless⟩

theorem Part.grown (h : Part g s s') : s.journal <+: s'.journal := by
  cases h with
  | remark h => exact h.grown
  | entry _ h _ h' => exact (List.prefix_append _ _).trans (h.grown.trans h'.grown)
  | exit id =>
    obtain ⟨_, _, _, _, _, _, _, h, -⟩ := closeState_frame id s
    rw [h]
    exact List.prefix_append _ _
  | ending =>
    obtain ⟨_, _, _, _, h, -⟩ := closeAll_frame s
    rw [finish, h]
    exact List.prefix_append _ _

theorem Parts.grown (h : Parts g s s') : s.journal <+: s'.journal := by
  induction h with
  | refl => exact List.prefix_rfl
  | tail _ hp ih => exact ih.trans hp.grown

theorem received_grown (scope : Nat) (e : Event) (s : Instance) :
    s.journal <+: (s.received scope e).journal := by
  unfold received
  split
  · exact List.prefix_append _ _
  · exact List.prefix_rfl

theorem Step.grown (h : Step m s s') : s.journal <+: s'.journal := by
  cases h with
  | aside h =>
    cases h with
    | quiet => exact List.prefix_rfl
    | told | missed => exact grown_note _ _
  | waited | resumed | vanished | cleared => exact List.prefix_rfl
  | looked e => exact (inert_select m e s).grown
  | opened => exact (parts_enterFirst { s with started := true }).grown
  | accepted | dropped | begun | through => exact List.prefix_append _ _
  | @fired _ a scope type =>
    exact received_grown scope _ { s with alarms := s.alarms.erase a }
  | @reported _ c e =>
    exact received_grown c.scope e { s with calls := s.calls.filter (·.serial ≠ c.serial) }
  | processed e => exact (parts_process e s).grown
  | stopped =>
    obtain ⟨_, _, _, _, h, -⟩ := closeAll_frame s
    rw [h]
    exact List.prefix_append _ _

/-- **The journal only grows.** -/
theorem Steps.grown (h : Steps m s s') : s.journal <+: s'.journal := by
  induction h with
  | refl => exact List.prefix_rfl
  | tail _ hstep ih => exact ih.trans hstep.grown

/-! ## 2. Serial numbers -/

/-- Open scopes and calls carry different numbers, all of them given before. -/
structure Numbered (s : Instance) : Prop where
  live_lt : ∀ n ∈ s.live, n < s.serial
  live_nodup : s.live.Nodup
  scope_lt : ∀ c ∈ s.scopes, c.serial < s.serial
  call_lt : ∀ c ∈ s.calls, c.serial < s.serial
  calls_nodup : (s.calls.map (·.serial)).Nodup

/-- Less that is open stays numbered. -/
theorem Numbered.sublist (h : s.Numbered) (hserial : s'.serial = s.serial)
    (hlive : s'.live.Sublist s.live) (hscopes : s'.scopes.Sublist s.scopes)
    (hcalls : s'.calls.Sublist s.calls) : s'.Numbered where
  live_lt n hn := hserial ▸ h.live_lt n (hlive.subset hn)
  live_nodup := h.live_nodup.sublist hlive
  scope_lt c hc := hserial ▸ h.scope_lt c (hscopes.subset hc)
  call_lt c hc := hserial ▸ h.call_lt c (hcalls.subset hc)
  calls_nodup := h.calls_nodup.sublist (hcalls.map _)

theorem Inert.numbered (h : Inert s s') (hs : s.Numbered) : s'.Numbered := by
  obtain ⟨_, _, _, _, _, _, rfl, _⟩ := h
  exact ⟨hs.live_lt, hs.live_nodup, hs.scope_lt, hs.call_lt, hs.calls_nodup⟩

theorem Numbered.openCall (hs : s.Numbered) (scope : Nat) (e : Event) (i : Invocation) :
    (openCall scope e i s).Numbered where
  live_lt n hn := Nat.lt_succ_of_lt (hs.live_lt n hn)
  live_nodup := hs.live_nodup
  scope_lt c hc := Nat.lt_succ_of_lt (hs.scope_lt c hc)
  call_lt c hc := by
    rcases List.mem_append.mp hc with hc | hc
    · exact Nat.lt_succ_of_lt (hs.call_lt c hc)
    · rw [List.mem_singleton] at hc
      subst hc
      exact Nat.lt_succ_self s.serial
  calls_nodup := by
    have hnew : s.serial ∉ s.calls.map (·.serial) := by
      intro hmem
      obtain ⟨c, hc, hserial⟩ := List.mem_map.mp hmem
      exact absurd (hs.call_lt c hc) (by omega)
    simpa [Instance.openCall] using List.Nodup.concat hnew hs.calls_nodup

theorem Arms.numbered {scope : Nat} {xs : List Errand} (h : Arms scope xs s s') (hs : s.Numbered) :
    s'.Numbered := by
  induction h with
  | nil => exact hs
  | cons harm _ ih =>
    refine ih ?_
    cases harm with
    | timer => exact ⟨hs.live_lt, hs.live_nodup, hs.scope_lt, hs.call_lt, hs.calls_nodup⟩
    | call e i => exact hs.openCall _ e i

theorem Numbered.openState (hs : s.Numbered) (id : String) : (openState id s).Numbered where
  live_lt n hn := by
    rcases List.mem_append.mp hn with hn | hn
    · exact Nat.lt_succ_of_lt (hs.live_lt n hn)
    · rw [List.mem_singleton] at hn
      subst hn
      exact Nat.lt_succ_self s.serial
  live_nodup := by
    have hnew : s.serial ∉ s.live := fun hmem => Nat.lt_irrefl _ (hs.live_lt _ hmem)
    simpa [Instance.openState] using List.Nodup.concat hnew hs.live_nodup
  scope_lt c hc := by
    change c ∈ (if _ then _ else _) at hc
    split at hc
    · obtain ⟨d, hd, rfl⟩ := List.mem_map.mp hc
      split
      · exact Nat.lt_succ_self s.serial
      · exact Nat.lt_succ_of_lt (hs.scope_lt d hd)
    · rcases List.mem_append.mp hc with hc | hc
      · exact Nat.lt_succ_of_lt (hs.scope_lt c hc)
      · rw [List.mem_singleton] at hc
        subst hc
        exact Nat.lt_succ_self s.serial
  call_lt c hc := Nat.lt_succ_of_lt (hs.call_lt c hc)
  calls_nodup := hs.calls_nodup

theorem Numbered.closeScope (hs : s.Numbered) (n : Nat) : (s.closeScope n).Numbered := by
  refine hs.sublist ?_ ?_ ?_ ?_
  · simp [Instance.closeScope, dropCalls_eq]
  · rw [live_closeScope]
    exact List.filter_sublist
  · simp [Instance.closeScope, dropCalls_eq]
  · simp [Instance.closeScope, dropCalls_eq]

theorem Numbered.closeScopes (cs : List Scope) (hs : s.Numbered) :
    (cs.foldl (fun s c => s.closeScope c.serial) s).Numbered := by
  induction cs generalizing s with
  | nil => exact hs
  | cons c cs ih => exact ih (hs.closeScope c.serial)

theorem Numbered.closeAll (hs : s.Numbered) : s.closeAll.Numbered :=
  (hs.closeScopes s.scopes).sublist rfl (List.Sublist.refl _) (List.nil_sublist _)
    (List.Sublist.refl _)

theorem Numbered.closeState (hs : s.Numbered) (id : String) : (closeState id s).Numbered := by
  unfold Instance.closeState
  dsimp only
  split
  · rename_i n _
    exact (hs.closeScope n).sublist rfl (List.Sublist.refl _) List.filter_sublist
      (List.Sublist.refl _)
  · exact hs.sublist rfl (List.Sublist.refl _) List.filter_sublist (List.Sublist.refl _)

theorem Part.numbered (h : Part g s s') (hs : s.Numbered) : s'.Numbered := by
  cases h with
  | remark h => exact h.numbered hs
  | entry _ h _ h' => exact h'.numbered (h.numbered (hs.openState _))
  | exit id => exact hs.closeState id
  | ending => exact hs.closeAll.sublist rfl (.refl _) (.refl _) (.refl _)

theorem Parts.numbered (h : Parts g s s') (hs : s.Numbered) : s'.Numbered := by
  induction h with
  | refl => exact hs
  | tail _ hp ih => exact hp.numbered ih

theorem Step.numbered (h : Step m s s') (hs : s.Numbered) : s'.Numbered := by
  cases h with
  | aside h => cases h <;> exact hs.sublist rfl (.refl _) (.refl _) (.refl _)
  | waited | accepted | cleared | dropped | begun | through =>
    exact hs.sublist rfl (.refl _) (.refl _) (.refl _)
  | @resumed _ c state hc =>
    have hserial : ∀ d : OpenCall,
        (if d.serial = c.serial then { c with state } else d).serial = d.serial := by
      intro d
      split
      · rename_i h
        exact h.symm
      · rfl
    refine ⟨hs.live_lt, hs.live_nodup, hs.scope_lt, fun d hd => ?_, ?_⟩
    · obtain ⟨d', hd', rfl⟩ := List.mem_map.mp hd
      rw [hserial]
      exact hs.call_lt d' hd'
    · rw [List.map_map]
      have heq : ((·.serial) ∘ fun d : OpenCall => if d.serial = c.serial then { c with state } else d)
          = (·.serial) := funext hserial
      rw [heq]
      exact hs.calls_nodup
  | looked e => exact (inert_select m e s).numbered hs
  | opened =>
    exact (parts_enterFirst { s with started := true }).numbered
      (hs.sublist rfl (.refl _) (.refl _) (.refl _))
  | fired =>
    obtain ⟨_, _, h, _⟩ := received_frame _ _ _
    rw [h]
    exact hs.sublist rfl (.refl _) (.refl _) (.refl _)
  | vanished => exact hs.sublist rfl (.refl _) (.refl _) List.filter_sublist
  | reported =>
    obtain ⟨_, _, h, _⟩ := received_frame _ _ _
    rw [h]
    exact hs.sublist rfl (.refl _) (.refl _) List.filter_sublist
  | processed e => exact (parts_process e s).numbered hs
  | stopped => exact hs.closeAll.sublist rfl (.refl _) (.refl _) (.refl _)

theorem numbered_of_fresh (h : IsFresh m s) : s.Numbered := by
  obtain ⟨context, state, world, listeners, rfl⟩ := eq_of_fresh h
  exact ⟨by simp, by simp, by simp, by simp, by simp⟩

/-- **Serial numbers are given once.** -/
theorem numbered_of_reached (h : Reached m s) : s.Numbered := by
  obtain ⟨s₀, hfresh, hsteps⟩ := h
  induction hsteps with
  | refl => exact numbered_of_fresh hfresh
  | tail _ hstep ih => exact hstep.numbered ih

end Instance

end Statechart
