/-
# Entering and leaving states

What entering and leaving a state does if nothing raises.  The journal shows it in full: an entry is
noted, then the actions that run at the entry, then the errands that are started; an exit is noted,
then the actions that run at the exit.

* `Instance.SameWork`, `Instance.GivenUp`: the work of a scope is as it was, or gone.  Closing a scope
  takes its own work and leaves that of every other scope (`sameWork_closeScope`,
  `givenUp_closeScope`);
* **`Instance.ends_enters`**: states are entered one after the other;
* **`Instance.ends_leaves`**: the innermost states are left one after the other.
-/
import Statechart.Proofs.Serial

namespace Statechart

/-- Whether an alarm is that of a timer of a scope. -/
def AlarmKind.isOfScope (n : Nat) : AlarmKind → Bool
  | .event k _ => k = n
  | _ => false

/-- What the journal shows of the entry of a state. -/
def StateNode.entryNotes (n : StateNode) (scope : Nat) : List Happening :=
  .entered ⟨n.id, scope⟩ :: (n.validations.toList ++ n.entry).map .acted ++
    n.errands.map (.armed scope)

/-- What the journal shows of the exit of a state. -/
def StateNode.exitNotes (n : StateNode) (scope : Nat) : List Happening :=
  .left n.id (some scope) :: n.exit.map .acted

namespace Graph

/-- What the journal shows of an entry. -/
def entryNotes (g : Graph) (c : Scope) : List Happening :=
  ((g.state? c.state).map (·.entryNotes c.serial)).getD []

/-- What the journal shows of an exit. -/
def exitNotes (g : Graph) (c : Scope) : List Happening :=
  ((g.state? c.state).map (·.exitNotes c.serial)).getD []

theorem state?_of_state {g : Graph} {id : String} {n : StateNode} (h : g.state id = .ok n) :
    g.state? id = some n := by
  unfold state at h
  split at h
  · rename_i k hk
    cases h
    exact hk
  · cases h

theorem entryNotes_eq {g : Graph} {n : StateNode} (h : g.state n.id = .ok n) (scope : Nat) :
    g.entryNotes ⟨n.id, scope⟩ = n.entryNotes scope := by
  simp [entryNotes, state?_of_state h]

theorem exitNotes_eq {g : Graph} {n : StateNode} (h : g.state n.id = .ok n) (scope : Nat) :
    g.exitNotes ⟨n.id, scope⟩ = n.exitNotes scope := by
  simp [exitNotes, state?_of_state h]

end Graph

namespace Instance

variable {s s' s₁ s₂ : Instance}

open Run

/-! ## 1. The work of a scope -/

/-- The timers of a scope that are set. -/
def timersOf (n : Nat) (s : Instance) : List Alarm := s.alarms.filter (·.kind.isOfScope n)

/-- The calls of a scope that are open. -/
def callsOf (n : Nat) (s : Instance) : List OpenCall := s.calls.filter (·.scope = n)

/-- The alarms of a call. -/
def alarmsOf (call : Nat) (s : Instance) : List Alarm := s.alarms.filter (·.kind.isOfCall call)

/-- The work of a scope is as it was: nothing is cancelled, and nothing started. -/
structure SameWork (n : Nat) (s s' : Instance) : Prop where
  timers : s'.timersOf n = s.timersOf n
  calls : s'.callsOf n = s.callsOf n
  alarms : ∀ c ∈ s.callsOf n, s'.alarmsOf c.serial = s.alarmsOf c.serial
  turns : s.turns <+: s'.turns

/-- The work of a scope is given up: its timers are gone, and its calls will take notice. -/
structure GivenUp (n : Nat) (s s' : Instance) : Prop where
  timers : s'.timersOf n = []
  calls : s'.callsOf n = []
  abandoned : ∀ c ∈ s.callsOf n, .abandon c.state ∈ s'.turns

theorem SameWork.rfl {n : Nat} : SameWork n s s :=
  ⟨Eq.refl _, Eq.refl _, fun _ _ => Eq.refl _, List.prefix_rfl⟩

theorem SameWork.trans {n : Nat} (h : SameWork n s s₁) (h' : SameWork n s₁ s₂) :
    SameWork n s s₂ where
  timers := h'.timers.trans h.timers
  calls := h'.calls.trans h.calls
  alarms c hc := (h'.alarms c (h.calls ▸ hc)).trans (h.alarms c hc)
  turns := h.turns.trans h'.turns

/-- Closing a scope, in full. -/
theorem closeScope_eq (k : Nat) (s : Instance) :
    s.closeScope k =
      { s with
        live := s.live.filter (· ≠ k)
        alarms := s.alarms.filter fun a =>
          !a.kind.isOfScope k && (s.callsOf k).all fun c => !a.kind.isOfCall c.serial
        calls := s.calls.filter fun d => (s.callsOf k).all fun c => d.serial ≠ c.serial
        turns := s.turns ++ (s.callsOf k).map fun c => .abandon c.state } := by
  simp only [closeScope, dropCalls_eq, List.filter_filter]
  congr 1
  refine List.filter_congr fun a _ => ?_
  cases a with
  | mk due kind =>
    cases kind <;> simp [AlarmKind.isOfScope, AlarmKind.isOfCall, callsOf, Bool.and_comm]

/-- Calls of different scopes are different calls. -/
theorem Numbered.serial_ne (hs : s.Numbered) {c d : OpenCall} (hc : c ∈ s.calls) (hd : d ∈ s.calls)
    (h : c.scope ≠ d.scope) : c.serial ≠ d.serial := fun he =>
  h (congrArg OpenCall.scope (List.inj_on_of_nodup_map hs.calls_nodup hc hd he))

/-- **Closing a scope leaves the work of every other scope.** -/
theorem sameWork_closeScope (hs : s.Numbered) {n k : Nat} (h : n ≠ k) :
    SameWork n s (s.closeScope k) := by
  have hne : ∀ c ∈ s.callsOf n, ∀ d ∈ s.callsOf k, c.serial ≠ d.serial := by
    intro c hc d hd
    simp only [callsOf, List.mem_filter, decide_eq_true_eq] at hc hd
    exact hs.serial_ne hc.1 hd.1 (by rw [hc.2, hd.2]; exact h)
  rw [closeScope_eq]
  refine ⟨?_, ?_, ?_, List.prefix_append _ _⟩
  · simp only [timersOf, List.filter_filter]
    refine List.filter_congr fun a _ => ?_
    cases a.kind <;> simp [AlarmKind.isOfScope, AlarmKind.isOfCall]
    intro hk
    omega
  · simp only [callsOf, List.filter_filter]
    refine List.filter_congr fun c hc => ?_
    by_cases hn : c.scope = n
    · have hall :
          ((s.calls.filter (·.scope = k)).all fun d => decide (c.serial ≠ d.serial)) = true := by
        rw [List.all_eq_true]
        intro d hd
        exact decide_eq_true (hne c (List.mem_filter.mpr ⟨hc, by simpa using hn⟩) d hd)
      simp only [hn, decide_true, Bool.true_and]
      exact hall
    · simp [hn]
  · intro c hc
    simp only [alarmsOf, List.filter_filter]
    refine List.filter_congr fun a _ => ?_
    cases hkind : a.kind <;> simp [AlarmKind.isOfScope, AlarmKind.isOfCall]
    all_goals
      rintro rfl d hd
      exact fun he => hne c hc d hd he

/-- **Closing a scope takes its own work.** -/
theorem givenUp_closeScope (k : Nat) (s : Instance) : GivenUp k s (s.closeScope k) := by
  rw [closeScope_eq]
  refine ⟨?_, ?_, fun c hc => List.mem_append_right _ (List.mem_map.mpr ⟨c, hc, rfl⟩)⟩
  · simp only [timersOf, List.filter_filter, List.filter_eq_nil_iff]
    intro a _ h
    rw [Bool.and_eq_true, Bool.and_eq_true, Bool.not_eq_true'] at h
    exact absurd h.1 (by simp [h.2.1])
  · simp only [callsOf, List.filter_filter, List.filter_eq_nil_iff]
    intro c hc h
    simp only [Bool.and_eq_true, decide_eq_true_eq, List.all_eq_true, List.mem_filter] at h
    exact absurd rfl (h.2 c ⟨hc, h.1⟩)

/-- Less work, and nothing given up is forgotten. -/
theorem GivenUp.of_less {n : Nat} (h : GivenUp n s s₁) (halarms : s'.alarms.Sublist s₁.alarms)
    (hcalls : s'.calls.Sublist s₁.calls) (hturns : s₁.turns <+: s'.turns) : GivenUp n s s' where
  timers := List.sublist_nil.mp (h.timers ▸ halarms.filter _)
  calls := List.sublist_nil.mp (h.calls ▸ hcalls.filter _)
  abandoned c hc := hturns.subset (h.abandoned c hc)

theorem GivenUp.trans_same {n : Nat} (h : GivenUp n s s₁) (h' : SameWork n s₁ s') :
    GivenUp n s s' where
  timers := h'.timers.trans h.timers
  calls := h'.calls.trans h.calls
  abandoned c hc := h'.turns.subset (h.abandoned c hc)

theorem SameWork.trans_givenUp {n : Nat} (h : SameWork n s s₁) (h' : GivenUp n s₁ s') :
    GivenUp n s s' where
  timers := h'.timers
  calls := h'.calls
  abandoned c hc := h'.abandoned c (h.calls ▸ hc)

/-! ## 2. Steps that only take notes -/

/-- Nothing changes but the context and what belongs to it, and certain notes are taken. -/
def Noted (notes : List Happening) (s s' : Instance) : Prop :=
  ∃ context computed world,
    s' = { s with context, computed, world, journal := s.journal ++ notes }

theorem Noted.rfl : Noted [] s s := ⟨s.context, s.computed, s.world, by simp⟩

theorem Noted.trans {xs ys : List Happening} (h : Noted xs s s₁) (h' : Noted ys s₁ s₂) :
    Noted (xs ++ ys) s s₂ := by
  obtain ⟨_, _, _, rfl⟩ := h
  obtain ⟨context, computed, world, rfl⟩ := h'
  exact ⟨context, computed, world, by simp⟩

instance : IsPreorder Instance (Noted []) where
  refl _ := Noted.rfl
  trans _ _ _ := Noted.trans

theorem noted_note (x : Happening) (s : Instance) : Noted [x] s (s.note x) :=
  ⟨s.context, s.computed, s.world, rfl⟩

theorem noted_world (s : Instance) (world : World) : Noted [] s { s with world } :=
  ⟨s.context, s.computed, world, by simp⟩

theorem noted_context (context : Value) (s : Instance) : Noted [] s { s with context } :=
  ⟨context, s.computed, s.world, by simp⟩

theorem noted_computed (computed : List String) (s : Instance) : Noted [] s { s with computed } :=
  ⟨s.context, computed, s.world, by simp⟩

theorem Noted.numbered {notes : List Happening} (h : Noted notes s s') (hs : s.Numbered) :
    s'.Numbered := by
  obtain ⟨_, _, _, rfl⟩ := h
  exact ⟨hs.live_lt, hs.live_nodup, hs.scope_lt, hs.call_lt, hs.calls_nodup⟩

theorem Noted.sameWork {notes : List Happening} (h : Noted notes s s') (n : Nat) :
    SameWork n s s' := by
  obtain ⟨_, _, _, rfl⟩ := h
  exact ⟨Eq.refl _, Eq.refl _, fun _ _ => Eq.refl _, List.prefix_rfl⟩

theorem ends_act (m : Machine) (e : Event) (a : BoundAction) (context : Value) (s : Instance) :
    (act m e a context).Ends s fun _ s' => Noted [.acted a] s s' :=
  Ends.modify_bind <| Ends.performed (by decide) fun _ world =>
    (noted_note (.acted a) s).trans (noted_world _ world)

/-- Actions run one after the other. -/
theorem ends_runActions (m : Machine) (e : Event) (actions : List BoundAction) (s : Instance) :
    (runActions m e actions).Ends s fun _ s' => Noted (actions.map .acted) s s' := by
  refine Ends.forM (I := fun done s' => Noted (done.map .acted) s s') ?_ Noted.rfl
  intro done a _ s' _ hdone
  refine Ends.get_bind <| Ends.bind (ends_act m e a s'.context s') fun context s₁ hact => ?_
  refine Ends.of_ok (Run.exec_modify _ s₁) ?_
  rw [List.map_append]
  exact hdone.trans (hact.trans (noted_context context s₁))

theorem noted_computeField (node : StateNode) (e : Event) (context : Value) (c : ComputedField) :
    Moves (Noted []) (computeField node e context c) := by
  unfold computeField
  refine Moves.get_bind fun s => ?_
  dsimp only
  split
  · exact Moves.pure context s
  · refine Moves.bind (Moves.perform noted_world) (fun v =>
      Moves.bind (Moves.lift _) fun context' => ?_) s
    split
    · exact Moves.bind (Moves.modify fun s => noted_computed _ s) fun _ => Moves.pure _
    · exact Moves.pure _

theorem ends_entryContext (m : Machine) (node : StateNode) (e : Event) (s : Instance) :
    (entryContext m node e).Ends s fun _ s' =>
      Noted (node.validations.toList.map .acted) s s' := by
  refine Ends.get_bind <| Ends.bind
    (Ends.performed (Q := fun _ s' => Noted [] s s') (by decide) fun _ world => noted_world s world)
    fun context s₁ hinputs => ?_
  refine Ends.bind (Q := fun _ s₂ => Noted [] s s₂) ?_ fun context' s₂ hfields => ?_
  · refine Ends.watched (by decide) fun a s₂ hrun => ?_
    have hfields : Moves (Noted []) (node.computed.foldlM (computeField node e) context) :=
      Moves.foldlM (fun b c _ => noted_computeField node e b c) context
    have hend := hfields s₁
    rw [hrun] at hend
    exact hinputs.trans hend
  · split
    · rename_i a ha
      rw [ha]
      exact (ends_act m e a context' s₂).mono fun _ _ hact => hfields.trans hact
    · rename_i ha
      rw [ha]
      exact Ends.pure hfields

/-- The context is prepared: the validation runs, and then the entry actions. -/
theorem ends_prepare (m : Machine) (e : Event) (node : StateNode) (s : Instance) :
    (prepare m e node).Ends s fun _ s' =>
      Noted ((node.validations.toList ++ node.entry).map .acted) s s' := by
  refine Ends.bind (ends_entryContext m node e s) fun context s₁ hcontext => ?_
  refine Ends.modify_bind <| (ends_runActions m e node.entry _).mono fun _ s₂ hentry => ?_
  rw [List.map_append]
  exact hcontext.trans ((noted_context context s₁).trans hentry)

/-! ## 3. Entering states -/

/-- Starting errands changes nothing but what they need, and nothing that is there already. -/
theorem Arms.frame {scope : Nat} {xs : List Errand} (h : Arms scope xs s s') :
    ∃ serial alarms calls turns,
      s' = { s with serial, alarms, calls, turns
                    journal := s.journal ++ xs.map (.armed scope) } ∧ s.serial ≤ serial := by
  induction h with
  | nil s => exact ⟨s.serial, s.alarms, s.calls, s.turns, by simp, Nat.le_refl _⟩
  | cons harm _ ih =>
    obtain ⟨serial, alarms, calls, turns, rfl, hle⟩ := ih
    cases harm with
    | timer => exact ⟨serial, alarms, calls, turns, by simp [note], hle⟩
    | call => exact ⟨serial, alarms, calls, turns, by simp [openCall], Nat.le_of_succ_le hle⟩

theorem Arms.sameWork {scope n : Nat} {xs : List Errand} (h : Arms scope xs s s')
    (hn : scope ≠ n) : SameWork n s s' := by
  induction h with
  | nil s => exact SameWork.rfl
  | cons harm _ ih =>
    refine SameWork.trans ?_ ih
    cases harm with
    | timer due type s =>
      exact ⟨by simp [timersOf, note, AlarmKind.isOfScope, hn], Eq.refl _,
        fun c _ => by simp [alarmsOf, note, AlarmKind.isOfCall], List.prefix_rfl⟩
    | call e i s =>
      exact ⟨Eq.refl _, by simp [callsOf, openCall, hn], fun _ _ => Eq.refl _,
        List.prefix_append _ _⟩

/-- States are entered, outermost first: what is active grows by them, and nobody else's work
changes. -/
structure Entered (g : Graph) (opened : List Scope) (s s' : Instance) : Prop where
  state : s'.state = s.state
  status : s'.status = s.status
  active : s'.active = s.active ++ opened.map (·.state)
  scopes : s'.scopes = s.scopes ++ opened
  live : s'.live = s.live ++ opened.map (·.serial)
  journal : s'.journal = s.journal ++ opened.flatMap g.entryNotes
  serial : s.serial ≤ s'.serial
  fresh : ∀ c ∈ opened, s.serial ≤ c.serial
  work : ∀ n < s.serial, SameWork n s s'

theorem Entered.rfl (g : Graph) (s : Instance) : Entered g [] s s :=
  ⟨Eq.refl _, Eq.refl _, by simp, by simp, by simp, by simp, Nat.le_refl _, by simp,
    fun _ _ => SameWork.rfl⟩

theorem Entered.trans {g : Graph} {cs ds : List Scope} (h : Entered g cs s s₁)
    (h' : Entered g ds s₁ s₂) : Entered g (cs ++ ds) s s₂ where
  state := h'.state.trans h.state
  status := h'.status.trans h.status
  active := by rw [h'.active, h.active, List.map_append, List.append_assoc]
  scopes := by rw [h'.scopes, h.scopes, List.append_assoc]
  live := by rw [h'.live, h.live, List.map_append, List.append_assoc]
  journal := by rw [h'.journal, h.journal, List.flatMap_append, List.append_assoc]
  serial := Nat.le_trans h.serial h'.serial
  fresh c hc := (List.mem_append.mp hc).elim (h.fresh c) fun hc =>
    Nat.le_trans h.serial (h'.fresh c hc)
  work n hn := (h.work n hn).trans (h'.work n (Nat.lt_of_lt_of_le hn h.serial))

/-- Entering a state that has no scope yet. -/
theorem ends_enter {m : Machine} (e : Event) {node : StateNode}
    (hstate : m.graph.state node.id = .ok node) (hnew : node.id ∉ s.scopes.map (·.state)) :
    (enter m e node.id).Ends s fun _ s' => Entered m.graph [⟨node.id, s.serial⟩] s s' := by
  refine Ends.seek_bind hstate <| Ends.get_bind <| Ends.modify_bind ?_
  refine Ends.bind (ends_prepare m e node (openState node.id s)) fun _ s₁ hprepared => ?_
  refine Ends.watched (by decide) fun u s₂ hrun => ?_
  obtain ⟨done, -, harms, hall⟩ := started_startWork m node s.serial e s₁
  rw [hrun] at harms hall
  obtain rfl := hall u rfl
  have hopen : (openState node.id s).scopes = s.scopes ++ [⟨node.id, s.serial⟩] := by
    have hnone : s.scopes.any (·.state = node.id) = false := by simpa using hnew
    simp [openState, hnone]
  have hwork : ∀ n < s.serial, SameWork n s s₂ := by
    intro n hn
    have hsame : SameWork n s (openState node.id s) :=
      ⟨Eq.refl _, Eq.refl _, fun _ _ => Eq.refl _, List.prefix_rfl⟩
    exact hsame.trans ((hprepared.sameWork n).trans (harms.sameWork (by omega)))
  obtain ⟨context, computed, world, rfl⟩ := hprepared
  obtain ⟨serial, alarms, calls, turns, rfl, hserial⟩ := harms.frame
  refine ⟨Eq.refl _, Eq.refl _, Eq.refl _, hopen, Eq.refl _, ?_, Nat.le_of_succ_le hserial,
    by simp, hwork⟩
  simp [openState, Graph.entryNotes_eq hstate, StateNode.entryNotes]

/-- **States are entered one after the other.**  None of them may have a scope yet. -/
theorem ends_enters {m : Machine} (wf : m.graph.WellFormed) (e : Event) {ids : List String}
    (hids : ∀ id ∈ ids, id ∈ m.graph.ids) (hnodup : (s.scopes.map (·.state) ++ ids).Nodup) :
    (ids.forM (enter m e)).Ends s fun _ s' =>
      ∃ opened, opened.map (·.state) = ids ∧ Entered m.graph opened s s' := by
  refine Ends.forM
    (I := fun done s' => ∃ opened, opened.map (·.state) = done ∧ Entered m.graph opened s s') ?_
    ⟨[], rfl, Entered.rfl m.graph s⟩
  rintro done id rest s' rfl ⟨opened, rfl, hdone⟩
  obtain ⟨node, -, rfl, hstate⟩ := wf.exists_state (hids id (by simp))
  have hnew : node.id ∉ s'.scopes.map (·.state) := by
    rw [hdone.scopes, List.map_append]
    intro hmem
    rw [← List.append_assoc] at hnodup
    exact (List.nodup_append.mp hnodup).2.2 _ hmem _ List.mem_cons_self rfl
  refine (ends_enter e hstate hnew).mono fun _ s₁ hentered => ?_
  exact ⟨opened ++ [⟨node.id, s'.serial⟩], by simp, hdone.trans hentered⟩

/-! ## 4. Leaving states -/

/-- States are left, innermost first: what is active shrinks by them, their work is given up, and
nobody else's changes. -/
structure Left (g : Graph) (gone : List Scope) (s s' : Instance) : Prop where
  state : s'.state = s.state
  status : s'.status = s.status
  active : s.active = s'.active ++ gone.map (·.state)
  scopes : s.scopes = s'.scopes ++ gone
  live : s.live = s'.live ++ gone.map (·.serial)
  journal : s'.journal = s.journal ++ gone.reverse.flatMap g.exitNotes
  serial : s'.serial = s.serial
  turns : s.turns <+: s'.turns
  work : ∀ n, n ∉ gone.map (·.serial) → SameWork n s s'
  givenUp : ∀ n ∈ gone.map (·.serial), GivenUp n s s'

theorem Left.rfl (g : Graph) (s : Instance) : Left g [] s s :=
  ⟨Eq.refl _, Eq.refl _, by simp, by simp, by simp, by simp, Eq.refl _, List.prefix_rfl,
    fun _ _ => SameWork.rfl, by simp⟩

/-- What has been given up stays given up while other states are left. -/
theorem Left.trans {g : Graph} {cs ds : List Scope} (h : Left g cs s s₁) (h' : Left g ds s₁ s₂) :
    Left g (ds ++ cs) s s₂ where
  state := h'.state.trans h.state
  status := h'.status.trans h.status
  active := by rw [h.active, h'.active, List.map_append, List.append_assoc]
  scopes := by rw [h.scopes, h'.scopes, List.append_assoc]
  live := by rw [h.live, h'.live, List.map_append, List.append_assoc]
  journal := by
    rw [h'.journal, h.journal, List.reverse_append, List.flatMap_append, List.append_assoc]
  serial := h'.serial.trans h.serial
  work n hn := by
    rw [List.map_append, List.mem_append, not_or] at hn
    exact (h.work n hn.2).trans (h'.work n hn.1)
  turns := h.turns.trans h'.turns
  givenUp n hn := by
    by_cases hearlier : n ∈ cs.map (·.serial)
    · by_cases hlater : n ∈ ds.map (·.serial)
      · exact ⟨(h'.givenUp n hlater).timers, (h'.givenUp n hlater).calls, fun c hc =>
          h'.turns.subset ((h.givenUp n hearlier).abandoned c hc)⟩
      · exact (h.givenUp n hearlier).trans_same (h'.work n hlater)
    · rw [List.map_append, List.mem_append] at hn
      exact (h.work n hearlier).trans_givenUp (h'.givenUp n (hn.resolve_right hearlier))

/-- What is not left stays. -/
theorem Left.stays_kept {g : Graph} {kept gone : List Scope} (h : Left g gone s s₁)
    (hscopes : s.scopes = kept ++ gone) (hactive : s.active = s.scopes.map (·.state))
    (hlive : s.live = s.scopes.map (·.serial)) :
    s₁.scopes = kept ∧ s₁.active = kept.map (·.state) ∧ s₁.live = kept.map (·.serial) := by
  refine ⟨List.append_cancel_right (h.scopes.symm.trans hscopes), ?_, ?_⟩
  · rw [hscopes, List.map_append, h.active] at hactive
    exact List.append_cancel_right hactive
  · rw [hscopes, List.map_append, h.live] at hlive
    exact List.append_cancel_right hlive

theorem filter_concat_ne {α β : Type} [DecidableEq β] (f : α → β) {xs : List α} {x : α}
    (h : f x ∉ xs.map f) : (xs ++ [x]).filter (f · ≠ f x) = xs := by
  have hall : xs.filter (f · ≠ f x) = xs := by
    rw [List.filter_eq_self]
    exact fun y hy => decide_eq_true fun he => h (List.mem_map.mpr ⟨y, hy, he⟩)
  rw [List.filter_append, hall]
  simp

/-- Closing the innermost state closes its scope. -/
theorem closeState_innermost {kept : List Scope} {c : Scope} (hscopes : s.scopes = kept ++ [c])
    (hactive : s.active = s.scopes.map (·.state)) (hnodup : s.active.Nodup) :
    closeState c.state s =
      { s.closeScope c.serial with
        scopes := kept, active := kept.map (·.state)
        journal := s.journal ++ [.left c.state (some c.serial)] } := by
  have hother : c.state ∉ kept.map (·.state) := by
    rw [hactive, hscopes, List.map_append] at hnodup
    exact fun hmem => (List.nodup_append.mp hnodup).2.2 _ hmem _ (by simp) rfl
  have hfind : (s.scopes.find? (·.state = c.state)).map (·.serial) = some c.serial := by
    have hnone : kept.find? (·.state = c.state) = none := by
      rw [List.find?_eq_none]
      intro d hd he
      exact hother (List.mem_map.mpr ⟨d, hd, by simpa using he⟩)
    simp [hscopes, List.find?_append, hnone]
  have hrest : s.scopes.filter (·.state ≠ c.state) = kept := by
    rw [hscopes]
    exact filter_concat_ne Scope.state hother
  have herase : s.active.erase c.state = kept.map (·.state) := by
    rw [hactive, hscopes, List.map_append, List.erase_append_right _ hother]
    simp
  obtain ⟨_, _, _, _, hframe, -⟩ := closeScope_frame c.serial s
  simp only [closeState, hfind]
  rw [hframe]
  simp only [hrest, herase]

/-- Closing the innermost state. -/
theorem left_closeState {kept : List Scope} {c : Scope} (hs : s.Numbered)
    (hscopes : s.scopes = kept ++ [c]) (hactive : s.active = s.scopes.map (·.state))
    (hlive : s.live = s.scopes.map (·.serial)) (hnodup : s.active.Nodup) :
    ∃ alarms calls turns, closeState c.state s =
        { s with alarms, calls, turns
                 active := kept.map (·.state), scopes := kept, live := kept.map (·.serial)
                 journal := s.journal ++ [.left c.state (some c.serial)] } ∧
      s.turns <+: turns ∧ (∀ n, n ≠ c.serial → SameWork n s (closeState c.state s)) ∧
        GivenUp c.serial s (closeState c.state s) := by
  have hlive' : s.live.filter (· ≠ c.serial) = kept.map (·.serial) := by
    have hserial : c.serial ∉ (kept.map (·.serial)).map id := by
      have h := hs.live_nodup
      rw [hlive, hscopes, List.map_append] at h
      rw [List.map_id]
      exact fun hmem => (List.nodup_append.mp h).2.2 _ hmem _ (by simp) rfl
    rw [hlive, hscopes, List.map_append]
    exact filter_concat_ne id hserial
  rw [closeState_innermost hscopes hactive hnodup]
  refine ⟨(s.closeScope c.serial).alarms, (s.closeScope c.serial).calls,
    (s.closeScope c.serial).turns, ?_, ?_, ?_, ?_⟩
  · rw [closeScope_eq, hlive']
  · rw [closeScope_eq]
    exact List.prefix_append _ _
  · intro n hn
    have hwork := sameWork_closeScope hs hn
    exact ⟨hwork.timers, hwork.calls, hwork.alarms, hwork.turns⟩
  · have hwork := givenUp_closeScope c.serial s
    exact ⟨hwork.timers, hwork.calls, hwork.abandoned⟩

/-- Leaving the innermost state. -/
theorem ends_leave {m : Machine} (e : Event) {node : StateNode} {kept : List Scope} {n : Nat}
    (hstate : m.graph.state node.id = .ok node) (hs : s.Numbered)
    (hscopes : s.scopes = kept ++ [⟨node.id, n⟩]) (hactive : s.active = s.scopes.map (·.state))
    (hlive : s.live = s.scopes.map (·.serial)) (hnodup : s.active.Nodup) :
    (leave m e node.id).Ends s fun _ s' => Left m.graph [⟨node.id, n⟩] s s' ∧ s'.Numbered := by
  obtain ⟨alarms, calls, turns, hclose, hturns, hwork, hgone⟩ :=
    left_closeState hs hscopes hactive hlive hnodup
  refine Ends.seek_bind hstate <| Ends.modify_bind <| Ends.get_bind ?_
  refine Ends.bind (Ends.performed (Q := fun _ s' => Noted [] (closeState node.id s) s') (by decide)
    fun _ world => noted_world _ world) fun _ s₁ houtputs => ?_
  refine (ends_runActions m e node.exit s₁).mono fun _ s₂ hexit => ?_
  have hnoted := houtputs.trans hexit
  refine ⟨?_, hnoted.numbered (hs.closeState node.id)⟩
  have hwork' : ∀ k, k ∉ [n] → SameWork k s s₂ := fun k hk =>
    (hwork k (by simpa using hk)).trans (hnoted.sameWork k)
  have hgone' : ∀ k ∈ [n], GivenUp k s s₂ := by
    intro k hk
    rw [List.mem_singleton] at hk
    subst hk
    exact hgone.trans_same (hnoted.sameWork k)
  obtain ⟨_, _, _, rfl⟩ := hnoted
  rw [hclose] at hwork' hgone' ⊢
  refine ⟨rfl, rfl, ?_, hscopes, ?_, ?_, rfl, hturns, hwork', hgone'⟩
  · rw [hactive, hscopes, List.map_append]
  · rw [hlive, hscopes, List.map_append]
  · simp [Graph.exitNotes_eq hstate, StateNode.exitNotes]

/-- **States are left one after the other**, all but the outermost ones. -/
theorem ends_leaves {m : Machine} (e : Event) {kept gone : List Scope} (hs : s.Numbered)
    (hids : ∀ c ∈ gone, ∃ node, m.graph.state c.state = .ok node)
    (hscopes : s.scopes = kept ++ gone) (hactive : s.active = s.scopes.map (·.state))
    (hlive : s.live = s.scopes.map (·.serial)) (hnodup : s.active.Nodup) :
    ((gone.map (·.state)).reverse.forM (leave m e)).Ends s fun _ s' =>
      Left m.graph gone s s' ∧ s'.Numbered := by
  -- the states that are through are the innermost ones
  refine (Ends.forM (I := fun done s' => ∃ rest inner, gone = rest ++ inner ∧
    done = (inner.map (·.state)).reverse ∧ Left m.graph inner s s' ∧ s'.Numbered) ?_
    ⟨gone, [], by simp, rfl, Left.rfl m.graph s, hs⟩).mono ?_
  · rintro _ id after s' hlist ⟨rest, inner, rfl, rfl, hleft, hs'⟩
    obtain ⟨outer, c, rfl⟩ : ∃ outer c, rest = outer ++ [c] := by
      rcases List.eq_nil_or_concat rest with rfl | ⟨outer, c, rfl⟩
      · simp at hlist
      · exact ⟨outer, c, by simp⟩
    obtain rfl : c.state = id := by
      simp only [List.map_append, List.reverse_append, List.append_assoc] at hlist
      have h := List.append_cancel_left hlist
      simp only [List.map_cons, List.map_nil, List.reverse_cons, List.reverse_nil, List.nil_append,
        List.cons_append, List.cons.injEq] at h
      exact h.1
    obtain ⟨node, hstate⟩ := hids c (by simp)
    have hid := Graph.state_id hstate
    have hcut : s.scopes = ((kept ++ outer) ++ [c]) ++ inner := by simp [hscopes]
    obtain ⟨hscopes', hactive', hlive'⟩ := hleft.stays_kept hcut hactive hlive
    rw [← hscopes'] at hactive' hlive'
    have hnodup' : s'.active.Nodup := by
      rw [hleft.active] at hnodup
      exact (List.nodup_append.mp hnodup).1
    obtain ⟨state, n⟩ := c
    subst hid
    refine (ends_leave e hstate hs' hscopes' hactive' hlive' hnodup').mono fun _ s₁ h => ?_
    exact ⟨outer, ⟨node.id, n⟩ :: inner, by simp, by simp, hleft.trans h.1, h.2⟩
  · rintro _ s' ⟨rest, inner, rfl, hlist, hleft, hs'⟩
    obtain rfl : rest = [] := by
      have hlen := congrArg List.length hlist
      simpa using hlen
    exact ⟨hleft, hs'⟩

end Instance

end Statechart
