/-
# Well-formed graphs

A graph is a list of states that know each other by identifiers only.  This module says when such a
list is a forest of states with transitions between them, and what follows for the two walks along
the forest, outwards to the states around a state and inwards to the leaf entered with it.

* `Graph.WellFormed`: what is asked of a graph;
* `Climb`, `Descent`: the walks as they would run without a bound.  `exists_climb` and
  `exists_leafFor` say that they come to an end, and that the bounded walks follow them to that end;
* `mem_pathTo_iff`: the path to a state holds the state and those around it, nothing else;
* `pathTo_begins`: the path to a state begins with the path to each of its members.

Parents stand before their children.  That order carries every induction here: outwards by
`WellFormed.outward`, inwards along the states that come after one.
-/
import Statechart.Graph
import Mathlib.Data.List.Induction
import Mathlib.Data.List.Nodup
import Mathlib.Logic.Relation
import Mathlib.Order.WellFounded

namespace Statechart

namespace Graph

/-! ## 1. What is asked of a graph -/

/-- One state is the parent of another. -/
def IsParent (g : Graph) (p id : String) : Prop := ∃ n ∈ g.states, n.id = id ∧ n.parent = some p

/-- One state lies around another: it is its parent, or lies around its parent. -/
def IsAround (g : Graph) : String → String → Prop := Relation.TransGen g.IsParent

/-- A candidate belongs to an event of a state, and leads to a state if it leads anywhere. -/
structure IsCandidateOf (g : Graph) (n : StateNode) (event : String) (c : Candidate) : Prop where
  event_eq : c.event = event
  source_eq : c.source = n.id
  target_mem : ∀ t, c.target = some t → t ∈ g.ids

/-- The states of a graph form a forest, and what they declare fits to it. -/
structure WellFormed (g : Graph) : Prop where
  distinct : g.ids.Nodup
  initial_mem : g.initial ∈ g.ids
  parent_first : ∀ before n after, g.states = before ++ n :: after →
    ∀ p, n.parent = some p → p ∈ before.map (·.id)
  mem_children_iff : ∀ p ∈ g.states, ∀ id, id ∈ p.children ↔ g.IsParent p.id id
  children_distinct : ∀ p ∈ g.states, p.children.Nodup
  /-- A state inside another one has a name. -/
  named : ∀ n ∈ g.states, n.parent ≠ none → n.id ≠ ""
  compound_iff : ∀ n ∈ g.states, n.kind = .compound ↔ n.children ≠ []
  initial_child : ∀ n ∈ g.states, n.kind = .compound → ∃ c ∈ n.children, n.initial = some c
  initial_none : ∀ n ∈ g.states, n.kind ≠ .compound → n.initial = none
  events_distinct : ∀ n ∈ g.states, (n.transitions.map (·.1)).Nodup
  candidate : ∀ n ∈ g.states, ∀ event cs, (event, cs) ∈ n.transitions →
    ∀ c ∈ cs, g.IsCandidateOf n event c
  final : ∀ n ∈ g.states, n.kind = .final → n.transitions = [] ∧ n.after = [] ∧ n.invokes = []
  timers_distinct : ∀ n ∈ g.states, (n.after.map (·.event)).Nodup
  timer_event : ∀ n ∈ g.states, ∀ t ∈ n.after, ∃ rest, t.event = "xflows.after." ++ rest
  invokes_distinct : ((g.states.flatMap (·.invokes)).map (·.id)).Nodup
  invoke_state : ∀ n ∈ g.states, ∀ i ∈ n.invokes, i.stateId = n.id

variable {g : Graph}

/-! ## 2. Looking up states -/

theorem mem_of_state {id : String} {n : StateNode} (h : g.state id = .ok n) : n ∈ g.states := by
  unfold state state? at h
  split at h
  · rename_i m hm
    simp only [Except.ok.injEq] at h
    exact h ▸ List.mem_of_find?_eq_some hm
  · simp at h

namespace WellFormed

/-- Distinct identifiers mean distinct states. -/
theorem eq_of_id (wf : g.WellFormed) {n m : StateNode} (hn : n ∈ g.states) (hm : m ∈ g.states)
    (h : n.id = m.id) : n = m :=
  List.inj_on_of_nodup_map wf.distinct hn hm h

theorem state_of_mem (wf : g.WellFormed) {n : StateNode} (hn : n ∈ g.states) :
    g.state n.id = .ok n := by
  have hsome : (g.state? n.id).isSome = true := by
    rw [state?, List.find?_isSome]
    exact ⟨n, hn, by simp⟩
  obtain ⟨m, hm⟩ := Option.isSome_iff_exists.mp hsome
  have hid : m.id = n.id := by simpa using List.find?_some hm
  have heq : m = n := wf.eq_of_id (List.mem_of_find?_eq_some hm) hn hid
  subst heq
  simp [state, hm]

theorem state_eq_ok_iff (wf : g.WellFormed) {id : String} {n : StateNode} :
    g.state id = .ok n ↔ n ∈ g.states ∧ n.id = id := by
  constructor
  · intro h
    exact ⟨mem_of_state h, state_id h⟩
  · rintro ⟨hn, rfl⟩
    exact wf.state_of_mem hn

theorem exists_state (wf : g.WellFormed) {id : String} (h : id ∈ g.ids) :
    ∃ n ∈ g.states, n.id = id ∧ g.state id = .ok n := by
  obtain ⟨n, hn, rfl⟩ := List.mem_map.mp h
  exact ⟨n, hn, rfl, wf.state_of_mem hn⟩

/-- A parent is a state. -/
theorem exists_parent (wf : g.WellFormed) {n : StateNode} (hn : n ∈ g.states) {p : String}
    (hp : n.parent = some p) : ∃ m ∈ g.states, m.id = p := by
  obtain ⟨before, after, hs⟩ := List.append_of_mem hn
  obtain ⟨m, hm, hid⟩ := List.mem_map.mp (wf.parent_first before n after hs p hp)
  exact ⟨m, hs ▸ List.mem_append_left _ hm, hid⟩

theorem isParent_iff (wf : g.WellFormed) {n : StateNode} (hn : n ∈ g.states) {p : String} :
    g.IsParent p n.id ↔ n.parent = some p := by
  constructor
  · rintro ⟨m, hm, hid, hp⟩
    exact wf.eq_of_id hm hn hid ▸ hp
  · exact fun hp => ⟨n, hn, rfl, hp⟩

/-- A state around another one is compound. -/
theorem compound_of_isAround (wf : g.WellFormed) {n : StateNode} (hn : n ∈ g.states) {id : String}
    (h : g.IsAround n.id id) : n.kind = .compound := by
  obtain ⟨b, hparent⟩ : ∃ b, g.IsParent n.id b := by
    induction h with
    | single h => exact ⟨_, h⟩
    | tail _ _ ih => exact ih
  refine (wf.compound_iff n hn).mpr fun hnone => ?_
  have hmem := (wf.mem_children_iff n hn b).mpr hparent
  rw [hnone] at hmem
  cases hmem

/-! ## 3. Induction along the order of the states -/

/-- A state is earlier than one whose parent it is. -/
theorem mem_before (wf : g.WellFormed) {before after : List StateNode} {n m : StateNode}
    (hs : g.states = before ++ n :: after) (hm : m ∈ g.states) (hp : n.parent = some m.id) :
    m ∈ before := by
  obtain ⟨k, hk, hid⟩ := List.mem_map.mp (wf.parent_first before n after hs _ hp)
  have hkg : k ∈ g.states := hs ▸ List.mem_append_left _ hk
  exact wf.eq_of_id hkg hm hid ▸ hk

/-- A state is later than its parent. -/
theorem mem_after (wf : g.WellFormed) {before after : List StateNode} {n m : StateNode}
    (hs : g.states = before ++ n :: after) (hm : m ∈ g.states) (hp : m.parent = some n.id) :
    m ∈ after := by
  have hn : n ∈ g.states := by simp [hs]
  have hnd : (before ++ n :: after).Nodup := hs ▸ List.Nodup.of_map _ wf.distinct
  have hfirst : n ∉ before := fun h => (List.nodup_append.mp hnd).2.2 n h n (by simp) rfl
  rw [hs] at hm
  rcases List.mem_append.mp hm with hm | hm
  · -- a child that stood before its parent would have the parent before it once more
    obtain ⟨b, c, rfl⟩ := List.append_of_mem hm
    have hs' : g.states = b ++ m :: (c ++ n :: after) := by simpa using hs
    have hb : n ∈ b := wf.mem_before hs' hn hp
    exact absurd (List.mem_append_left _ hb) hfirst
  · rcases List.mem_cons.mp hm with rfl | hm
    · exact absurd (wf.mem_before hs hn hp) hfirst
    · exact hm

/-- What every state inherits from its parent holds of all states. -/
theorem outward (wf : g.WellFormed) {motive : StateNode → Prop}
    (h : ∀ n ∈ g.states, (∀ m ∈ g.states, n.parent = some m.id → motive m) → motive n) :
    ∀ n ∈ g.states, motive n := by
  have hall : ∀ before after, g.states = before ++ after → ∀ n ∈ before, motive n := by
    intro before
    induction before using List.reverseRecOn with
    | nil => simp
    | append_singleton before n ih =>
      intro after hs k hk
      have hs' : g.states = before ++ n :: after := by simpa using hs
      rcases List.mem_append.mp hk with hk | hk
      · exact ih _ hs' k hk
      · rw [List.mem_singleton] at hk
        subst hk
        exact h k (by simp [hs']) fun m hm hp => ih _ hs' m (wf.mem_before hs' hm hp)
  exact hall g.states [] (by simp)

/-- No chain of parents goes on forever. -/
theorem wellFounded (wf : g.WellFormed) : WellFounded g.IsParent := by
  have hstate : ∀ n ∈ g.states, Acc g.IsParent n.id := by
    refine wf.outward fun n hn ih => ⟨_, fun p hp => ?_⟩
    have hparent := (wf.isParent_iff hn).mp hp
    obtain ⟨m, hm, rfl⟩ := wf.exists_parent hn hparent
    exact ih m hm hparent
  refine ⟨fun id => ⟨_, fun p hp => ?_⟩⟩
  obtain ⟨n, hn, rfl, hparent⟩ := hp
  obtain ⟨m, hm, rfl⟩ := wf.exists_parent hn hparent
  exact hstate m hm

/-- **No state lies around itself.** -/
theorem not_isAround_self (wf : g.WellFormed) (id : String) : ¬ g.IsAround id id :=
  fun h => wf.wellFounded.transGen.irrefl.irrefl id h

end WellFormed

/-! ## 4. The walk outwards -/

/-- The walk from a state to the outermost one around it, and the states met, nearest first. -/
inductive Climb (g : Graph) : String → List String → Prop
  | outermost {id : String} {n : StateNode} :
      g.state id = .ok n → n.parent = none → Climb g id [id]
  | step {id p : String} {path : List String} {n : StateNode} :
      g.state id = .ok n → n.parent = some p → Climb g p path → Climb g id (id :: path)

/-- The bounded walk follows the walk to its end. -/
theorem Climb.pathUp_eq {id : String} {path : List String} (h : g.Climb id path) :
    ∀ fuel, path.length ≤ fuel → g.pathUp fuel id = .ok path := by
  induction h with
  | outermost hs hp =>
    intro fuel hf
    cases fuel with
    | zero => simp at hf
    | succ fuel => simp [pathUp, hs, hp, bind, Except.bind, pure, Except.pure]
  | step hs hp _ ih =>
    intro fuel hf
    cases fuel with
    | zero => simp at hf
    | succ fuel =>
      simp only [List.length_cons, Nat.add_le_add_iff_right] at hf
      simp [pathUp, hs, hp, ih fuel hf, bind, Except.bind, pure, Except.pure]

/-- The states around one whose parent is known. -/
theorem WellFormed.isAround_iff (wf : g.WellFormed) {n : StateNode} (hn : n ∈ g.states) {a : String} :
    g.IsAround a n.id ↔ ∃ p, n.parent = some p ∧ (a = p ∨ g.IsAround a p) := by
  constructor
  · intro h
    obtain ⟨p, hap, hp⟩ := Relation.TransGen.tail'_iff.mp h
    refine ⟨p, (wf.isParent_iff hn).mp hp, ?_⟩
    rcases Relation.reflTransGen_iff_eq_or_transGen.mp hap with rfl | hap
    · exact Or.inl rfl
    · exact Or.inr hap
  · rintro ⟨p, hp, rfl | hap⟩
    · exact .single ((wf.isParent_iff hn).mpr hp)
    · exact hap.tail ((wf.isParent_iff hn).mpr hp)

/-- The walk meets the state and those around it. -/
theorem WellFormed.mem_climb_iff (wf : g.WellFormed) {id : String} {path : List String}
    (h : g.Climb id path) (a : String) : a ∈ path ↔ a = id ∨ g.IsAround a id := by
  induction h with
  | @outermost id n hs hp =>
    obtain ⟨hn, rfl⟩ := wf.state_eq_ok_iff.mp hs
    simp [wf.isAround_iff hn, hp]
  | @step id p path n hs hp _ ih =>
    obtain ⟨hn, rfl⟩ := wf.state_eq_ok_iff.mp hs
    simp [wf.isAround_iff hn, hp, ih]

/-- The walk meets no state twice. -/
theorem WellFormed.nodup_climb (wf : g.WellFormed) {id : String} {path : List String}
    (h : g.Climb id path) : path.Nodup := by
  induction h with
  | outermost => exact List.nodup_singleton _
  | @step id p path n hs hp hc ih =>
    obtain ⟨hn, rfl⟩ := wf.state_eq_ok_iff.mp hs
    refine List.nodup_cons.mpr ⟨fun hmem => ?_, ih⟩
    have haround := (wf.mem_climb_iff hc n.id).mp hmem
    exact wf.not_isAround_self n.id ((wf.isAround_iff hn).mpr ⟨p, hp, haround⟩)

theorem climb_subset {id : String} {path : List String} (h : g.Climb id path) : path ⊆ g.ids := by
  induction h with
  | outermost hs _ => simpa using mem_ids_of_state hs
  | step hs _ _ ih => exact List.cons_subset.mpr ⟨mem_ids_of_state hs, ih⟩

/-- **The walk outwards comes to an end** from every state. -/
theorem WellFormed.exists_climb (wf : g.WellFormed) {id : String} (h : id ∈ g.ids) :
    ∃ path, g.Climb id path := by
  have hall : ∀ n ∈ g.states, ∃ path, g.Climb n.id path := by
    refine wf.outward fun n hn ih => ?_
    cases hp : n.parent with
    | none => exact ⟨_, .outermost (wf.state_of_mem hn) hp⟩
    | some p =>
      obtain ⟨m, hm, rfl⟩ := wf.exists_parent hn hp
      obtain ⟨path, hpath⟩ := ih m hm hp
      exact ⟨_, .step (wf.state_of_mem hn) hp hpath⟩
  obtain ⟨n, hn, rfl⟩ := List.mem_map.mp h
  exact hall n hn

/-- It takes no more steps than there are states. -/
theorem WellFormed.length_climb_le (wf : g.WellFormed) {id : String} {path : List String}
    (h : g.Climb id path) : path.length ≤ g.states.length := by
  have hle := (wf.nodup_climb h).length_le_of_subset (climb_subset h)
  rwa [ids, List.length_map] at hle

/-- **The bounded walk outwards is the walk outwards.** -/
theorem WellFormed.pathTo_of_climb (wf : g.WellFormed) {id : String} {up : List String}
    (h : g.Climb id up) : g.pathTo id = .ok up.reverse := by
  simp [pathTo, h.pathUp_eq _ (wf.length_climb_le h), Functor.map, Except.map]

theorem WellFormed.mem_ids_of_pathTo (wf : g.WellFormed) {id : String} {path : List String}
    (h : g.pathTo id = .ok path) : id ∈ g.ids := by
  cases hl : g.states.length with
  | zero =>
    have hinitial := wf.initial_mem
    rw [ids, List.eq_nil_of_length_eq_zero hl] at hinitial
    cases hinitial
  | succ fuel =>
    cases hs : g.state id with
    | ok n => exact mem_ids_of_state hs
    | error f => simp [pathTo, hl, pathUp, hs, Functor.map, Except.map, bind, Except.bind] at h

theorem WellFormed.climb_of_pathTo (wf : g.WellFormed) {id : String} {path : List String}
    (h : g.pathTo id = .ok path) : g.Climb id path.reverse := by
  obtain ⟨up, hc⟩ := wf.exists_climb (wf.mem_ids_of_pathTo h)
  rw [wf.pathTo_of_climb hc] at h
  cases h
  simpa using hc

theorem WellFormed.exists_pathTo (wf : g.WellFormed) {id : String} (h : id ∈ g.ids) :
    ∃ path, g.pathTo id = .ok path := by
  obtain ⟨up, hc⟩ := wf.exists_climb h
  exact ⟨_, wf.pathTo_of_climb hc⟩

/-! ## 5. Paths -/

section Paths

variable {id : String} {path : List String}

/-- **The path to a state holds the state and those around it.** -/
theorem WellFormed.mem_pathTo_iff (wf : g.WellFormed) (h : g.pathTo id = .ok path) (a : String) :
    a ∈ path ↔ a = id ∨ g.IsAround a id := by
  rw [← wf.mem_climb_iff (wf.climb_of_pathTo h), List.mem_reverse]

theorem WellFormed.nodup_pathTo (wf : g.WellFormed) (h : g.pathTo id = .ok path) : path.Nodup :=
  List.nodup_reverse.mp (wf.nodup_climb (wf.climb_of_pathTo h))

theorem WellFormed.pathTo_subset (wf : g.WellFormed) (h : g.pathTo id = .ok path) : path ⊆ g.ids :=
  fun _ ha => climb_subset (wf.climb_of_pathTo h) (List.mem_reverse.mpr ha)

/-- The path to an outermost state is the state. -/
theorem WellFormed.pathTo_outermost (wf : g.WellFormed) {n : StateNode} (hn : n ∈ g.states)
    (hp : n.parent = none) : g.pathTo n.id = .ok [n.id] :=
  wf.pathTo_of_climb (.outermost (wf.state_of_mem hn) hp)

/-- The path to a state inside another one goes through that one. -/
theorem WellFormed.pathTo_inside (wf : g.WellFormed) {n : StateNode} (hn : n ∈ g.states) {p : String}
    (hp : n.parent = some p) (h : g.pathTo p = .ok path) : g.pathTo n.id = .ok (path ++ [n.id]) := by
  have hc : g.Climb n.id (n.id :: path.reverse) :=
    .step (wf.state_of_mem hn) hp (wf.climb_of_pathTo h)
  simpa using wf.pathTo_of_climb hc

/-- A path ends with its state. -/
theorem WellFormed.pathTo_eq_concat (wf : g.WellFormed) (h : g.pathTo id = .ok path) :
    path = path.dropLast ++ [id] := by
  have hc := wf.climb_of_pathTo h
  obtain ⟨rest, hrest⟩ : ∃ rest, path.reverse = id :: rest := by
    generalize path.reverse = up at hc
    cases hc with
    | outermost => exact ⟨_, rfl⟩
    | step => exact ⟨_, rfl⟩
  have hpath : path = rest.reverse ++ [id] := by
    rw [← List.reverse_reverse path, hrest, List.reverse_cons]
  rw [hpath, List.dropLast_concat]

/-- **The path to a state begins with the path to each state around it.** -/
theorem WellFormed.pathTo_begins (wf : g.WellFormed) (h : g.pathTo id = .ok path) {a : String}
    (ha : a ∈ path) {pre : List String} (hpre : g.pathTo a = .ok pre) : pre <+: path := by
  have hall : ∀ n ∈ g.states, ∀ path, g.pathTo n.id = .ok path → a ∈ path → pre <+: path := by
    refine wf.outward fun n hn ih path hpath hmem => ?_
    by_cases hself : a = n.id
    · subst hself
      rw [hpre] at hpath
      cases hpath
      exact List.prefix_rfl
    · have haround := ((wf.mem_pathTo_iff hpath a).mp hmem).resolve_left hself
      obtain ⟨p, hp, hap⟩ := (wf.isAround_iff hn).mp haround
      obtain ⟨m, hm, rfl⟩ := wf.exists_parent hn hp
      obtain ⟨q, hq⟩ := wf.exists_pathTo (List.mem_map.mpr ⟨m, hm, rfl⟩)
      have hcut : path = q ++ [n.id] := by
        have := wf.pathTo_inside hn hp hq
        rw [hpath] at this
        exact Except.ok.inj this
      have hin : a ∈ q := (wf.mem_pathTo_iff hq a).mpr hap
      exact (ih m hm hp q hq hin).trans (hcut ▸ List.prefix_append _ _)
  obtain ⟨n, hn, rfl⟩ := List.mem_map.mp (wf.mem_ids_of_pathTo h)
  exact hall n hn path h ha

/-- The path without its state holds the states around it. -/
theorem WellFormed.mem_dropLast_pathTo_iff (wf : g.WellFormed) (h : g.pathTo id = .ok path)
    (a : String) : a ∈ path.dropLast ↔ g.IsAround a id := by
  have hcut := wf.pathTo_eq_concat h
  have hnd : (path.dropLast ++ [id]).Nodup := hcut ▸ wf.nodup_pathTo h
  constructor
  · intro ha
    have hmem : a ∈ path := hcut ▸ List.mem_append_left _ ha
    refine ((wf.mem_pathTo_iff h a).mp hmem).resolve_left fun he => ?_
    exact (List.nodup_append.mp hnd).2.2 a ha id (by simp) he
  · intro ha
    have hmem : a ∈ path.dropLast ++ [id] := hcut ▸ (wf.mem_pathTo_iff h a).mpr (Or.inr ha)
    refine (List.mem_append.mp hmem).resolve_right fun he => ?_
    rw [List.mem_singleton] at he
    exact wf.not_isAround_self id (he ▸ ha)

theorem ancestors_eq (h : g.pathTo id = .ok path) :
    g.ancestors id = .ok path.dropLast.reverse := by
  simp [ancestors, h, bind, Except.bind, pure, Except.pure]

end Paths

/-! ## 6. The walk inwards -/

/-- The walk from a state to the leaf that is entered with it, along initial children. -/
inductive Descent (g : Graph) : String → String → Prop
  | leaf {id : String} {n : StateNode} :
      g.state id = .ok n → n.kind ≠ .compound → Descent g id id
  | step {id child leaf : String} {n : StateNode} :
      g.state id = .ok n → n.kind = .compound → n.initial = some child → child ≠ "" →
        Descent g child leaf → Descent g id leaf

/-- The initial child of a compound state is a state with that parent, and has a name. -/
theorem WellFormed.exists_initial (wf : g.WellFormed) {n : StateNode} (hn : n ∈ g.states)
    (hk : n.kind = .compound) :
    ∃ m ∈ g.states, n.initial = some m.id ∧ m.parent = some n.id ∧ m.id ≠ "" := by
  obtain ⟨c, hc, hinitial⟩ := wf.initial_child n hn hk
  obtain ⟨m, hm, rfl, hp⟩ := (wf.mem_children_iff n hn c).mp hc
  exact ⟨m, hm, hinitial, hp, wf.named m hm (by simp [hp])⟩

/-- The bounded walk inwards follows the walk to its end: no bound is needed that exceeds the number
of states after the one it starts from. -/
theorem WellFormed.exists_leafFrom (wf : g.WellFormed) :
    ∀ k before n after, g.states = before ++ n :: after → after.length ≤ k →
      ∃ m, g.leafFrom k n = .ok m ∧ m ∈ g.states ∧ m.kind ≠ .compound ∧ g.Descent n.id m.id ∧
        (n.id = m.id ∨ g.IsAround n.id m.id) := by
  intro k
  induction k with
  | zero =>
    intro before n after hs hk
    have hn : n ∈ g.states := by simp [hs]
    have hkind : n.kind ≠ .compound := by
      intro hc
      obtain ⟨m, hm, _, hp, _⟩ := wf.exists_initial hn hc
      have hlater := wf.mem_after hs hm hp
      rw [List.eq_nil_of_length_eq_zero (Nat.le_zero.mp hk)] at hlater
      cases hlater
    exact ⟨n, rfl, hn, hkind, .leaf (wf.state_of_mem hn) hkind, Or.inl rfl⟩
  | succ k ih =>
    intro before n after hs hk
    have hn : n ∈ g.states := by simp [hs]
    by_cases hc : n.kind = .compound
    · obtain ⟨m, hm, hinitial, hp, hname⟩ := wf.exists_initial hn hc
      obtain ⟨b, a, hcut⟩ := List.append_of_mem (wf.mem_after hs hm hp)
      have hlen : a.length ≤ k := by
        rw [hcut] at hk
        simp only [List.length_append, List.length_cons] at hk
        omega
      obtain ⟨l, hl, hlmem, hlkind, hdescent, hplace⟩ :=
        ih (before ++ n :: b) m a (by simp [hs, hcut]) hlen
      have hstep : g.leafFrom (k + 1) n = g.leafFrom k m := by
        have hne : m.id.isEmpty = false := by simpa using hname
        simp [leafFrom, hc, hinitial, hne, wf.state_of_mem hm, bind, Except.bind]
      have haround : g.IsParent n.id m.id := (wf.isParent_iff hm).mpr hp
      refine ⟨l, hstep.trans hl, hlmem, hlkind,
        .step (wf.state_of_mem hn) hc hinitial hname hdescent, Or.inr ?_⟩
      rcases hplace with he | ha
      · exact .single (he ▸ haround)
      · exact .head haround ha
    · refine ⟨n, ?_, hn, hc, .leaf (wf.state_of_mem hn) hc, Or.inl rfl⟩
      simp [leafFrom, wf.initial_none n hn hc]

/-- **Every state has a leaf that is entered with it**: the walk inwards comes to an end, the bounded
walk finds that end, and it is not compound and the state itself or inside it. -/
theorem WellFormed.exists_leafFor (wf : g.WellFormed) {id : String} (h : id ∈ g.ids) :
    ∃ n ∈ g.states, g.leafFor id = .ok n.id ∧ n.kind ≠ .compound ∧ g.Descent id n.id ∧
      (id = n.id ∨ g.IsAround id n.id) := by
  obtain ⟨n, hn, rfl⟩ := List.mem_map.mp h
  obtain ⟨before, after, hs⟩ := List.append_of_mem hn
  obtain ⟨m, hm, hmem, hkind, hdescent, hplace⟩ :=
    wf.exists_leafFrom g.states.length before n after hs (by simp [hs]; omega)
  refine ⟨m, hmem, ?_, hkind, hdescent, hplace⟩
  simp [leafFor, wf.state_of_mem hn, hm, bind, Except.bind, pure, Except.pure]

end Graph

end Statechart
