/-
# Broken-off transitions

When something raises in a transition, the host is told, and the instance is left where the transition
broke off.  Some states have been left by then, or some have been entered; the leaf has not been put
down.  So the active states are the first ones on the way to a leaf, the old one or the new one, and
each of them still has its scope; but the leaf that is on record need not be among them.

* `Configuration.Truncated`: the active states are the first ones on the way to a leaf;
* `Configuration.Truncated.path_iff`: such a configuration is consistent if and only if the leaf on
  record is active;
* `Instance.Upto`: what exits and entries keep to, state by state, wherever they break off;
* **`Instance.comes_drainFor`**: processing events fails with a truncated configuration at worst;
* **`Definition.brokenOff_of_raise`**: what a raise leaves, for all runs;
* `Definition.inconsistent_after_raise`: the leaf on record need not be active.
-/
import Statechart.Proofs.Course

namespace Statechart

open Instance

/-! ## 1. Truncated configurations -/

/-- The active states are the first ones on the way to a leaf, and each of them has its open scope. -/
structure Configuration.Truncated (g : Graph) (c : Configuration) : Prop where
  leaf : ∃ n, g.state c.state = .ok n ∧ n.kind ≠ .compound
  way : ∃ node ∈ g.states, ∃ path, g.pathTo node.id = .ok path ∧ c.active <+: path
  states : c.scopes.map (·.state) = c.active
  serials : c.scopes.map (·.serial) = c.live
  distinct : c.live.Nodup

theorem Configuration.Settled.truncated {g : Graph} {c : Configuration} (h : c.Settled g)
    (hactive : c.status = .active) : c.Truncated g := by
  obtain ⟨n, hn, hkind⟩ := h.leaf
  obtain ⟨hstates, hserials, hdistinct⟩ := h.running hactive
  have hid := Graph.state_id hn
  exact ⟨⟨n, hn, hkind⟩, ⟨n, Graph.mem_of_state hn, c.active, hid ▸ h.path, List.prefix_rfl⟩, hstates,
    hserials, hdistinct⟩

/-- **A truncated configuration is consistent if its leaf is active**, and not otherwise. -/
theorem Configuration.Truncated.path_iff {g : Graph} (wf : g.WellFormed) {c : Configuration}
    (h : c.Truncated g) : g.pathTo c.state = .ok c.active ↔ c.state ∈ c.active := by
  obtain ⟨n, hn, hkind⟩ := h.leaf
  obtain ⟨hmem, hid⟩ := wf.state_eq_ok_iff.mp hn
  obtain ⟨node, -, path, hpath, hbegins⟩ := h.way
  constructor
  · exact fun hown => (wf.mem_pathTo_iff hown c.state).mpr (Or.inl rfl)
  · intro hactive
    -- a leaf on the way to a state is the end of that way
    have hend : c.state = node.id := by
      refine ((wf.mem_pathTo_iff hpath c.state).mp (hbegins.subset hactive)).resolve_right ?_
      exact fun haround => hkind (wf.compound_of_isAround hmem (hid ▸ haround))
    rw [hend] at hactive ⊢
    have hnodup := wf.nodup_pathTo hpath
    rw [wf.pathTo_eq_concat hpath] at hbegins hnodup
    rcases List.prefix_concat_iff.mp hbegins with hfull | hshort
    · rw [hfull, ← wf.pathTo_eq_concat hpath]
      exact hpath
    · exact absurd rfl ((List.nodup_append.mp hnodup).2.2 _ (hshort.subset hactive) _ (by simp))

namespace Instance

variable {m : Machine} {g : Graph} {path : List String} {id : String} {s s' s₁ : Instance}

open Run

/-! ## 2. State by state -/

/-- Where an instance stands stays as it is. -/
def SamePlace (s s' : Instance) : Prop :=
  s'.configuration = s.configuration ∧ (s.Numbered → s'.Numbered)

instance : IsPreorder Instance SamePlace where
  refl _ := ⟨rfl, fun h => h⟩
  trans _ _ _ h h' := ⟨h'.1.trans h.1, fun hs => h'.2 (h.2 hs)⟩

theorem Idle.samePlace (h : Idle s s') : SamePlace s s' := by
  have hnumbered := h.inert.numbered
  obtain ⟨_, _, _, _, rfl, -⟩ := h
  exact ⟨rfl, hnumbered⟩

theorem Arms.samePlace {scope : Nat} {xs : List Errand} (h : Arms scope xs s s') :
    SamePlace s s' := by
  have hnumbered := h.numbered
  obtain ⟨_, _, _, _, rfl, -⟩ := h.frame
  exact ⟨rfl, hnumbered⟩

theorem bears_samePlace : Bears SamePlace where
  quiet _ _ h := h.idle.samePlace
  computed computed s := (idle_computed computed s).samePlace

/-- Whatever comes of leaving a state, its scope is closed. -/
theorem samePlace_leave (e : Event) {node : StateNode} (hnode : m.graph.state id = .ok node)
    (s : Instance) : SamePlace (closeState id s) ((leave m e id).exec s).2 := by
  rw [exec_leave e hnode]
  exact moves_closed bears_samePlace.quiet e node _

/-- Whatever comes of entering a state, it is open. -/
theorem samePlace_enter (e : Event) {node : StateNode} (hnode : m.graph.state id = .ok node)
    (s : Instance) : SamePlace (openState id s) ((enter m e id).exec s).2 := by
  rw [exec_enter e hnode]
  exact bears_samePlace.opened (fun _ _ _ _ harms => harms.samePlace) e node s.serial _

/-- The active states are the first ones of a path, and each of them has its open scope; the leaf on
record is a certain one. -/
structure Upto (path : List String) (id : String) (s : Instance) : Prop where
  state : s.state = id
  active : s.active <+: path
  states : s.scopes.map (·.state) = s.active
  serials : s.scopes.map (·.serial) = s.live
  numbered : s.Numbered

theorem SamePlace.upto (h : SamePlace s s') (hs : Upto path id s) : Upto path id s' := by
  obtain ⟨hsame, hnumbered⟩ := h
  simp only [configuration, Configuration.mk.injEq] at hsame
  obtain ⟨hstate, hactive, hscopes, hlive, -⟩ := hsame
  refine ⟨hstate.trans hs.state, hactive ▸ hs.active, ?_, ?_, hnumbered hs.numbered⟩
  · rw [hscopes, hactive, hs.states]
  · rw [hscopes, hlive, hs.serials]

theorem SamePlace.active_eq (h : SamePlace s s') : s'.active = s.active :=
  congrArg Configuration.active h.1

/-- The innermost state is left. -/
theorem Upto.closeState (hs : Upto path id s) (hpath : path.Nodup) {kept : List String} {a : String}
    (hactive : s.active = kept ++ [a]) :
    Upto path id (closeState a s) ∧ (closeState a s).active = kept := by
  have hmap := hs.states.trans hactive
  obtain ⟨outer, inner, hscopes, rfl, hinner⟩ := List.map_eq_append_iff.mp hmap
  obtain ⟨c, rfl, rfl⟩ := List.map_eq_singleton_iff.mp hinner
  obtain ⟨alarms, calls, turns, hclose, -⟩ := left_closeState hs.numbered hscopes hs.states.symm
    hs.serials.symm (hpath.sublist hs.active.sublist)
  have hnumbered := hs.numbered.closeState c.state
  rw [hclose] at hnumbered ⊢
  have hshort : outer.map (·.state) <+: path := by
    refine List.IsPrefix.trans ?_ hs.active
    rw [hactive]
    exact List.prefix_append _ _
  exact ⟨⟨hs.state, hshort, rfl, rfl, hnumbered⟩, rfl⟩

/-- The next state of the path is entered. -/
theorem Upto.openState (hs : Upto path id s) (hpath : path.Nodup) {a : String}
    (hnext : s.active ++ [a] <+: path) :
    Upto path id (openState a s) ∧ (openState a s).active = s.active ++ [a] := by
  have hnew : s.scopes.any (·.state = a) = false := by
    have hnodup := hpath.sublist hnext.sublist
    have hnot : a ∉ s.scopes.map (·.state) := by
      rw [hs.states]
      exact fun hmem => (List.nodup_append.mp hnodup).2.2 _ hmem _ (by simp) rfl
    simpa using hnot
  have hscopes : (Instance.openState a s).scopes = s.scopes ++ [⟨a, s.serial⟩] := by
    simp [Instance.openState, hnew]
  refine ⟨⟨hs.state, hnext, ?_, ?_, hs.numbered.openState a⟩, rfl⟩
  · rw [hscopes, List.map_append, hs.states]
    rfl
  · rw [hscopes, List.map_append, hs.serials]
    rfl

/-! ## 3. Transitions -/

/-- **States are left** from the innermost one on, until something raises. -/
theorem comes_leaves (wf : m.graph.WellFormed) (e : Event) {leaf : String}
    (hpath : m.graph.pathTo leaf = .ok path) (hs : Upto path id s) (depth : Nat) :
    ((s.active.drop depth).reverse.forM (leave m e)).Comes s
      (fun _ s' => Upto path id s' ∧ s'.active = s.active.take depth) fun _ s' => Upto path id s' := by
  have hnodup := wf.nodup_pathTo hpath
  -- what is active and what has been left, in reverse, make up what was active
  refine (Comes.forM (I := fun done s' => Upto path id s' ∧ s'.active ++ done.reverse = s.active)
    ?_ ⟨hs, by simp⟩).mono ?_ fun _ _ h => h
  · rintro done a rest s' hcut ⟨hs', hdone⟩
    have hdrop : s.active.drop depth = rest.reverse ++ [a] ++ done.reverse := by
      rw [← List.reverse_reverse (s.active.drop depth), hcut]
      simp
    have hactive : s'.active = (s.active.take depth ++ rest.reverse) ++ [a] := by
      refine List.append_cancel_right (hdone.trans ?_)
      rw [List.append_assoc, List.append_assoc, ← List.append_assoc rest.reverse, ← hdrop,
        List.take_append_drop]
    have ha : a ∈ path := hs'.active.subset (by simp [hactive])
    obtain ⟨node, -, -, hnode⟩ := wf.exists_state (wf.pathTo_subset hpath ha)
    obtain ⟨hclosed, hkept⟩ := hs'.closeState hnodup hactive
    refine (Comes.of_after (samePlace_leave e hnode s')).mono (fun _ s₁ h => ⟨h.upto hclosed, ?_⟩)
      fun _ _ h => h.upto hclosed
    rw [h.active_eq, hkept]
    refine Eq.trans ?_ hdone
    rw [hactive]
    simp
  · rintro _ s' ⟨hs', hdone⟩
    have hcut : s'.active ++ s.active.drop depth = s.active.take depth ++ s.active.drop depth := by
      rw [List.take_append_drop]
      simpa using hdone
    exact ⟨hs', List.append_cancel_right hcut⟩

/-- **States are entered** along a path, until something raises. -/
theorem comes_enters (wf : m.graph.WellFormed) (e : Event) {leaf : String}
    (hpath : m.graph.pathTo leaf = .ok path) {depth : Nat} (hs : Upto path id s)
    (hkept : s.active = path.take depth) :
    ((path.drop depth).forM (enter m e)).Comes s
      (fun _ s' => Upto path id s' ∧ s'.active = path) fun _ s' => Upto path id s' := by
  have hnodup := wf.nodup_pathTo hpath
  refine (Comes.forM (I := fun done s' => Upto path id s' ∧ s'.active = path.take depth ++ done)
    ?_ ⟨hs, by simp [hkept]⟩).mono ?_ fun _ _ h => h
  · rintro done a rest s' hcut ⟨hs', hdone⟩
    have hwhole : path = path.take depth ++ done ++ [a] ++ rest := by
      rw [List.append_assoc, List.append_assoc, List.singleton_append, ← hcut,
        List.take_append_drop]
    have hnext : s'.active ++ [a] <+: path := ⟨rest, by rw [hdone, ← hwhole]⟩
    obtain ⟨node, -, -, hnode⟩ :=
      wf.exists_state (wf.pathTo_subset hpath (hnext.subset
        (List.mem_append_right _ List.mem_cons_self)))
    obtain ⟨hopen, hactive⟩ := hs'.openState hnodup hnext
    refine (Comes.of_after (samePlace_enter e hnode s')).mono (fun _ s₁ h => ⟨h.upto hopen, ?_⟩)
      fun _ _ h => h.upto hopen
    rw [h.active_eq, hactive, hdone, List.append_assoc]
  · rintro _ s' ⟨hs', hdone⟩
    exact ⟨hs', hdone.trans (List.take_append_drop depth path)⟩

/-- As long as it runs, an instance stands in a truncated configuration. -/
def Halfway (g : Graph) (s : Instance) : Prop :=
  s.status = .active → s.configuration.Truncated g

/-- What the way to a leaf comes to is a truncated configuration. -/
theorem Upto.halfway {node n : StateNode} (hs : Upto path id s) (hnode : node ∈ g.states)
    (hpath : g.pathTo node.id = .ok path) (hid : g.state id = .ok n) (hkind : n.kind ≠ .compound) :
    Halfway g s := fun _ =>
  { leaf := ⟨n, (congrArg g.state hs.state).trans hid, hkind⟩
    way := ⟨node, hnode, path, hpath, hs.active⟩
    states := hs.states
    serials := hs.serials
    distinct := hs.numbered.live_nodup }

/-- Entering states down to a leaf may break off on the way to it. -/
theorem comes_arrive_halfway (wf : m.graph.WellFormed) (e : Event) {node n : StateNode} {depth : Nat}
    (hnode : node ∈ m.graph.states) (hkind : node.kind ≠ .compound)
    (hpath : m.graph.pathTo node.id = .ok path) (hid : m.graph.state id = .ok n)
    (hkind' : n.kind ≠ .compound) (hs : Upto path id s) (hkept : s.active = path.take depth) :
    (arrive m e node.id depth).Comes s (fun _ s' => Halfway m.graph s') fun _ s' =>
      Halfway m.graph s' := by
  refine Comes.seek_bind hpath <| Comes.bind ((comes_enters wf e hpath hs hkept).mono
    (fun _ _ h => h) fun _ _ h => h.halfway hnode hpath hid hkind') fun _ s₁ hs₁ => ?_
  have hleaf : Upto path node.id { s₁ with state := node.id } :=
    ⟨rfl, hs₁.1.active, hs₁.1.states, hs₁.1.serials, ⟨hs₁.1.numbered.live_lt,
      hs₁.1.numbered.live_nodup, hs₁.1.numbered.scope_lt, hs₁.1.numbered.call_lt,
      hs₁.1.numbered.calls_nodup⟩⟩
  refine Comes.modify_bind <| Comes.seek_bind (wf.state_of_mem hnode) ?_
  split
  · exact Comes.of_ok (Run.exec_modify finish _) fun h => by cases h
  · exact Comes.pure (hleaf.halfway hnode hpath (wf.state_of_mem hnode) hkind)

/-- **Taking a candidate** may break off on the way to a leaf, the old one or the new one. -/
theorem comes_take (wf : m.graph.WellFormed) (e : Event) {c : Candidate}
    (hsettled : s.configuration.Settled m.graph) (hactive : s.status = .active) (hs : s.Numbered)
    (hoffers : m.graph.Offers s.state c) :
    (take m e c).Comes s (fun _ s' => Halfway m.graph s') fun _ s' => Halfway m.graph s' := by
  obtain ⟨n, hn, hkind⟩ := hsettled.leaf
  obtain ⟨hstates, hserials, -⟩ := hsettled.running hactive
  have hold : m.graph.pathTo s.state = .ok s.active := hsettled.path
  have hid : n.id = s.state := Graph.state_id hn
  have hfrom : Upto s.active s.state s := ⟨rfl, List.prefix_rfl, hstates, hserials, hs⟩
  have hbroken : ∀ s', Upto s.active s.state s' → Halfway m.graph s' := fun _ h =>
    h.halfway (Graph.mem_of_state hn) (hid ▸ hold) hn hkind
  have hacts : ∀ (way : List String) (s₁ : Instance), Upto way s.state s₁ →
      (runActions m e c.actions).Comes s₁ (fun _ s₂ => Upto way s.state s₂ ∧ s₂.active = s₁.active)
        fun _ s₂ => Upto way s.state s₂ := fun way s₁ h =>
    (Comes.of_moves (idle_runActions m e c.actions) s₁).mono
      (fun _ _ hidle => ⟨hidle.samePlace.upto h, hidle.samePlace.active_eq⟩)
      fun _ _ hidle => hidle.samePlace.upto h
  unfold take
  cases htarget : c.target with
  | none => exact (hacts _ s hfrom).mono (fun _ s' h => hbroken s' h.1) fun _ s' h => hbroken s' h
  | some target =>
    obtain ⟨node, hnode, hleaf, hkind', -, hplace⟩ :=
      wf.exists_leafFor (wf.target_mem hoffers htarget)
    obtain ⟨path, hpath⟩ := wf.exists_pathTo (List.mem_map.mpr ⟨node, hnode, rfl⟩)
    obtain ⟨depth, hdepth, -, hsame, -⟩ := exists_keptDepth wf hold hpath
      (wf.source_mem hold hoffers) ((wf.mem_pathTo_iff hpath target).mpr hplace)
    refine Comes.seek_bind hleaf <| Comes.seek_bind hdepth <| Comes.get_bind ?_
    refine Comes.bind ((comes_leaves wf e hold hfrom depth).mono (fun _ _ h => h) fun _ s' h =>
      hbroken s' h) fun _ s₁ hs₁ => ?_
    refine Comes.bind ((hacts _ s₁ hs₁.1).mono (fun _ _ h => h) fun _ s' h => hbroken s' h)
      fun _ s₂ hs₂ => ?_
    -- what is still active belongs to the way to the new leaf as well
    have hkept : s₂.active = path.take depth := by rw [hs₂.2, hs₁.2, hsame]
    have hnew : Upto path s.state s₂ :=
      ⟨hs₂.1.state, hkept ▸ List.take_prefix _ _, hs₂.1.states, hs₂.1.serials, hs₂.1.numbered⟩
    exact comes_arrive_halfway wf e hnode hkind' hpath hn hkind hnew hkept

/-- **Processing an event** in a settled configuration may break off halfway. -/
theorem halfway_process (wf : m.graph.WellFormed) (e : Event)
    (hsettled : s.configuration.Settled m.graph) (hactive : s.status = .active) (hs : s.Numbered) :
    Halfway m.graph ((process m e).exec s).2 := by
  have hidle : ∀ s', Idle { s with lastEvent := some e.type } s' → Halfway m.graph s' := by
    intro s' h _
    rw [h.samePlace.1]
    exact hsettled.truncated hactive
  rcases select_of_known (s := { s with lastEvent := some e.type }) wf e
      (wf.mem_ids_of_pathTo hsettled.path) with ⟨c?, world, hselect, hoffers⟩ | ⟨f, world, hselect⟩
  · cases c? with
    | none =>
      refine hidle _ (trans_of Idle (idle_world _ world) ?_)
      rw [process, exec_bind_ok (exec_modify _ s), exec_bind_ok hselect]
      dsimp only
      split
      · exact Moves.get_bind (fun s => Moves.bind (Moves.lift _) (fun _ => idle_perform _) s) _
      · exact refl_of Idle _
    | some c =>
      have htake := comes_take (s := { s with lastEvent := some e.type, world }) wf e
        ⟨hsettled.leaf, hsettled.path, hsettled.distinct, hsettled.running, hsettled.ended⟩ hactive
        ⟨hs.live_lt, hs.live_nodup, hs.scope_lt, hs.call_lt, hs.calls_nodup⟩ (hoffers c rfl)
      rw [process_of_selected hselect]
      rcases htake.cases with ⟨_, _, h⟩ | ⟨_, _, h⟩ <;> exact h
  · rw [process, exec_bind_ok (exec_modify _ s), exec_bind_error hselect]
    exact fun _ => hsettled.truncated hactive

/-- Entering the first leaf may break off on the way to it. -/
theorem halfway_enterFirst (wf : m.graph.WellFormed) (hs : Unopened m.graph s)
    (hnumbered : s.Numbered) :
    Halfway m.graph ((enterFirst m).exec { s with started := true }).2 := by
  obtain ⟨node, hnode, hleaf, hkind, -⟩ := wf.exists_leafFor wf.initial_mem
  obtain ⟨path, hpath⟩ := wf.exists_pathTo (List.mem_map.mpr ⟨node, hnode, rfl⟩)
  have hid : s.state = node.id := Except.ok.inj (hs.first.symm.trans hleaf)
  have hfrom : Upto path node.id { s with started := true } := by
    refine ⟨hid, ?_, ?_, ?_, hnumbered.sublist rfl (.refl _) (.refl _) (.refl _)⟩
    · exact hs.active.symm ▸ List.nil_prefix
    · exact (congrArg _ hs.scopes).trans hs.active.symm
    · exact (congrArg _ hs.scopes).trans hs.live.symm
  have hcomes : (enterFirst m).Comes { s with started := true } (fun _ s' => Halfway m.graph s')
      fun _ s' => Halfway m.graph s' :=
    Comes.seek_bind hleaf (comes_arrive_halfway wf startEvent hnode hkind hpath
      (wf.state_of_mem hnode) hkind hfrom hs.active)
  exact hcomes.cases.elim (fun ⟨_, _, h⟩ => h) fun ⟨_, _, h⟩ => h

/-! ## 4. Events one after the other -/

/-- A settled configuration stays settled. -/
def KeepsStanding (g : Graph) (s s' : Instance) : Prop := Standing g s → Standing g s'

instance (g : Graph) : IsPreorder Instance (KeepsStanding g) where
  refl _ h := h
  trans _ _ _ h h' hs := h' (h hs)

theorem keepsStanding_of_same (hsame : s'.configuration = s.configuration)
    (hstarted : s'.started = s.started) (hnumbered : s.Numbered → s'.Numbered) :
    KeepsStanding g s s' := fun hs =>
  ⟨hstarted.trans hs.started, hnumbered hs.numbered, hsame ▸ hs.settled⟩

theorem keepsStanding_aside (h : Aside m s s') : KeepsStanding m.graph s s' := by
  have hnumbered := (Step.aside h).numbered
  cases h <;> exact keepsStanding_of_same rfl rfl hnumbered

theorem keepsStanding_note (x : Happening) (s : Instance) : KeepsStanding g s (s.note x) :=
  keepsStanding_of_same rfl rfl fun h => h.sublist rfl (.refl _) (.refl _) (.refl _)

theorem keepsStanding_enqueue (q : Queued) (s : Instance) : KeepsStanding g s (enqueue q s) :=
  keepsStanding_of_same rfl rfl fun h => h.sublist rfl (.refl _) (.refl _) (.refl _)

theorem keepsStanding_accept (event : Value) : Moves (KeepsStanding g) (accept m event) :=
  moves_accept (fun e s => keepsStanding_enqueue ⟨e, none⟩ s) event

theorem keepsStanding_stop : Moves (KeepsStanding m.graph) (stop m) := by
  intro s
  unfold stop
  rw [exec_get_bind]
  split
  · rename_i hactive
    have hrefuse : ∀ q, Moves (KeepsStanding m.graph) (refuse m q) :=
      moves_refuse fun e s => keepsStanding_enqueue ⟨e, none⟩ s
    have hstopped : KeepsStanding m.graph s
        ({ s.closeAll with status := .stopped, queue := [] }.note (.ended .stopped)) := by
      intro hs
      have hnumbered := (Step.stopped (m := m) hactive).numbered hs.numbered
      obtain ⟨_, _, _, hclose, -⟩ := closeAll_less (hs.settled.running hactive).2.1.symm
      rw [hclose] at hnumbered ⊢
      exact ⟨hs.started, hnumbered, hs.settled.leaf, hs.settled.path, hs.settled.distinct,
        fun h => (by cases h), fun _ => ⟨rfl, rfl⟩⟩
    rw [exec_bind_ok (exec_modify _ s)]
    have hpublish := moves_publish (fun _ _ h _ => keepsStanding_aside h) hrefuse
    exact trans_of _ hstopped (hpublish _)
  · exact refl_of (KeepsStanding m.graph) s

theorem keepsStanding_publish :
    Moves (KeepsStanding m.graph) (publish m (respondLater m)) := by
  refine moves_publish (fun _ _ h _ => keepsStanding_aside h) fun q => ?_
  cases q with
  | send event => exact keepsStanding_accept event
  | stop => exact keepsStanding_stop

theorem Standing.halfway (hs : Standing g s) : Halfway g s := hs.settled.truncated

/-- An event that is processed to its end leaves a settled configuration; else it breaks off. -/
theorem comes_process_standing (wf : m.graph.WellFormed) (e : Event) (hs : Standing m.graph s)
    (hactive : s.status = .active) :
    (process m e).Comes s (fun _ s' => Standing m.graph s') fun _ s' => Halfway m.graph s' := by
  have hparts : Parts m.graph s ((process m e).exec s).2 := parts_process e s
  have hstarted := hparts.started_eq.trans hs.started
  have hnumbered := hparts.numbered hs.numbered
  have hafter := Comes.of_after (x := process m e)
    (P := fun s' => s'.started = true ∧ s'.Numbered ∧ Halfway m.graph s')
    ⟨hstarted, hnumbered, halfway_process wf e hs.settled hactive hs.numbered⟩
  refine ((comes_process wf e hs.settled hactive hs.numbered).and hafter).mono ?_ fun _ _ h => h.2.2.2
  rintro _ s' ⟨hstays | ⟨_, _, _, _, _, _, _, _, htransition⟩, hstarted, hnumbered, -⟩
  · exact ⟨hstarted, hnumbered, (hstays.rests (g := m.graph)).settled hs.settled⟩
  · exact ⟨hstarted, hnumbered, htransition.toArrival.settled wf hactive hnumbered⟩

/-- **Events are processed one after the other** until one of them breaks off. -/
theorem comes_drainFor (wf : m.graph.WellFormed) (fuel : Nat) (hs : Standing m.graph s) :
    (drainFor m fuel).Comes s (fun _ s' => Standing m.graph s') fun _ s' => Halfway m.graph s' := by
  induction fuel generalizing s with
  | zero => exact Comes.of_error (exec_fail _ s) hs.halfway
  | succ fuel ih =>
    -- the queue and the journal do not matter
    have hsame : ∀ queue journal, Standing m.graph { s with queue, journal } := fun _ _ =>
      ⟨hs.started, hs.numbered.sublist rfl (.refl _) (.refl _) (.refl _), hs.settled⟩
    by_cases hactive : s.status = .active
    · cases hqueue : s.queue with
      | nil => exact Comes.of_ok (exec_drainFor_nil fuel (Or.inl hqueue)) (hsame [] s.journal)
      | cons q rest =>
        by_cases hlive : q.scope.all s.isLive = true
        · refine Comes.of_exec (exec_drainFor_live fuel hqueue hactive hlive) ?_
          refine Comes.bind (comes_process_standing wf q.event (hsame rest _) hactive)
            fun _ s₁ hs₁ => ?_
          have hdone := keepsStanding_note (.processed q) s₁ hs₁
          refine Comes.modify_bind (k := Instance.note (.processed q)) ?_
          exact Comes.bind ((Comes.of_moves keepsStanding_publish _).mono
            (fun _ _ h => h hdone) fun _ _ h => (h hdone).halfway) fun _ s₂ hs₂ => ih hs₂
        · exact Comes.of_exec (exec_drainFor_closed fuel hqueue hactive hlive) (ih (hsame rest _))
    · exact Comes.of_ok (exec_drainFor_nil fuel (Or.inr hactive)) (hsame [] s.journal)

/-- **A request to send that fails** leaves a settled configuration, or one that broke off. -/
theorem comes_send (wf : m.graph.WellFormed) (event : Value) (hs : Standing m.graph s) :
    (send m event).Comes s (fun _ s' => Standing m.graph s') fun _ s' => Halfway m.graph s' := by
  cases he : Event.ofValue event with
  | error f => exact Comes.of_error (send_of_malformed he) hs.halfway
  | ok e =>
    by_cases hactive : s.status = .active
    · exact Comes.of_exec (send_of_started hactive hs.started he)
        (comes_drainFor wf m.budget (keepsStanding_enqueue _ s hs))
    · exact Comes.of_error (send_of_ended hactive he) hs.halfway

/-- A start whose first entries raise fails. -/
theorem start_of_failed (hs : s.started = false) {f : Fault}
    (h : (enterFirst m).exec { s with started := true } = (.error f, s')) :
    (start m).exec s = (.error f, s') := by
  rw [start_of_unstarted hs]
  exact exec_bind_error h

/-! ## 5. After a first raise -/

/-- No state has been entered or left since something raised for the first time, apart from
guards. -/
def Unmoved (s : Instance) : Prop :=
  ∃ before rest, s.journal = before ++ rest ∧ (∀ o f, .raised o f ∈ before → o = .guard) ∧
    ∀ x ∈ rest, x.KeepsScopes

/-- Before a first raise nothing else has raised; and since then no state has been entered or left. -/
theorem Unmoved.earlier (h : s'.Unmoved) {notes : List Happening}
    (hjournal : s'.journal = s.journal ++ notes) :
    s.Calm ∨ s.Unmoved ∧ ∀ x ∈ notes, x.KeepsScopes := by
  obtain ⟨before, rest, hcut, hcalm, hrest⟩ := h
  rcases List.append_eq_append_iff.mp (hjournal.symm.trans hcut) with
      ⟨more, rfl, -⟩ | ⟨more, hbefore, rfl⟩
  · exact Or.inl fun o f hx => hcalm o f (List.mem_append_left _ hx)
  · exact Or.inr ⟨⟨before, more, hbefore, hcalm, fun x hx => hrest x (List.mem_append_left _ hx)⟩,
      fun x hx => hrest x (List.mem_append_right _ hx)⟩

/-- If no state is entered or left, an event leaves an instance where it stands. -/
theorem Course.samePlace (h : Course g s s') {notes : List Happening}
    (hjournal : s'.journal = s.journal ++ notes) (hnotes : ∀ x ∈ notes, x.KeepsScopes) :
    s'.configuration = s.configuration := by
  cases h with
  | within h =>
    obtain ⟨own, hown, -, hsame⟩ := h.noted
    rw [List.append_cancel_left (hown.symm.trans hjournal)] at hsame
    exact hsame hnotes
  | @arrives s₁ node _ _ _ _ hmoved =>
    obtain ⟨own, d, hown, hd⟩ := hmoved
    obtain ⟨_, _, _, _, _, _, more, hframe, -⟩ := settleAt_frame node s₁
    rw [hframe] at hjournal
    have hcut : s.journal ++ (own ++ more) = s.journal ++ notes := by
      rw [← hjournal, ← List.append_assoc, ← hown]
    have hmem : .entered d ∈ notes := List.append_cancel_left hcut ▸ List.mem_append_left _ hd
    exact absurd (hnotes _ hmem) (fun h => h)

/-- **A step after a first raise** leaves an instance halfway, if it enters and leaves nothing. -/
theorem Step.halfway (wf : m.graph.WellFormed) (h : Step m s s') (hs : Reached m s)
    (hunmoved : s'.Unmoved) (hstarted' : s'.started = true)
    (ih : s.started = true → s.Unmoved → Halfway m.graph s) : Halfway m.graph s' := by
  intro hrunning
  obtain ⟨notes, hjournal⟩ := h.grown
  have hearlier := hunmoved.earlier hjournal.symm
  have hunmoved₁ : s.Unmoved := hearlier.elim
    (fun hcalm => ⟨s.journal, [], by simp, hcalm, by simp⟩) And.left
  rcases h.keeps_or_moves with hkeeps | ⟨hstart, rfl⟩ | ⟨hstarted, hactive, e, rfl⟩
  · have hsame := hkeeps.configuration.resolve_right fun hended => hended hrunning
    rw [hsame]
    exact ih (hkeeps.started.symm.trans hstarted') hunmoved₁
      ((congrArg Configuration.status hsame).symm.trans hrunning)
  · exact halfway_enterFirst wf (unopened_of_reached hs hstart) (numbered_of_reached hs) hrunning
  · rcases hearlier with hcalm | ⟨-, hnotes⟩
    · rcases standing_of_reached wf hs hcalm with hblank | hstanding | hended
      · exact absurd (hblank.started.symm.trans hstarted) (by decide)
      · exact halfway_process wf e hstanding.settled hactive hstanding.numbered hrunning
      · exact absurd hactive hended
    · have hbefore := ih hstarted hunmoved₁ hactive
      obtain ⟨n, hn, -⟩ := hbefore.leaf
      obtain ⟨hmem, hid⟩ := wf.state_eq_ok_iff.mp hn
      have hcourse := course_process wf e (List.mem_map.mpr ⟨n, hmem, hid⟩)
      rw [hcourse.samePlace hjournal.symm hnotes]
      exact hbefore

/-- **What a first raise leaves**, for as long as no other state is entered or left. -/
theorem halfway_of_reached (wf : m.graph.WellFormed) (h : Reached m s) (hunmoved : s.Unmoved)
    (hstarted : s.started = true) : Halfway m.graph s := by
  obtain ⟨s₀, hfresh, hsteps⟩ := h
  induction hsteps with
  | refl =>
    obtain ⟨_, _, _, _, rfl⟩ := eq_of_fresh hfresh
    cases hstarted
  | tail hsteps hstep ih =>
    exact hstep.halfway wf ⟨s₀, hfresh, hsteps⟩ hunmoved hstarted fun hs hu => ih hu hs

end Instance

namespace Definition

open Instance

variable {registry : Registry} {config : Config} {source : FlowSource} {c : Compiled} {m : Machine}

/-! ## 6. Raises in runs of definitions -/

/-- Each active state of an instance that runs has its open scope, they are the first ones on the way
to a leaf, and all is consistent if and only if the leaf on record is among them. -/
def BrokenOff (g : Graph) (s : Instance) : Prop :=
  s.status = .active →
    s.configuration.Truncated g ∧ (g.pathTo s.state = .ok s.active ↔ s.state ∈ s.active)

/-- **What a raise leaves**, for every definition that compiles: if the start raises while the first
leaf is entered; if a request to send fails in a settled configuration; and whenever in a run, since
the first raise, no state has been entered or left. -/
theorem brokenOff_of_raise (h : compileSource registry config source = .ok c)
    (hm : m.graph = c.graph) {s : Instance} (hs : Reached m s) :
    (s.started = false → ∀ f s', (enterFirst m).exec { s with started := true } = (.error f, s') →
        (start m).exec s = (.error f, s') ∧ BrokenOff c.graph s') ∧
      (s.started = true → s.configuration.Settled c.graph → ∀ event f s',
        (send m event).exec s = (.error f, s') → BrokenOff c.graph s') ∧
      (s.started = true → s.Unmoved → BrokenOff c.graph s) := by
  have wf : m.graph.WellFormed := hm ▸ wellFormed_graph h
  rw [← hm]
  have hbroken : ∀ s', Halfway m.graph s' → BrokenOff m.graph s' := fun s' hs' hactive =>
    ⟨hs' hactive, (hs' hactive).path_iff wf⟩
  refine ⟨fun hstarted f s' hf => ⟨start_of_failed hstarted hf, hbroken s' ?_⟩,
    fun hstarted hsettled event f s' hf => hbroken s' ?_, fun hstarted hunmoved =>
      hbroken s (halfway_of_reached wf hs hunmoved hstarted)⟩
  · have hfirst := halfway_enterFirst wf (unopened_of_reached hs hstarted) (numbered_of_reached hs)
    rwa [hf] at hfirst
  · have hsend := comes_send wf event ⟨hstarted, numbered_of_reached hs, hsettled⟩
    rwa [Run.Comes, hf] at hsend

/-- A state that raises when it is left. -/
def stickyFlow : Value :=
  .record [("initial", .text "a"), ("states", .record [
    ("a", .record [("exit", .list [.text "boom"]), ("on", .record [("GO", .text "b")])]),
    ("b", .record [])])]

/-- What comes of a request to send that fails. -/
theorem exists_failed (m : Machine) (event : Value) (s : Instance) (P : Instance → Bool)
    (h : (match (send m event).exec s with
      | (.error _, s') => P s'
      | _ => false) = true) :
    ∃ f s', (send m event).exec s = (.error f, s') ∧ P s' = true := by
  split at h
  · rename_i f s' hsend
    exact ⟨f, s', hsend, h⟩
  · cases h

/-- A run in which leaving a state raises. -/
theorem brokenOff_of_raise_sticky : ∃ c m s f s',
    compileSource raisingRegistry {} (.ofValue stickyFlow) = .ok c ∧ m.graph = c.graph ∧
      Reached m s ∧ s.started = true ∧ s.configuration.Settled c.graph ∧
      (send m (.text "GO")).exec s = (.error f, s') ∧ s'.status = .active ∧
      ((s.started = false → ∀ f s', (enterFirst m).exec { s with started := true } = (.error f, s') →
          (start m).exec s = (.error f, s') ∧ BrokenOff c.graph s') ∧
        (s.started = true → s.configuration.Settled c.graph → ∀ event f s',
          (send m event).exec s = (.error f, s') → BrokenOff c.graph s') ∧
        (s.started = true → s.Unmoved → BrokenOff c.graph s)) := by
  obtain ⟨c, m, s₀, hc, hm, hs, hrun⟩ := exists_played raisingRegistry {} (.ofValue stickyFlow)
    [.start] (fun m s => s.started && s.Calm && s.status = .active &&
      match (send m (.text "GO")).exec s with
      | (.error _, s') => s'.status = .active
      | _ => false) (by decide +kernel)
  simp only [Bool.and_eq_true, decide_eq_true_eq] at hrun
  obtain ⟨⟨⟨hstarted, hcalm⟩, hactive⟩, hrun⟩ := hrun
  obtain ⟨f, s', hsend, hactive'⟩ := exists_failed m _ _ _ hrun
  have hreached := reached_after (m := m) [.start] hs
  have hsettled : (after m [.start] s₀).configuration.Settled c.graph := by
    rcases standing_of_reached (hm ▸ wellFormed_graph hc) hreached hcalm with
        hblank | hstanding | hended
    · exact absurd (hblank.started.symm.trans hstarted) (by decide)
    · exact hm ▸ hstanding.settled
    · exact absurd hactive hended
  exact ⟨c, m, _, f, s', hc, hm, hreached, hstarted, hsettled, hsend, of_decide_eq_true hactive',
    brokenOff_of_raise hc hm hreached⟩

/-- A request to send that raises while a state is left leaves the state on record, but not active. -/
theorem inconsistent_after_raise : ∃ c m s f s',
    compileSource raisingRegistry {} (.ofValue stickyFlow) = .ok c ∧ m.graph = c.graph ∧
      Reached m s ∧ s.Calm ∧ (send m (.text "GO")).exec s = (.error f, s') ∧
      s'.status = .active ∧ s'.state = "a" ∧ s'.active = [] ∧
      c.graph.pathTo s'.state ≠ .ok s'.active := by
  obtain ⟨c, m, s₀, hc, hm, hs, hrun⟩ := exists_played raisingRegistry {} (.ofValue stickyFlow)
    [.start] (fun m s => s.Calm && match (send m (.text "GO")).exec s with
      | (.error _, s') => s'.status = .active && s'.state = "a" && s'.active = [] &&
        (m.graph.pathTo s'.state).toOption = some ["a"]
      | _ => false) (by decide +kernel)
  rw [Bool.and_eq_true, decide_eq_true_eq] at hrun
  obtain ⟨f, s', hsend, hend⟩ := exists_failed m _ _ _ hrun.2
  simp only [Bool.and_eq_true, decide_eq_true_eq] at hend
  obtain ⟨⟨⟨hactive, hstate⟩, hnone⟩, hpath⟩ := hend
  refine ⟨c, m, _, f, s', hc, hm, reached_after _ hs, hrun.1, hsend, hactive, hstate, hnone, ?_⟩
  intro hown
  rw [hm, hown, hnone] at hpath
  exact absurd hpath (by decide)

end Definition

end Statechart
