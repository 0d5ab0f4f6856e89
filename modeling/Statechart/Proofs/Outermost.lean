/-
# One warning for a subtree

A state that no run can come to is warned about only if it stands outermost or the state around it can be
come to.  Whether that is so is asked of each state by itself; that it picks one state on each way outwards
rests on two facts about the whole graph:

* **what can be come to is closed outwards** (`Graph.WellFormed.reachable_around`), so that the way outwards
  from a state that cannot be come to divides into a part outside and a part inside, once;
* **the state where it divides is the only one on that way that the test picks**
  (`Graph.WellFormed.exists_outermost`).

* **`Definition.warned_once_of_compileSource`**: hence each state that no run can come to has one warning on
  the way outwards from it, about the outermost of them, and the others have none.
-/
import Statechart.Proofs.Reachability
import Statechart.Proofs.Stop

namespace Statechart

namespace Graph

variable {g : Graph} {ids : List String}

/-! ## 1. The outermost state that is not among others -/

/-- Some states hold, with each of them, all those around it. -/
def ClosedOutwards (g : Graph) (ids : List String) : Prop := ∀ a b, g.IsAround a b → b ∈ ids → a ∈ ids

/-- A state is not among others, and the one around it, if there is one, is. -/
def isOutermost (ids : List String) (n : StateNode) : Bool :=
  !ids.contains n.id && n.parent.all ids.contains

theorem isOutermost_iff {n : StateNode} :
    isOutermost ids n = true ↔ n.id ∉ ids ∧ ∀ p, n.parent = some p → p ∈ ids := by
  cases hp : n.parent <;> simp [isOutermost, hp]

namespace WellFormed

theorem reachable_around (wf : g.WellFormed) (h : g.reachable = .ok ids) : g.ClosedOutwards ids := by
  obtain ⟨ids', hids, hmem⟩ := wf.exists_reachable
  rw [h] at hids
  cases hids
  intro a b hab hb
  obtain ⟨leaf, hleaf, hplace⟩ := (hmem b).mp hb
  refine (hmem a).mpr ⟨leaf, hleaf, .inr ?_⟩
  rcases hplace with rfl | hplace
  · exact hab
  · exact hab.trans hplace

/-- Among the states there is one with a given identifier. -/
theorem filter_id_eq (wf : g.WellFormed) {n : StateNode} (hn : n ∈ g.states) :
    g.states.filter (fun m => m.id = n.id) = [n] := by
  obtain ⟨before, after, hs⟩ := List.append_of_mem hn
  have hdistinct : (before ++ n :: after).map (·.id) |>.Nodup := hs ▸ wf.distinct
  rw [List.map_append, List.map_cons, List.nodup_middle, List.nodup_cons, ← List.map_append] at hdistinct
  have hother : ∀ m ∈ before ++ after, ¬ m.id = n.id := fun m hm hid =>
    hdistinct.1 (hid ▸ List.mem_map_of_mem hm)
  rw [List.forall_mem_append] at hother
  rw [hs, List.filter_append, List.filter_cons_of_pos (by simp),
    List.filter_eq_nil_iff.mpr fun m hm => by simpa using hother.1 m hm,
    List.filter_eq_nil_iff.mpr fun m hm => by simpa using hother.2 m hm]
  rfl

/-- The whole way outwards from a member consists of members. -/
theorem pathTo_subset_of_closed (wf : g.WellFormed) (hclosed : g.ClosedOutwards ids) {id : String}
    {path : List String} (hpath : g.pathTo id = .ok path) (hid : id ∈ ids) : path ⊆ ids := by
  intro a ha
  rcases (wf.mem_pathTo_iff hpath a).mp ha with rfl | haround
  · exact hid
  · exact hclosed a id haround hid

/-- **The way outwards divides once**, and the state where it does is the only one on it that is not
among the members while the state around it is. -/
theorem exists_outermost (wf : g.WellFormed) (hclosed : g.ClosedOutwards ids) :
    ∀ n ∈ g.states, n.id ∉ ids → ∀ path, g.pathTo n.id = .ok path →
      ∃ outer top inner, path = outer ++ top :: inner ∧ outer ⊆ ids ∧ (∀ a ∈ top :: inner, a ∉ ids) ∧
        ∀ m ∈ g.states, m.id ∈ path → (isOutermost ids m = true ↔ m.id = top) := by
  refine wf.outward fun n hn ih hout path hpath => ?_
  -- a state on the way that is this one, by its identifier
  have hself : ∀ m ∈ g.states, m.id = n.id → m = n := fun m hm hid => wf.eq_of_id hm hn hid
  cases hp : n.parent with
  | none =>
    rw [wf.pathTo_outermost hn hp] at hpath
    cases hpath
    refine ⟨[], n.id, [], rfl, List.nil_subset _, by simpa using hout, fun m hm hid => ?_⟩
    obtain rfl := hself m hm (List.mem_singleton.mp hid)
    simp [isOutermost_iff, hout, hp]
  | some p =>
    obtain ⟨parent, hparent, rfl⟩ := wf.exists_parent hn hp
    obtain ⟨around, haround⟩ := wf.exists_pathTo (List.mem_map_of_mem hparent)
    rw [wf.pathTo_inside hn hp haround] at hpath
    cases hpath
    by_cases hin : parent.id ∈ ids
    · have hmembers := wf.pathTo_subset_of_closed hclosed haround hin
      refine ⟨around, n.id, [], rfl, hmembers, by simpa using hout, fun m hm hid => ?_⟩
      rcases List.mem_append.mp hid with hid | hid
      · refine iff_of_false (fun h => (isOutermost_iff.mp h).1 (hmembers hid)) fun heq => ?_
        exact hout (heq ▸ hmembers hid)
      · obtain rfl := hself m hm (List.mem_singleton.mp hid)
        simp [isOutermost_iff, hout, hp, hin]
    · obtain ⟨outer, top, inner, rfl, houter, hinner, honly⟩ := ih parent hparent hp hin around haround
      refine ⟨outer, top, inner ++ [n.id], by simp, houter, ?_, fun m hm hid => ?_⟩
      · intro a ha
        rcases List.mem_append.mp (List.cons_append ▸ ha) with ha | ha
        · exact hinner a ha
        · exact List.mem_singleton.mp ha ▸ hout
      · rcases List.mem_append.mp hid with hid | hid
        · exact honly m hm hid
        · obtain rfl := hself m hm (List.mem_singleton.mp hid)
          refine iff_of_false (fun h => hin ((isOutermost_iff.mp h).2 _ hp)) fun heq => ?_
          -- the state does not stand on the way to the one around it
          have hnot : m.id ∉ outer ++ top :: inner := fun hmem => by
            have hplace := (wf.mem_pathTo_iff haround m.id).mp hmem
            exact wf.not_isAround_self m.id ((wf.isAround_iff hn).mpr ⟨parent.id, hp, hplace⟩)
          exact hnot (by simp [heq])

end WellFormed

end Graph

/-! ## 2. What an analysis says of states that cannot be come to -/

namespace Analysis

variable {g : Graph} {is us : List Issue} {ids : List String}

/-- The warning about a state that no run can come to. -/
def unreachableIssue (g : Graph) (id : String) : Issue := ⟨.unreachable id g.initial, some id⟩

/-- An issue warns about one of some states as one that no run can come to. -/
def warnsWithin (path : List String) (i : Issue) : Bool := i.problem.unreachable?.any path.contains

theorem unreachableStates_eq (hids : g.reachable = .ok ids) :
    unreachableStates g =
      .ok ((g.states.filter (Graph.isOutermost ids)).map fun n => unreachableIssue g n.id) := by
  rw [unreachableStates, hids]
  rfl

/-- An analysis that is done is put together of three. -/
theorem eq_append_of_analysed (wf : g.WellFormed) {strict : Bool}
    (h : Definition.analysed strict g = .ok is) :
    ∃ us ds ps, unreachableStates g = .ok us ∧ deadEnds g = .ok ds ∧ unprovided strict g = .ok ps ∧
      is = us ++ ds ++ ps := by
  obtain ⟨us, ds, hus, hds⟩ := exists_searched wf
  have hissues : issues strict g = (unprovided strict g >>= fun ps => pure (us ++ ds ++ ps)) := by
    rw [issues, hus, hds]
    rfl
  rw [Definition.analysed, hissues] at h
  cases hps : unprovided strict g with
  | error f =>
    obtain ⟨e, rfl⟩ := unprovided_failsOnly strict g f hps
    rw [hps] at h
    cases h
  | ok ps =>
    rw [hps] at h
    cases h
    exact ⟨us, ds, ps, hus, hds, rfl, rfl⟩

theorem filter_eq_nil_of_no_state {path : List String} {is : List Issue}
    (h : ∀ i ∈ is, ∀ id, i.problem.unreachable? ≠ some id) : is.filter (warnsWithin path) = [] := by
  refine List.filter_eq_nil_iff.mpr fun i hi hwarns => ?_
  rw [warnsWithin, Option.any_eq_true] at hwarns
  obtain ⟨id, hid, -⟩ := hwarns
  exact h i hi id hid

/-- Of the states on a way outwards, the one that the test picks is warned about once. -/
theorem filter_unreachable_of_only (wf : g.WellFormed) {path : List String} {top : String}
    (htop : top ∈ path) (hpath : path ⊆ g.ids)
    (honly : ∀ m ∈ g.states, m.id ∈ path → (Graph.isOutermost ids m = true ↔ m.id = top)) :
    ((g.states.filter (Graph.isOutermost ids)).map fun n => unreachableIssue g n.id).filter
      (warnsWithin path) = [unreachableIssue g top] := by
  obtain ⟨n, hn, rfl⟩ := List.mem_map.mp (hpath htop)
  have hpicked : ∀ m ∈ g.states,
      (warnsWithin path (unreachableIssue g m.id) && Graph.isOutermost ids m) = decide (m.id = n.id) := by
    intro m hm
    by_cases hmem : m.id ∈ path
    · rw [Bool.eq_iff_iff, decide_eq_true_iff, ← honly m hm hmem]
      simp [warnsWithin, unreachableIssue, Problem.unreachable?, hmem]
    · have hne : m.id ≠ n.id := fun heq => hmem (heq ▸ htop)
      simp [warnsWithin, unreachableIssue, Problem.unreachable?, hmem, hne]
  rw [List.filter_map, List.filter_filter, Function.comp_def, List.filter_congr hpicked,
    wf.filter_id_eq hn]
  rfl

end Analysis

namespace Definition

variable {registry : Registry} {config : Config} {source : FlowSource} {c : Compiled}

/-! ## 3. Warnings about definitions -/

/-- **The warnings about states that cannot be come to** are those of the analysis; a compilation adds none,
and the analysis of what compiles is done. -/
theorem filter_warnings (h : compileSource registry config source = .ok c) {ids : List String}
    (hids : c.graph.reachable = .ok ids) (path : List String) :
    c.warnings.filter (Analysis.warnsWithin path) =
      ((c.graph.states.filter (Graph.isOutermost ids)).map fun n =>
        Analysis.unreachableIssue c.graph n.id).filter (Analysis.warnsWithin path) := by
  obtain ⟨o, ho, hg, he, hwarnings⟩ := outcome_of_compileSource h
  obtain ⟨es, progress, more, -, hrun, hclean, hmore, hissues, -⟩ := exists_nodes_of_run ho hg he
  obtain ⟨us, ds, ps, hus, hds, hps, rfl⟩ := Analysis.eq_append_of_analysed (wellFormed_graph h) hmore
  rw [Analysis.unreachableStates_eq hids] at hus
  cases hus
  obtain ⟨hgrown, hnodes⟩ := nodes_meets registry config es _ _ _ _ hrun
  have hnotice : ∀ i ∈ progress.issues, i.problem.IsNotice := fun i hi =>
    ((hnodes hclean).1 i hi).resolve_left
      (List.eq_nil_iff_forall_not_mem.mp (formal_eq_nil hgrown hclean) i)
  have hdead : ∀ i ∈ ds, ∀ id, i.problem.unreachable? ≠ some id := by
    intro i hi id hid
    obtain ⟨n, -, hproblem, -⟩ := Analysis.mem_deadEnds hds hi
    rw [hproblem] at hid
    cases hid
  rw [hwarnings, hissues, List.filter_append, List.filter_append, List.filter_append,
    Analysis.filter_eq_nil_of_no_state fun i hi id => ((hnotice i hi).no_state id).1,
    Analysis.filter_eq_nil_of_no_state hdead,
    Analysis.filter_eq_nil_of_no_state fun i hi id => ((Analysis.mem_unprovided hps hi).no_state id).1,
    List.nil_append, List.append_nil, List.append_nil]

/-- **A subtree that no run can come to is warned about once.**  For each state of a compiled flow: if no
run can come to it, then the way outwards from it, which holds it and the states around it, divides into
states that can be come to and states that cannot, and of all the warnings there is just one about any of
them as unreachable, the one about the outermost state that cannot be come to.  If a run can come to it, then
also to all states around it, and there is no such warning. -/
theorem warned_once_of_compileSource (h : compileSource registry config source = .ok c) :
    ∃ ids, c.graph.reachable = .ok ids ∧ ∀ id ∈ c.graph.ids, ∃ path, c.graph.pathTo id = .ok path ∧
      (∀ a, a ∈ path ↔ a = id ∨ c.graph.IsAround a id) ∧
      (id ∉ ids → ∃ outer top inner, path = outer ++ top :: inner ∧ outer ⊆ ids ∧
        (∀ a ∈ top :: inner, a ∉ ids) ∧
        c.warnings.filter (Analysis.warnsWithin path) = [⟨.unreachable top c.graph.initial, some top⟩]) ∧
      (id ∈ ids → path ⊆ ids ∧ c.warnings.filter (Analysis.warnsWithin path) = []) := by
  have wf := wellFormed_graph h
  obtain ⟨ids, hids, -⟩ := wf.exists_reachable
  have hclosed := wf.reachable_around hids
  refine ⟨ids, hids, fun id hid => ?_⟩
  obtain ⟨path, hpath⟩ := wf.exists_pathTo hid
  refine ⟨path, hpath, wf.mem_pathTo_iff hpath, fun hout => ?_, fun hin => ?_⟩
  · obtain ⟨n, hn, rfl⟩ := List.mem_map.mp hid
    obtain ⟨outer, top, inner, rfl, houter, hinner, honly⟩ := wf.exists_outermost hclosed n hn hout path hpath
    refine ⟨outer, top, inner, rfl, houter, hinner, ?_⟩
    rw [filter_warnings h hids]
    exact Analysis.filter_unreachable_of_only wf (by simp) (wf.pathTo_subset hpath) honly
  · have hmembers := wf.pathTo_subset_of_closed hclosed hpath hin
    refine ⟨hmembers, ?_⟩
    rw [filter_warnings h hids]
    refine List.filter_eq_nil_iff.mpr fun i hi hwarns => ?_
    obtain ⟨n, hn, rfl⟩ := List.mem_map.mp hi
    have houtermost := (Graph.isOutermost_iff.mp (List.mem_filter.mp hn).2).1
    exact houtermost (hmembers (by simpa [Analysis.warnsWithin, Analysis.unreachableIssue,
      Problem.unreachable?] using hwarns))

/-- A compound state that no transition leads to, with states two levels deep inside it. -/
def islandFlow : Value :=
  .record [("initial", .text "harbour"), ("states", .record [
    ("harbour", .record [("type", .text "final")]),
    ("island", .record [("initial", .text "beach"), ("states", .record [
      ("beach", .record [("on", .record [("WALK", .text "hill")])]),
      ("hill", .record [("initial", .text "top"), ("states", .record [
        ("top", .record [("type", .text "final")])])])])])])]

/-- There are four states that no run can come to, and one warning, whichever of them is asked for. -/
theorem warned_once_of_compileSource_island : ∃ c,
    compileSource (.bare {}) {} (.ofValue islandFlow) = .ok c ∧
      c.graph.ids = ["harbour", "island", "island.beach", "island.hill", "island.hill.top"] ∧
      ∃ ids, c.graph.reachable = .ok ids ∧ "island.hill.top" ∉ ids ∧
        ∃ path, c.graph.pathTo "island.hill.top" = .ok path ∧
          ∃ outer top inner, path = outer ++ top :: inner ∧ outer ⊆ ids ∧
            (∀ a ∈ top :: inner, a ∉ ids) ∧ c.warnings.filter (Analysis.warnsWithin path) =
              [⟨.unreachable top c.graph.initial, some top⟩] := by
  have hrun : (compileSource (.bare {}) {} (.ofValue islandFlow)).toOption.any (fun c =>
      c.graph.ids = ["harbour", "island", "island.beach", "island.hill", "island.hill.top"] &&
        c.graph.reachable.toOption = some ["harbour"]) = true := by decide +kernel
  cases hc : compileSource (.bare {}) {} (.ofValue islandFlow) with
  | error e => simp [hc, Except.toOption] at hrun
  | ok c =>
    simp only [hc, Except.toOption, Option.any_some, Bool.and_eq_true, decide_eq_true_eq] at hrun
    obtain ⟨hall, hreachable⟩ := hrun
    obtain ⟨ids, hids, hstates⟩ := warned_once_of_compileSource hc
    obtain ⟨path, hpath, -, hout, -⟩ := hstates "island.hill.top" (by simp [hall])
    rw [hids] at hreachable
    obtain rfl : ids = ["harbour"] := by simpa using hreachable
    exact ⟨c, rfl, hall, _, hids, by decide, path, hpath, hout (by decide)⟩

end Definition

end Statechart
