/-
# Warnings and runs

A graph is warned about states that no run can come to and about leaves that no run can leave.  The
warnings come of a search over the graph alone.  A run does more than the search knows of: guards
refuse, transitions break off, events of timers and calls are late; but each leaf it puts down follows
the one before.

* `Analysis.not_reachable_of_warned`, `Analysis.stuck_of_warned`: what the two warnings say of a graph;
* `Instance.Charted`: everything that is or was active is a state that the search has found;
* **`Definition.visited_of_reached`**: hence the warnings are sound for all runs, with one exception: if
  the first leaf is final and entering it breaks off, the instance runs on in a leaf from which the
  search does not go on;
* `Definition.unreachable_entered`: that exception happens.
-/
import Statechart.Proofs.Course
import Mathlib.Data.List.ReduceOption

namespace Statechart

/-! ## 1. What warnings say of a graph -/

/-- The state that is warned about as unreachable. -/
def Problem.unreachable? : Problem → Option String
  | .unreachable id _ => some id
  | _ => none

/-- The state that is warned about as a dead end. -/
def Problem.deadEnd? : Problem → Option String
  | .deadEnd id => some id
  | _ => none

/-- A problem of what a guard or a template reads: a path that a guard is warned about belongs to the
context, and nothing in the graph is said to provide it. -/
def Problem.IsUnprovided (g : Graph) : Problem → Prop
  | .unprovidedPath _ path =>
    beginsWith "context." path = true ∧ Analysis.isProvided (Analysis.provided g) path = false
  | .unprovidedVariable .. => True
  | _ => False

theorem Problem.IsUnprovided.no_state {g : Graph} {p : Problem} (h : p.IsUnprovided g) (id : String) :
    p.unreachable? ≠ some id ∧ p.deadEnd? ≠ some id := by
  cases p <;> first | exact h.elim | exact ⟨nofun, nofun⟩

theorem Problem.IsNotice.no_state {p : Problem} (h : p.IsNotice) (id : String) :
    p.unreachable? ≠ some id ∧ p.deadEnd? ≠ some id := by
  cases p <;> first | exact h.elim | exact ⟨nofun, nofun⟩

namespace Analysis

variable {g : Graph} {is : List Issue} {i : Issue}

theorem mem_unreachableStates (h : unreachableStates g = .ok is) (hi : i ∈ is) :
    ∃ ids n, g.reachable = .ok ids ∧ n ∈ g.states ∧ n.id ∉ ids ∧
      i.problem = .unreachable n.id g.initial := by
  obtain ⟨ids, hids, h⟩ := bind_eq_ok.mp h
  cases h
  obtain ⟨n, hn, rfl⟩ := List.mem_map.mp hi
  obtain ⟨hmem, hout⟩ := List.mem_filter.mp hn
  simp only [Bool.and_eq_true, Bool.not_eq_true', List.contains_eq_mem, decide_eq_false_iff_not]
    at hout
  exact ⟨ids, n, hids, hmem, hout.1, rfl⟩

theorem mem_deadEnds (h : deadEnds g = .ok is) (hi : i ∈ is) :
    ∃ n ∈ g.states, i.problem = .deadEnd n.id ∧
      ∃ cs, g.outgoing n.id = .ok cs ∧ ∀ c ∈ cs, c.target = none := by
  obtain ⟨found, hfound, h⟩ := bind_eq_ok.mp h
  cases h
  obtain ⟨n, hn, hissue⟩ := (mem_of_mapM hfound (some i)).mp (List.reduceOption_mem_iff.mp hi)
  split at hissue
  · cases hissue
  · obtain ⟨cs, hcs, hissue⟩ := bind_eq_ok.mp hissue
    split at hissue
    · cases hissue
    · rename_i hnone
      cases hissue
      exact ⟨n, hn, rfl, cs, hcs, by simpa using hnone⟩

/-- What a fold gathers has been there or is one of its items. -/
theorem mem_of_foldl {α : Type} {f : List α → α → List α} {xs done : List α} {x : α}
    (hf : ∀ done y x, x ∈ f done y → x ∈ done ∨ x = y) (hx : x ∈ xs.foldl f done) :
    x ∈ done ∨ x ∈ xs := by
  induction xs generalizing done with
  | nil => exact Or.inl hx
  | cons y xs ih =>
    rcases ih hx with hx | hx
    · refine (hf done y x hx).imp_right ?_
      rintro rfl
      exact .head _
    · exact Or.inr (.tail _ hx)

/-- The paths that guards of a state are warned about are read by them and not provided. -/
theorem mem_guardIssues {n : StateNode} (hi : i ∈ guardIssues (provided g) n) :
    i.problem.IsUnprovided g := by
  obtain ⟨⟨name, path⟩, hfirst, rfl⟩ := List.mem_map.mp hi
  -- only what is found is ever kept
  have hfound := (mem_of_foldl (fun done read x hx => ?kept) hfirst).resolve_left List.not_mem_nil
  case kept =>
    dsimp only at hx
    split at hx
    · exact Or.inl hx
    · exact (List.mem_append.mp hx).imp_right List.mem_singleton.mp
  obtain ⟨c, -, hread⟩ := List.mem_flatMap.mp hfound
  split at hread
  · obtain ⟨read, hread, heq⟩ := List.mem_map.mp hread
    cases heq
    obtain ⟨hcontext, hnone⟩ := Bool.and_eq_true_iff.mp (List.mem_filter.mp hread).2
    exact ⟨hcontext, by simpa using hnone⟩
  · cases hread

theorem mem_unprovided {strict : Bool} (h : unprovided strict g = .ok is) (hi : i ∈ is) :
    i.problem.IsUnprovided g := by
  obtain ⟨found, hfound, h⟩ := bind_eq_ok.mp h
  cases h
  obtain ⟨own, hown, hi⟩ := List.mem_flatten.mp hi
  obtain ⟨n, -, hissues⟩ := (mem_of_mapM hfound own).mp hown
  obtain ⟨templates, htemplates, hissues⟩ := bind_eq_ok.mp hissues
  cases hissues
  rcases List.mem_append.mp hi with hi | hi
  · exact mem_guardIssues hi
  · obtain ⟨_, -, htemplates⟩ := bind_eq_ok.mp htemplates
    obtain ⟨lists, hlists, htemplates⟩ := bind_eq_ok.mp htemplates
    cases htemplates
    obtain ⟨list, hlist, hi⟩ := List.mem_flatten.mp hi
    obtain ⟨_, -, hmissing⟩ := (mem_of_mapM hlists list).mp hlist
    obtain ⟨_, -, hmissing⟩ := bind_eq_ok.mp hmissing
    cases hmissing
    obtain ⟨_, -, rfl⟩ := List.mem_map.mp hi
    trivial

theorem mem_issues {strict : Bool} (h : issues strict g = .ok is) (hi : i ∈ is) :
    (∃ us, unreachableStates g = .ok us ∧ i ∈ us) ∨ (∃ ds, deadEnds g = .ok ds ∧ i ∈ ds) ∨
      i.problem.IsUnprovided g := by
  obtain ⟨us, hus, h⟩ := bind_eq_ok.mp h
  obtain ⟨ds, hds, h⟩ := bind_eq_ok.mp h
  obtain ⟨ps, hps, h⟩ := bind_eq_ok.mp h
  cases h
  rcases List.mem_append.mp hi with hi | hi
  · exact (List.mem_append.mp hi).imp (fun hi => ⟨us, hus, hi⟩) fun hi => Or.inl ⟨ds, hds, hi⟩
  · exact Or.inr (Or.inr (mem_unprovided hps hi))

/-- A state that is warned about as unreachable is one that the search has not found. -/
theorem not_reachable_of_warned {strict : Bool} (h : issues strict g = .ok is) (hi : i ∈ is)
    {id : String} (hid : i.problem.unreachable? = some id) :
    ∃ ids, g.reachable = .ok ids ∧ id ∉ ids := by
  rcases mem_issues h hi with ⟨us, hus, hi⟩ | ⟨ds, hds, hi⟩ | hproblem
  · obtain ⟨ids, n, hids, -, hout, hproblem⟩ := mem_unreachableStates hus hi
    rw [hproblem] at hid
    cases hid
    exact ⟨ids, hids, hout⟩
  · obtain ⟨n, -, hproblem, -⟩ := mem_deadEnds hds hi
    rw [hproblem] at hid
    cases hid
  · exact absurd hid (hproblem.no_state id).1

/-- From a state that is warned about as a dead end no transition leads anywhere. -/
theorem stuck_of_warned (wf : g.WellFormed) {strict : Bool} (h : issues strict g = .ok is)
    (hi : i ∈ is) {id : String} (hid : i.problem.deadEnd? = some id) :
    id ∈ g.ids ∧ ∀ leaf, ¬ g.Leads id leaf := by
  rcases mem_issues h hi with ⟨us, hus, hi⟩ | ⟨ds, hds, hi⟩ | hproblem
  · obtain ⟨ids, n, -, -, -, hproblem⟩ := mem_unreachableStates hus hi
    rw [hproblem] at hid
    cases hid
  · obtain ⟨n, hn, hproblem, cs, hcs, hnone⟩ := mem_deadEnds hds hi
    rw [hproblem] at hid
    cases hid
    have hmem : n.id ∈ g.ids := List.mem_map.mpr ⟨n, hn, rfl⟩
    refine ⟨hmem, ?_⟩
    rintro leaf ⟨d, hoffers, target, htarget, -⟩
    obtain ⟨cs', hcs', hall⟩ := wf.exists_outgoing hmem
    cases hcs.symm.trans hcs'
    rw [hnone d ((hall d).mpr hoffers)] at htarget
    cases htarget
  · exact absurd hid (hproblem.no_state id).2

end Analysis

/-- The search finds a state: it is a leaf that a run can come to, or around one. -/
def Graph.Charts (g : Graph) (a : String) : Prop :=
  ∃ leaf, g.Reaches leaf ∧ (a = leaf ∨ g.IsAround a leaf)

/-- A run begins in a final leaf. -/
def Graph.StartsFinal (g : Graph) : Prop :=
  ∃ n ∈ g.states, g.initialLeaf = .ok n.id ∧ n.isFinal = true

theorem Graph.WellFormed.reaches_first {g : Graph} {leaf : String} (h : g.initialLeaf = .ok leaf) :
    g.Reaches leaf := ⟨leaf, h, .refl⟩

namespace Instance

variable {m : Machine} {g : Graph} {s s' : Instance}

open Run

/-! ## 2. Runs stay where the search goes -/

/-- Everything that is or was active is a state that the search finds; and where an instance runs, it
is not in a final leaf. -/
structure Charted (g : Graph) (s : Instance) : Prop where
  leaf : g.Reaches s.state
  active : ∀ a ∈ s.active, g.Charts a
  entered : ∀ d, .entered d ∈ s.journal → g.Charts d.state
  running : s.started = true → s.status = .active → ∃ n, g.state s.state = .ok n ∧ n.isFinal = false

/-- Nothing is entered that the search does not find. -/
theorem Along.charted {P : String → Prop} (h : Along P s s') (hP : ∀ a, P a → g.Charts a)
    (hactive : ∀ a ∈ s.active, g.Charts a)
    (hentered : ∀ d, .entered d ∈ s.journal → g.Charts d.state) :
    (∀ a ∈ s'.active, g.Charts a) ∧ ∀ d, .entered d ∈ s'.journal → g.Charts d.state := by
  obtain ⟨notes, hjournal, hnotes, -⟩ := h.noted
  refine ⟨fun a ha => (h.active a ha).elim (hactive a) (hP a), fun d hd => ?_⟩
  rw [hjournal] at hd
  rcases List.mem_append.mp hd with hd | hd
  · exact hentered d hd
  · exact hP d.state (hnotes _ hd)

/-- A leaf that the search finds is put down; if it is final, the instance does not run any more. -/
theorem charted_settleAt (wf : g.WellFormed) {node : StateNode} (hnode : node ∈ g.states)
    (hleaf : g.Reaches node.id) (hactive : ∀ a ∈ s.active, g.Charts a)
    (hentered : ∀ d, .entered d ∈ s.journal → g.Charts d.state) : Charted g (settleAt node s) := by
  obtain ⟨live, alarms, calls, turns, scopes, status, notes, h, hended, hnotes⟩ :=
    settleAt_frame node s
  rw [h]
  refine ⟨hleaf, hactive, fun d hd => ?_, fun _ hrunning => ⟨node, wf.state_of_mem hnode, ?_⟩⟩
  · rcases List.mem_append.mp hd with hd | hd
    · exact hentered d hd
    · obtain ⟨_, hd⟩ := hnotes _ hd
      cases hd
  · by_contra hfinal
    exact hended (by simpa using hfinal) hrunning

theorem Keeps.charted (h : Keeps s s') (hs : Charted g s) : Charted g s' := by
  obtain ⟨notes, hjournal, hnotes⟩ := h.noted
  refine ⟨h.state ▸ hs.leaf, h.active ▸ hs.active, fun d hd => ?_, fun hstarted hrunning => ?_⟩
  · rw [hjournal] at hd
    exact hs.entered d ((List.mem_append.mp hd).resolve_right fun hd => hnotes _ hd)
  · have hsame := h.configuration.resolve_right fun hended => hended hrunning
    rw [h.started] at hstarted
    rw [h.state]
    exact hs.running hstarted ((congrArg Configuration.status hsame).symm.trans hrunning)

/-- Whatever comes of an event, the search has gone there before. -/
theorem Course.charted (wf : g.WellFormed) {e : Event}
    (h : Course g { s with lastEvent := some e.type } s') (hstarted : s.started = true)
    (hactive : s.status = .active) (hs : Charted g s) : Charted g s' := by
  obtain ⟨n, hn, hfinal⟩ := hs.running hstarted hactive
  have hfollows : ∀ leaf, g.Leads s.state leaf → g.Reaches leaf := by
    intro leaf hleads
    obtain ⟨first, hfirst, hreaches⟩ := hs.leaf
    exact ⟨first, hfirst, hreaches.tail ⟨⟨n, hn, hfinal⟩, hleads⟩⟩
  have hahead : ∀ a, g.Ahead s.state a → g.Charts a := fun a ⟨leaf, hleads, ha⟩ =>
    ⟨leaf, hfollows leaf hleads, ha⟩
  cases h with
  | within h =>
    obtain ⟨hactive', hentered'⟩ := h.charted hahead hs.active hs.entered
    have hstate : s'.state = s.state := h.state
    exact ⟨hstate ▸ hs.leaf, hactive', hentered', fun _ _ => hstate ▸ ⟨n, hn, hfinal⟩⟩
  | arrives hnode _ hleads h _ =>
    obtain ⟨hactive', hentered'⟩ := h.charted hahead hs.active hs.entered
    exact charted_settleAt wf hnode (hfollows _ hleads) hactive' hentered'

/-- **The first leaf is entered** where the search begins.  If it is final, the instance runs on only
if something has raised. -/
theorem charted_enterFirst (wf : m.graph.WellFormed) (hs : Unopened m.graph s)
    (hcharted : Charted m.graph s)
    (hcalm : ((enterFirst m).exec { s with started := true }).2.Calm ∨ ¬ m.graph.StartsFinal) :
    Charted m.graph ((enterFirst m).exec { s with started := true }).2 := by
  obtain ⟨node, hnode, hleaf, -, hcomes⟩ := comes_enterFirst wf { s with started := true }
  have hreaches : m.graph.Reaches node.id := Graph.WellFormed.reaches_first hleaf
  have hP : ∀ a, a = node.id ∨ m.graph.IsAround a node.id → m.graph.Charts a := fun a ha =>
    ⟨node.id, hreaches, ha⟩
  rcases hcomes.cases with ⟨_, -, s₁, h, -, hend⟩ | ⟨_, -, h⟩
  · rw [hend]
    obtain ⟨hactive, hentered⟩ := h.charted hP hcharted.active hcharted.entered
    exact charted_settleAt wf hnode hreaches hactive hentered
  · obtain ⟨hactive, hentered⟩ := h.charted hP hcharted.active hcharted.entered
    have hstate : ((enterFirst m).exec { s with started := true }).2.state = s.state := h.state
    refine ⟨by rw [hstate]; exact hcharted.leaf, hactive, hentered, fun _ hrunning => ?_⟩
    by_cases hfinal : node.isFinal = true
    · -- a final leaf that is entered without a raise has ended the instance
      have hcalm := hcalm.resolve_right fun hnot => hnot ⟨node, hnode, hleaf, hfinal⟩
      obtain ⟨node', _, harrival⟩ := arrival_enterFirst wf hs.toBlank hcalm
      have hsame : node' = node := by
        have hid : s.state = node.id := Except.ok.inj (hs.first.symm.trans hleaf)
        exact wf.eq_of_id harrival.leaf_mem hnode (harrival.state.symm.trans (hstate.trans hid))
      rw [hsame] at harrival
      rw [(harrival.ended hfinal).1] at hrunning
      cases hrunning
    · have hid : s.state = node.id := Except.ok.inj (hs.first.symm.trans hleaf)
      rw [hstate, hid]
      exact ⟨node, wf.state_of_mem hnode, by simpa using hfinal⟩

theorem Step.charted (wf : m.graph.WellFormed) (h : Step m s s')
    (hunopened : s.started = false → Unopened m.graph s) (hs : Charted m.graph s)
    (hcalm : s'.Calm ∨ ¬ m.graph.StartsFinal) : Charted m.graph s' := by
  rcases h.keeps_or_moves with hkeeps | ⟨hstart, rfl⟩ | ⟨hstarted, hactive, e, rfl⟩
  · exact hkeeps.charted hs
  · exact charted_enterFirst wf (hunopened hstart) hs hcalm
  · exact (course_process wf e (wf.reaches_mem hs.leaf)).charted wf hstarted hactive hs

/-- **A run stays where the search goes**, unless its first leaf is final and something raises. -/
theorem charted_of_reached (wf : m.graph.WellFormed) (h : Reached m s)
    (hcalm : s.Calm ∨ ¬ m.graph.StartsFinal) : Charted m.graph s := by
  obtain ⟨s₀, hfresh, hsteps⟩ := h
  induction hsteps with
  | refl =>
    have hfirst := (unopened_of_fresh hfresh).first
    obtain ⟨_, _, _, _, rfl⟩ := eq_of_fresh hfresh
    exact ⟨Graph.WellFormed.reaches_first hfirst, by simp, by simp, by simp⟩
  | tail hsteps hstep ih =>
    exact hstep.charted wf (unopened_of_reached ⟨s₀, hfresh, hsteps⟩)
      (ih (hcalm.imp_left fun h => h.of_grown hstep.grown)) hcalm

/-! ## 3. Dead ends -/

theorem Course.stuck (h : Course g s s') (hstuck : ∀ leaf, ¬ g.Leads s.state leaf) :
    s'.state = s.state := by
  cases h with
  | within h => exact h.state
  | arrives _ _ hleads => exact absurd hleads (hstuck _)

/-- A leaf from which no transition leads anywhere is not left. -/
theorem Step.stuck (wf : m.graph.WellFormed) (h : Step m s s')
    (hunopened : s.started = false → Unopened m.graph s) (hid : s.state ∈ m.graph.ids)
    (hstuck : ∀ leaf, ¬ m.graph.Leads s.state leaf) : s'.state = s.state := by
  rcases h.keeps_or_moves with hkeeps | ⟨hstart, rfl⟩ | ⟨-, -, e, rfl⟩
  · exact hkeeps.state
  · obtain ⟨node, -, hleaf, -, hcomes⟩ := comes_enterFirst wf { s with started := true }
    rcases hcomes.cases with ⟨_, -, s₁, -, -, hend⟩ | ⟨_, -, h⟩
    · obtain ⟨_, _, _, _, _, _, _, hframe, -⟩ := settleAt_frame node s₁
      rw [hend, hframe]
      exact Except.ok.inj (hleaf.symm.trans (hunopened hstart).first)
    · exact h.state
  · exact (course_process wf e hid).stuck hstuck

theorem Steps.stuck (wf : m.graph.WellFormed) (h : Steps m s s') (hs : Reached m s)
    (hid : s.state ∈ m.graph.ids) (hstuck : ∀ leaf, ¬ m.graph.Leads s.state leaf) :
    s'.state = s.state := by
  obtain ⟨s₀, hfresh, hsteps₀⟩ := hs
  induction h with
  | refl => rfl
  | @tail s₁ s₂ hsteps hstep ih =>
    have hunopened := unopened_of_reached ⟨s₀, hfresh, hsteps₀.trans hsteps⟩
    exact (hstep.stuck wf hunopened (ih ▸ hid) (ih ▸ hstuck)).trans ih

end Instance

namespace Definition

open Instance

variable {registry : Registry} {config : Config} {source : FlowSource} {c : Compiled} {m : Machine}

/-! ## 4. Warnings about definitions -/

/-- **The warnings about a graph are sound for all runs.**  Whatever is or was active is a state that
the search has found, so that a state warned about as unreachable is never entered, nor one inside it;
unless the first leaf is final and something other than a guard has raised.  And a leaf warned about
as a dead end is never left, whatever raises. -/
theorem visited_of_reached (h : compileSource registry config source = .ok c)
    (hm : m.graph = c.graph) {s : Instance} (hs : Reached m s) :
    ∃ ids, c.graph.reachable = .ok ids ∧
      (s.Calm ∨ ¬ c.graph.StartsFinal →
        s.state ∈ ids ∧ (∀ a ∈ s.active, a ∈ ids) ∧ ∀ d, .entered d ∈ s.journal → d.state ∈ ids ∧
          ∀ i ∈ c.warnings, ∀ id, i.problem.unreachable? = some id →
            d.state ≠ id ∧ ¬ c.graph.IsAround id d.state) ∧
      ∀ i ∈ c.warnings, i.problem.deadEnd? = some s.state →
        ∀ s', Steps m s s' → s'.state = s.state := by
  have wf : m.graph.WellFormed := hm ▸ wellFormed_graph h
  rw [← hm]
  obtain ⟨ids, hids, hmem⟩ := wf.exists_reachable
  refine ⟨ids, hids, fun hcalm => ?_, fun i hi hdead s' hsteps => ?_⟩
  · have hcharted := charted_of_reached wf hs hcalm
    refine ⟨(hmem _).mpr ⟨s.state, hcharted.leaf, Or.inl rfl⟩,
      fun a ha => (hmem a).mpr (hcharted.active a ha), fun d hd => ?_⟩
    obtain ⟨leaf, hleaf, hplace⟩ := hcharted.entered d hd
    refine ⟨(hmem _).mpr ⟨leaf, hleaf, hplace⟩, fun i hi id hid => ?_⟩
    obtain ⟨is, his, hi⟩ :=
      (warning_of_compileSource h hi).resolve_left fun hn => (hn.no_state id).1 hid
    obtain ⟨ids', hids', hout⟩ := Analysis.not_reachable_of_warned his hi hid
    rw [← hm, hids] at hids'
    cases hids'
    refine ⟨fun heq => hout ?_, fun haround => hout ((hmem id).mpr ⟨leaf, hleaf, Or.inr ?_⟩)⟩
    · exact (hmem id).mpr ⟨leaf, hleaf, heq ▸ hplace⟩
    · rcases hplace with heq | hplace
      · exact heq ▸ haround
      · exact haround.trans hplace
  · obtain ⟨is, his, hi⟩ :=
      (warning_of_compileSource h hi).resolve_left fun hn => (hn.no_state s.state).2 hdead
    rw [← hm] at his
    obtain ⟨hid, hstuck⟩ := Analysis.stuck_of_warned wf his hi hdead
    exact Steps.stuck wf hsteps hs hid hstuck

/-- A state that leads to a dead end, and one that no transition leads to. -/
def strandedFlow : Value :=
  .record [("initial", .text "a"), ("states", .record [
    ("a", .record [("on", .record [("GO", .text "b")])]),
    ("b", .record []),
    ("u", .record [("on", .record [("GO", .text "b")])])])]

/-- A run into a dead end, past a state that is unreachable; both are warned about. -/
theorem visited_of_reached_stranded : ∃ c m s,
    compileSource (.bare {}) {} (.ofValue strandedFlow) = .ok c ∧ m.graph = c.graph ∧ Reached m s ∧
      s.Calm ∧ s.state = "b" ∧ (∃ i ∈ c.warnings, i.problem.unreachable? = some "u") ∧
      (∃ i ∈ c.warnings, i.problem.deadEnd? = some "b") ∧
      ∃ ids, c.graph.reachable = .ok ids ∧
        (s.Calm ∨ ¬ c.graph.StartsFinal →
          s.state ∈ ids ∧ (∀ a ∈ s.active, a ∈ ids) ∧ ∀ d, .entered d ∈ s.journal → d.state ∈ ids ∧
            ∀ i ∈ c.warnings, ∀ id, i.problem.unreachable? = some id →
              d.state ≠ id ∧ ¬ c.graph.IsAround id d.state) ∧
        ∀ i ∈ c.warnings, i.problem.deadEnd? = some s.state →
          ∀ s', Steps m s s' → s'.state = s.state := by
  obtain ⟨c, m, s₀, hc, hm, hs, hrun⟩ := exists_played (.bare {}) {} (.ofValue strandedFlow)
    [.start, .send (.text "GO")] (fun _ s => s.Calm && s.state = "b") (by decide +kernel)
  have hwarned : (compileSource (.bare {}) {} (.ofValue strandedFlow)).toOption.any (fun c =>
      c.warnings.any (·.problem.unreachable? = some "u") &&
        c.warnings.any (·.problem.deadEnd? = some "b")) = true := by decide +kernel
  rw [hc] at hwarned
  simp only [Except.toOption, Option.any_some, Bool.and_eq_true, List.any_eq_true,
    decide_eq_true_eq] at hwarned hrun
  have hreached := reached_after (m := m) [.start, .send (.text "GO")] hs
  exact ⟨c, m, _, hc, hm, hreached, hrun.1, hrun.2, hwarned.1, hwarned.2,
    visited_of_reached hc hm hreached⟩

/-- A compound state that begins in a final one and raises when it is entered. -/
def finalFirstFlow : Value :=
  .record [("initial", .text "a"), ("states", .record [
    ("a", .record [("initial", .text "f"), ("entry", .list [.text "boom"]),
      ("on", .record [("GO", .text "b")]),
      ("states", .record [("f", .record [("type", .text "final")])])]),
    ("b", .record [])])]

/-- If entering a first leaf that is final breaks off, the instance runs on, and comes to a state that
is warned about as unreachable. -/
theorem unreachable_entered : ∃ c m s₀,
    compileSource raisingRegistry {} (.ofValue finalFirstFlow) = .ok c ∧ m.graph = c.graph ∧
      IsFresh m s₀ ∧ (∃ i ∈ c.warnings, i.problem.unreachable? = some "b") ∧
      (∃ ids, c.graph.reachable = .ok ids ∧ "b" ∉ ids) ∧
      (after m [.start, .send (.text "GO")] s₀).state = "b" ∧
      "b" ∈ (after m [.start, .send (.text "GO")] s₀).active := by
  obtain ⟨c, m, s₀, hc, hm, hs, hrun⟩ := exists_played raisingRegistry {} (.ofValue finalFirstFlow)
    [.start, .send (.text "GO")] (fun _ s => s.state = "b" && s.active.contains "b")
    (by decide +kernel)
  have hwarned : (compileSource raisingRegistry {} (.ofValue finalFirstFlow)).toOption.any (fun c =>
      c.warnings.any (·.problem.unreachable? = some "b") &&
        c.graph.reachable.toOption.any (!·.contains "b")) = true := by decide +kernel
  rw [hc] at hwarned
  simp only [Except.toOption, Option.any_some, Bool.and_eq_true, List.any_eq_true,
    decide_eq_true_eq, List.contains_iff_mem] at hwarned hrun
  refine ⟨c, m, s₀, hc, hm, hs, hwarned.1, ?_, hrun.1, hrun.2⟩
  cases hids : c.graph.reachable with
  | error f => simp [hids] at hwarned
  | ok ids => exact ⟨ids, rfl, by simpa [hids] using hwarned.2⟩

end Definition

end Statechart
