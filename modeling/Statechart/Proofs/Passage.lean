/-
# Paths through final leaves

Two searches go over the transitions of a graph.  The one asks which states can be reached and ends
at final leaves, since nothing follows them in a run.  The other asks whether there is a path between
two states, and takes a final leaf for a leaf like any other: a state around it may have transitions,
and the path goes on along these.

* `Graph.WellFormed.leads_cases`: where transitions lead, a run goes as far as the first final leaf;
* **`Definition.hasPath_initial_iff`**: hence there is a path from the initial state to the reachable
  states and to what lies beyond reachable final leaves, and to no others; the two searches agree
  exactly if reachable final leaves lead to reachable leaves only;
* `Definition.hasPath_not_reachable`: they do not agree on every graph.
-/
import Statechart.Proofs.Compiled
import Statechart.Proofs.Search

namespace Statechart

namespace Graph

variable {g : Graph}

/-! ## 1. As far as the first final leaf -/

/-- A state of the graph is final. -/
def HasFinal (g : Graph) (id : String) : Prop := ∃ n ∈ g.states, n.id = id ∧ n.isFinal = true

namespace WellFormed

/-- A final state is the leaf that is entered with it. -/
theorem leafFor_of_final (wf : g.WellFormed) {id : String} (h : g.HasFinal id) :
    g.leafFor id = .ok id := by
  obtain ⟨n, hn, rfl, hfinal⟩ := h
  have hkind : n.kind = .final := by simpa [StateNode.isFinal] using hfinal
  have hstays : ∀ fuel, g.leafFrom fuel n = .ok n := by
    intro fuel
    cases fuel with
    | zero => rfl
    | succ fuel => simp [leafFrom, hkind]
  simp [leafFor, wf.state_of_mem hn, hstays, bind, Except.bind, pure, Except.pure]

/-- A run goes on from a leaf that is not final. -/
theorem follows_of_leads (wf : g.WellFormed) {id leaf : String} (hid : id ∈ g.ids)
    (h : g.Leads id leaf) (hfinal : ¬ g.HasFinal id) : g.Follows id leaf := by
  obtain ⟨n, hn, rfl, hstate⟩ := wf.exists_state hid
  refine ⟨⟨n, hstate, ?_⟩, h⟩
  by_contra hnot
  exact hfinal ⟨n, hn, rfl, by simpa using hnot⟩

/-- What a run can come to is found along transitions. -/
theorem leads_of_reaches {first leaf : String} (hfirst : g.initialLeaf = .ok first)
    (h : g.Reaches leaf) : Relation.ReflTransGen g.Leads first leaf := by
  obtain ⟨first', hfirst', h⟩ := h
  rw [hfirst] at hfirst'
  cases hfirst'
  induction h with
  | refl => exact .refl
  | tail _ hfollows ih => exact ih.tail hfollows.2

/-- **Along transitions** from the first leaf: either a run can take the whole way, or it comes to a
final leaf on it and ends there. -/
theorem leads_cases (wf : g.WellFormed) {first leaf : String} (hfirst : g.initialLeaf = .ok first)
    (h : Relation.ReflTransGen g.Leads first leaf) :
    g.Reaches leaf ∨ ∃ f, g.Reaches f ∧ g.HasFinal f ∧ Relation.ReflTransGen g.Leads f leaf := by
  induction h with
  | refl => exact Or.inl ⟨first, hfirst, .refl⟩
  | @tail id leaf _ hleads ih =>
    rcases ih with hreaches | ⟨f, hreaches, hfinal, hpath⟩
    · by_cases hfinal : g.HasFinal id
      · exact Or.inr ⟨id, hreaches, hfinal, .single hleads⟩
      · have hid := wf.reaches_mem hreaches
        obtain ⟨first', hfirst', hpath⟩ := hreaches
        exact Or.inl ⟨first', hfirst', hpath.tail (wf.follows_of_leads hid hleads hfinal)⟩
    · exact Or.inr ⟨f, hreaches, hfinal, hpath.tail hleads⟩

/-- A leaf is not around anything, so that it is reachable only if a run can come to it itself. -/
theorem reaches_of_leaf (wf : g.WellFormed) {n : StateNode} (hn : n ∈ g.states)
    (hkind : n.kind ≠ .compound) {leaf : String} (hleaf : g.Reaches leaf)
    (hplace : n.id = leaf ∨ g.IsAround n.id leaf) : g.Reaches n.id := by
  rcases hplace with heq | haround
  · exact heq ▸ hleaf
  · exact absurd (wf.compound_of_isAround hn haround) hkind

theorem reaches_of_final (wf : g.WellFormed) {f leaf : String} (hf : g.HasFinal f)
    (hleaf : g.Reaches leaf) (hplace : f = leaf ∨ g.IsAround f leaf) : g.Reaches f := by
  obtain ⟨n, hn, rfl, hfinal⟩ := hf
  have hkind : n.kind = .final := by simpa [StateNode.isFinal] using hfinal
  exact wf.reaches_of_leaf hn (by simp [hkind]) hleaf hplace

/-- If reachable final leaves lead to reachable leaves only, all transitions do. -/
theorem reaches_of_leads (wf : g.WellFormed) {first leaf : String}
    (hfirst : g.initialLeaf = .ok first)
    (hfinal : ∀ f, g.Reaches f → g.HasFinal f → ∀ l, g.Leads f l → g.Reaches l)
    (h : Relation.ReflTransGen g.Leads first leaf) : g.Reaches leaf := by
  induction h with
  | refl => exact ⟨first, hfirst, .refl⟩
  | @tail id leaf _ hleads hreaches =>
    by_cases hid : g.HasFinal id
    · exact hfinal id hreaches hid leaf hleads
    · obtain ⟨first', hfirst', hpath⟩ := hreaches
      have hmem := wf.reaches_mem ⟨first', hfirst', hpath⟩
      exact ⟨first', hfirst', hpath.tail (wf.follows_of_leads hmem hleads hid)⟩

/-! ## 2. The two searches -/

/-- There is a path from the initial state to what is reachable and to what there is a path to from a
reachable final leaf. -/
theorem exists_hasPath_initial (wf : g.WellFormed) {ids : List String}
    (hids : ∀ a, a ∈ ids ↔ ∃ leaf, g.Reaches leaf ∧ (a = leaf ∨ g.IsAround a leaf))
    (goal : String) :
    ∃ found, g.hasPath g.initial goal = .ok found ∧
      (found = true ↔
        goal ∈ ids ∨ ∃ f ∈ ids, g.HasFinal f ∧ g.hasPath f goal = .ok true) := by
  obtain ⟨first, found, hfirst, hfound, hiff⟩ := wf.exists_hasPath wf.initial_mem goal
  -- what a path from a reachable final leaf is
  have hbeyond : ∀ f, g.Reaches f → g.HasFinal f → (g.hasPath f goal = .ok true ↔
      ∃ leaf, Relation.ReflTransGen g.Leads f leaf ∧ (goal = leaf ∨ g.IsAround goal leaf)) := by
    intro f hf hfinal
    obtain ⟨start, found, hstart, hfound, hiff⟩ := wf.exists_hasPath (wf.reaches_mem hf) goal
    rw [wf.leafFor_of_final hfinal] at hstart
    cases hstart
    rw [hfound, Except.ok.injEq, hiff]
  refine ⟨found, hfound, hiff.trans ?_⟩
  constructor
  · rintro ⟨leaf, hleads, hplace⟩
    rcases wf.leads_cases hfirst hleads with hreaches | ⟨f, hreaches, hfinal, hpath⟩
    · exact Or.inl ((hids goal).mpr ⟨leaf, hreaches, hplace⟩)
    · refine Or.inr ⟨f, (hids f).mpr ⟨f, hreaches, Or.inl rfl⟩, hfinal, ?_⟩
      exact (hbeyond f hreaches hfinal).mpr ⟨leaf, hpath, hplace⟩
  · rintro (hgoal | ⟨f, hf, hfinal, hpath⟩)
    · obtain ⟨leaf, hreaches, hplace⟩ := (hids goal).mp hgoal
      exact ⟨leaf, leads_of_reaches hfirst hreaches, hplace⟩
    · obtain ⟨leaf, hreaches, hplace⟩ := (hids f).mp hf
      have hf := wf.reaches_of_final hfinal hreaches hplace
      obtain ⟨leaf, hleads, hplace⟩ := (hbeyond f hf hfinal).mp hpath
      exact ⟨leaf, (leads_of_reaches hfirst hf).trans hleads, hplace⟩

/-- The searches agree on all states if, and only if, reachable final leaves lead to reachable leaves
only. -/
theorem hasPath_agrees_iff (wf : g.WellFormed) {ids : List String}
    (hids : ∀ a, a ∈ ids ↔ ∃ leaf, g.Reaches leaf ∧ (a = leaf ∨ g.IsAround a leaf)) :
    (∀ goal ∈ g.ids, g.hasPath g.initial goal = .ok true ↔ goal ∈ ids) ↔
      ∀ f ∈ ids, g.HasFinal f → ∀ leaf, g.Leads f leaf → leaf ∈ ids := by
  have hpath : ∀ goal, ∃ first, g.initialLeaf = .ok first ∧
      (g.hasPath g.initial goal = .ok true ↔
        ∃ leaf, Relation.ReflTransGen g.Leads first leaf ∧
          (goal = leaf ∨ g.IsAround goal leaf)) := by
    intro goal
    obtain ⟨first, found, hfirst, hfound, hiff⟩ := wf.exists_hasPath wf.initial_mem goal
    exact ⟨first, hfirst, by rw [hfound, Except.ok.injEq, hiff]⟩
  constructor
  · intro hagree f hf hfinal leaf hleads
    obtain ⟨l, hl, hplace⟩ := (hids f).mp hf
    have hf := wf.reaches_of_final hfinal hl hplace
    obtain ⟨first, hfirst, hiff⟩ := hpath leaf
    refine (hagree leaf (wf.leads_mem hleads)).mp (hiff.mpr ⟨leaf, ?_, Or.inl rfl⟩)
    exact (leads_of_reaches hfirst hf).tail hleads
  · intro hinside goal _
    obtain ⟨first, hfirst, hiff⟩ := hpath goal
    have hfinal : ∀ f, g.Reaches f → g.HasFinal f → ∀ l, g.Leads f l → g.Reaches l := by
      intro f hf hfinal l hleads
      obtain ⟨leaf, hleaf, hplace⟩ :=
        (hids l).mp (hinside f ((hids f).mpr ⟨f, hf, Or.inl rfl⟩) hfinal l hleads)
      obtain ⟨n, hn, rfl, hkind⟩ := wf.leaf_of_leads hleads
      exact wf.reaches_of_leaf hn hkind hleaf hplace
    rw [hiff, hids]
    constructor
    · rintro ⟨leaf, hleads, hplace⟩
      exact ⟨leaf, wf.reaches_of_leads hfirst hfinal hleads, hplace⟩
    · rintro ⟨leaf, hreaches, hplace⟩
      exact ⟨leaf, leads_of_reaches hfirst hreaches, hplace⟩

end WellFormed

end Graph

namespace Definition

variable {registry : Registry} {config : Config} {source : FlowSource} {c : Compiled}

/-- **Paths from the initial state of a compiled flow.**  Both searches answer.  There is a path to the
states that are reachable and to those that there is a path to from a reachable final leaf, and to no
others; hence the searches agree on all states of the graph if, and only if, the transitions of states
around a reachable final leaf lead to reachable leaves. -/
theorem hasPath_initial_iff (h : compileSource registry config source = .ok c) :
    ∃ ids, c.graph.reachable = .ok ids ∧
      (∀ goal ∈ c.graph.ids, ∃ found, c.graph.hasPath c.graph.initial goal = .ok found ∧
        (found = true ↔
          goal ∈ ids ∨ ∃ f ∈ ids, c.graph.HasFinal f ∧ c.graph.hasPath f goal = .ok true)) ∧
      ((∀ goal ∈ c.graph.ids,
          c.graph.hasPath c.graph.initial goal = .ok true ↔ goal ∈ ids) ↔
        ∀ f ∈ ids, c.graph.HasFinal f → ∀ leaf, c.graph.Leads f leaf → leaf ∈ ids) := by
  have wf := wellFormed_graph h
  obtain ⟨ids, hids, hmem⟩ := wf.exists_reachable
  refine ⟨ids, hids, ?_, wf.hasPath_agrees_iff hmem⟩
  intro goal _
  exact wf.exists_hasPath_initial hmem goal

/-- A compound state that begins in a final one and has a transition of its own. -/
def passageFlow : Value :=
  .record [("initial", .text "a"), ("states", .record [
    ("a", .record [("initial", .text "f"), ("on", .record [("GO", .text "b")]),
      ("states", .record [("f", .record [("type", .text "final")])])]),
    ("b", .record [])])]

/-- The compiled flow has both searches answered. -/
theorem hasPath_initial_iff_passage : ∃ c,
    compileSource (.bare {}) {} (.ofValue passageFlow) = .ok c ∧
      ∃ ids, c.graph.reachable = .ok ids ∧
        (∀ goal ∈ c.graph.ids, ∃ found, c.graph.hasPath c.graph.initial goal = .ok found ∧
          (found = true ↔
            goal ∈ ids ∨ ∃ f ∈ ids, c.graph.HasFinal f ∧ c.graph.hasPath f goal = .ok true)) ∧
        ((∀ goal ∈ c.graph.ids,
            c.graph.hasPath c.graph.initial goal = .ok true ↔ goal ∈ ids) ↔
          ∀ f ∈ ids, c.graph.HasFinal f → ∀ leaf, c.graph.Leads f leaf → leaf ∈ ids) := by
  have hcompiles : (compileSource (.bare {}) {} (.ofValue passageFlow)).isOk = true := by
    decide +kernel
  cases hc : compileSource (.bare {}) {} (.ofValue passageFlow) with
  | error e => simp [hc, Except.isOk, Except.toBool] at hcompiles
  | ok c => exact ⟨c, rfl, hasPath_initial_iff hc⟩

/-- There is a path to a state that is not reachable: it goes through the final leaf that the run
begins in and ends with. -/
theorem hasPath_not_reachable : ∃ c,
    compileSource (.bare {}) {} (.ofValue passageFlow) = .ok c ∧ c.graph.initial = "a" ∧
      "b" ∈ c.graph.ids ∧ c.graph.hasPath "a" "b" = .ok true ∧
      c.graph.reachable = .ok ["a", "a.f"] := by
  have hrun : (compileSource (.bare {}) {} (.ofValue passageFlow)).toOption.any (fun c =>
      c.graph.initial = "a" && c.graph.ids.contains "b" &&
        (c.graph.hasPath "a" "b").toOption = some true &&
        c.graph.reachable.toOption = some ["a", "a.f"]) = true := by decide +kernel
  cases hc : compileSource (.bare {}) {} (.ofValue passageFlow) with
  | error e => simp [hc, Except.toOption] at hrun
  | ok c =>
    simp only [hc, Except.toOption, Option.any_some, Bool.and_eq_true, decide_eq_true_eq,
      List.contains_iff_mem] at hrun
    obtain ⟨⟨⟨hinitial, hmem⟩, hpath⟩, hreachable⟩ := hrun
    refine ⟨c, rfl, hinitial, hmem, ?_, ?_⟩
    · cases hfound : c.graph.hasPath "a" "b" with
      | error e => simp [hfound] at hpath
      | ok found => simpa [hfound] using hpath
    · cases hfound : c.graph.reachable with
      | error e => simp [hfound] at hreachable
      | ok ids => simpa [hfound] using hreachable

end Definition

end Statechart
