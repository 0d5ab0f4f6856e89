/-
# Compiled graphs

A definition that compiles has a well-formed graph, with a state for every place where the definition
has one.  A compilation goes through a flattened tree (`Proofs/Tree.lean`) and compiles its states one
by one (`Proofs/Build.lean`); both are right if no error is left, and a graph is made only then.  What
is shown here is how the parts fit together:

* `Compile.wellFormed_of_compiles`: the nodes of a sound tree form a well-formed graph;
* `Definition.graph_of_run`: a graph comes of a compilation without errors, so of such a tree;
* `Definition.warning_of_compileSource`: where warnings about a graph come from;
* **`Definition.wellFormed_of_compileSource`**: both, for every definition and registry.
-/
import Statechart.Proofs.Build
import Statechart.Proofs.Tree
import Statechart.Proofs.WellFormed

namespace Statechart

/-- Every member of a list related to another one is related to a member of that. -/
theorem exists_left_of_forall₂ {α β : Type} {R : α → β → Prop} {xs : List α} {ys : List β}
    (h : List.Forall₂ R xs ys) {y : β} (hy : y ∈ ys) : ∃ x ∈ xs, R x y := by
  induction h with
  | nil => cases hy
  | cons hxy _ ih =>
    rcases List.mem_cons.mp hy with rfl | hy
    · exact ⟨_, List.mem_cons_self, hxy⟩
    · obtain ⟨x, hx, hr⟩ := ih hy
      exact ⟨x, List.mem_cons_of_mem _ hx, hr⟩

/-- Lists related by equal images have equal lists of images. -/
theorem map_eq_of_forall₂ {α β γ : Type} {R : α → β → Prop} {f : α → γ} {k : β → γ} {xs : List α}
    {ys : List β} (h : List.Forall₂ R xs ys) (hR : ∀ x y, R x y → f x = k y) :
    xs.map f = ys.map k := by
  induction h with
  | nil => rfl
  | cons hxy _ ih => simp [hR _ _ hxy, ih]

/-- Relations along lists compose. -/
theorem comp_of_forall₂ {α β γ : Type} {R : α → β → Prop} {S : β → γ → Prop} {T : α → γ → Prop}
    {xs : List α} {ys : List β} {zs : List γ} (h : List.Forall₂ R xs ys) (h' : List.Forall₂ S ys zs)
    (hT : ∀ x y z, R x y → S y z → T x z) : List.Forall₂ T xs zs := by
  induction h generalizing zs with
  | nil =>
    cases h'
    exact .nil
  | cons hxy _ ih =>
    rcases h' with _ | ⟨hyz, h'⟩
    exact .cons (hT _ _ _ hxy hyz) (ih h')

namespace Compile

/-! ## 1. The nodes of a tree -/

/-- Each node of a graph is that of a state of the tree, in order. -/
abbrev CompilesTo (c : Setting) (nodes : List StateNode) : Prop :=
  List.Forall₂ (Compiles c) c.tree.states nodes

section Nodes

variable {c : Setting} {g : Graph}

theorem ids_of_compiles (h : CompilesTo c g.states) : c.tree.ids = g.ids :=
  map_eq_of_forall₂ h fun _ _ hs => hs.id_eq.symm

theorem links_of_compiles (h : CompilesTo c g.states) :
    c.tree.links = g.states.map fun n => (n.id, n.parent) :=
  map_eq_of_forall₂ h fun _ _ hs => by rw [hs.id_eq, hs.parent_eq]

/-- The children of a node are the states whose parent it is. -/
theorem children_of_compiles (h : CompilesTo c g.states) (ht : c.tree.Sound) {p : StateNode}
    (hp : p ∈ g.states) :
    p.children = ((g.states.filter fun n => n.parent = some p.id).map (·.id)) := by
  obtain ⟨s, hs, hsp⟩ := exists_left_of_forall₂ h hp
  rw [hsp.children_eq, ht.children_eq s hs, links_of_compiles h, ← hsp.id_eq, List.filter_map,
    List.map_map]
  rfl

/-- **The nodes of a sound tree form a well-formed graph**, if the initial state is one of the tree
and no identifier of a call is taken twice. -/
theorem wellFormed_of_compiles (h : CompilesTo c g.states) (ht : c.tree.Sound)
    (hinitial : c.tree.has g.initial = true)
    (hcalls : ((g.states.flatMap (·.invokes)).map (·.id)).Nodup) : g.WellFormed := by
  have hids := ids_of_compiles h
  have hnode := fun n (hn : n ∈ g.states) => exists_left_of_forall₂ h hn
  refine {
    distinct := hids ▸ ht.distinct
    initial_mem := hids ▸ Tree.has_iff.mp hinitial
    parent_first := ?_, mem_children_iff := ?_, children_distinct := ?_, named := ?_
    compound_iff := ?_, initial_child := ?_, initial_none := ?_, events_distinct := ?_
    candidate := ?_, final := ?_, timers_distinct := ?_, timer_event := ?_
    invokes_distinct := hcalls, invoke_state := ?_ }
  · intro before n after hs p hp
    have hlinks := links_of_compiles h
    rw [hs, List.map_append, List.map_cons] at hlinks
    have hfirst := ht.parent_first _ _ _ hlinks p hp
    rwa [List.map_map] at hfirst
  · intro p hp id
    rw [children_of_compiles h ht hp]
    simp only [List.mem_map, List.mem_filter, decide_eq_true_eq, Graph.IsParent]
    constructor
    · rintro ⟨n, ⟨hn, hparent⟩, rfl⟩
      exact ⟨n, hn, rfl, hparent⟩
    · rintro ⟨n, hn, rfl, hparent⟩
      exact ⟨n, ⟨hn, hparent⟩, rfl⟩
  · intro p hp
    rw [children_of_compiles h ht hp]
    exact (hids ▸ ht.distinct : g.ids.Nodup).sublist (List.filter_sublist.map _)
  · intro n hn hp
    refine ht.named (n.id, n.parent) ?_ hp
    rw [links_of_compiles h]
    exact List.mem_map.mpr ⟨n, hn, rfl⟩
  · intro n hn
    obtain ⟨s, -, hsn⟩ := hnode n hn
    rw [hsn.children_eq]
    exact hsn.compound_iff
  · intro n hn hk
    obtain ⟨s, -, hsn⟩ := hnode n hn
    rw [hsn.children_eq]
    exact hsn.initial_child hk (hsn.compound_iff.mp hk)
  · intro n hn hk
    obtain ⟨s, -, hsn⟩ := hnode n hn
    exact hsn.initial_none hk
  · intro n hn
    obtain ⟨s, -, hsn⟩ := hnode n hn
    exact hsn.transitions.events_distinct
  · intro n hn event ks hks k hk
    obtain ⟨s, -, hsn⟩ := hnode n hn
    have hkind := hsn.transitions.candidate event ks hks k hk
    refine ⟨hkind.event_eq, hkind.source_eq.trans hsn.id_eq.symm, fun t htarget => ?_⟩
    exact hids ▸ Tree.has_iff.mp (hkind.target_has t htarget)
  · intro n hn hk
    obtain ⟨s, -, hsn⟩ := hnode n hn
    exact hsn.final hk
  · intro n hn
    obtain ⟨s, -, hsn⟩ := hnode n hn
    obtain ⟨_, htimers⟩ := hsn.timers
    exact htimers.distinct
  · intro n hn
    obtain ⟨s, -, hsn⟩ := hnode n hn
    obtain ⟨_, htimers⟩ := hsn.timers
    exact htimers.event
  · intro n hn i hi
    obtain ⟨s, -, hsn⟩ := hnode n hn
    exact (hsn.invoke_state i hi).trans hsn.id_eq.symm

end Nodes

end Compile

namespace Definition

open Build

/-! ## 2. A compilation without errors -/

/-- Without errors all actors of a flow could be made. -/
theorem buildActors_yields (registry : Registry) (definitions : Entries) :
    (buildActors registry definitions).Yields fun r => r.2 = [] := by
  refine Yields.foldlM (I := fun _ (r : Catalogue Actor × List String) => r.2 = []) ?_ rfl
  rintro before ⟨k, definition⟩ after _ ⟨made, failed⟩
  dsimp only
  split
  · exact Yields.pure fun h => h
  · exact Yields.after_fatal rfl (Yields.pure (P := fun _ => True) trivial)
  · exact Yields.mono (lift_yields _) fun _ h => by cases h

/-- Without errors the initial state is known. -/
theorem initialState_yields (tree : Tree) (initial : Value) :
    (initialState tree initial).Yields fun id? => ∃ id, id? = some id ∧ tree.has id = true := by
  unfold initialState
  dsimp only
  split
  · exact Yields.after_fatal rfl (Yields.pure (P := fun _ => True) trivial)
  · split
    · rename_i hhas
      exact Yields.pure ⟨_, rfl, hhas⟩
    · exact Yields.after_fatal rfl (Yields.pure (P := fun _ => True) trivial)

/-- Without errors each state of the tree has its node. -/
theorem nodes_meets (registry : Registry) (config : Config) (es : Entries) (tree : Tree) :
    (nodes registry config es tree).Meets fun ids r ids' =>
      (∃ id, r.1 = some id ∧ tree.has id = true) ∧
        (∃ c : Setting, c.tree = tree ∧ Compile.CompilesTo c r.2) ∧
          ids' = ids ++ r.2.flatMap (fun n => n.invokes.map (·.id)) ∧ (ids.Nodup → ids'.Nodup) := by
  refine Meets.bind (buildActors_yields registry _) fun ⟨actors, failed⟩ =>
    Meets.bind (initialState_yields tree _) fun initial =>
      Meets.bind (Meets.mapM fun s _ => Compile.state_meets _ s) fun ns => Meets.pure ?_
  rintro ids ids₀ hall _ ⟨rfl, hinitial⟩ _ ⟨rfl, hfailed⟩
  obtain ⟨hns, rfl, hnd⟩ := hall hfailed
  exact ⟨hinitial, ⟨_, rfl, hns⟩, rfl, hnd⟩

/-- What can be said before references are looked at all stands in the way of a graph. -/
theorem isFatal_of_formal {es : Entries} {states : Nests} :
    ∀ i ∈ formalIssues es (Tree.ofNests states), i.isFatal = true := by
  intro i hi
  rcases List.mem_append.mp hi with hi | hi
  · exact Tree.isFatal_of_isOmission (Tree.isStrict_ofNests states i hi)
  · split at hi
    · cases hi
    · obtain ⟨m, -, rfl⟩ := List.mem_map.mp hi
      rfl

/-- **A graph comes of a compilation without errors** and of an analysis of that graph. -/
theorem exists_nodes_of_run {registry : Registry} {config : Config} {source : FlowSource}
    {o : CompileOutcome} {g : Graph} (h : run registry config source = .ok o)
    (hg : o.graph = some g) (he : Issue.errors o.issues = []) :
    ∃ es progress more, source.definition = .dict es ∧
      (nodes registry config es (Tree.ofNests source.states)).run
          { issues := formalIssues es (Tree.ofNests source.states) } =
        .ok ((some g.initial, g.states), progress) ∧
      Issue.errors progress.issues = [] ∧ analysed config.strictTemplates.isTruthy g = .ok more ∧
      o.issues = progress.issues ++ more ∧ ∃ fields, g.context = .dict fields := by
  unfold run at h
  split at h
  · rename_i es hes
    dsimp only at h
    split at h
    · cases h
      cases hg
    · obtain ⟨⟨⟨initial, ns⟩, progress⟩, hrun, h⟩ := bind_eq_ok.mp h
      dsimp only at h
      split at h
      · cases h
        cases hg
      · split at h
        · cases h
          cases hg
        · rename_i hclean
          obtain ⟨more, hmore, h⟩ := bind_eq_ok.mp h
          cases h
          simp only [he, List.isEmpty_nil, if_true, Option.some.injEq] at hg
          subst hg
          exact ⟨es, progress, more, hes, hrun, by simpa using hclean, hmore, rfl, _, rfl⟩
  · cases h
    cases hg

/-- Nothing was said before references were looked at, if there is no error in the end. -/
theorem formal_eq_nil {es : Entries} {states : Nests} {is : List Issue}
    (h : formalIssues es (Tree.ofNests states) <+: is) (he : Issue.errors is = []) :
    formalIssues es (Tree.ofNests states) = [] := by
  have hnone := no_errors_before h he
  rwa [Issue.errors, List.filter_eq_self.mpr isFatal_of_formal] at hnone

/-- **A graph comes of a sound tree without issues**, whose states all have their nodes. -/
theorem graph_of_run {registry : Registry} {config : Config} {source : FlowSource}
    {o : CompileOutcome} {g : Graph} (h : run registry config source = .ok o)
    (hg : o.graph = some g) (he : Issue.errors o.issues = []) :
    ∃ c : Setting, c.tree = Tree.ofNests source.states ∧ c.tree.issues = [] ∧
      Compile.CompilesTo c g.states ∧ c.tree.has g.initial = true ∧
        ((g.states.flatMap (·.invokes)).map (·.id)).Nodup := by
  obtain ⟨es, progress, _, -, hrun, hclean, -, -⟩ := exists_nodes_of_run h hg he
  obtain ⟨hgrown, hnodes⟩ := nodes_meets registry config es _ _ _ _ hrun
  obtain ⟨-, ⟨id, hid, hhas⟩, ⟨c, hc, hns⟩, hids, hnd⟩ := hnodes hclean
  cases hid
  refine ⟨c, hc, ?_, hns, hc ▸ hhas, ?_⟩
  · rw [hc]
    exact (List.append_eq_nil_iff.mp (formal_eq_nil hgrown hclean)).1
  · have hcalls := hnd List.nodup_nil
    rwa [hids, List.nil_append, ← List.map_flatMap] at hcalls

/-- **A warning is a notice or comes of the analysis.** -/
theorem isNotice_or_analysed {registry : Registry} {config : Config} {source : FlowSource}
    {o : CompileOutcome} {g : Graph} (h : run registry config source = .ok o)
    (hg : o.graph = some g) (he : Issue.errors o.issues = []) {i : Issue} (hi : i ∈ o.issues) :
    i.problem.IsNotice ∨ ∃ is,
      Analysis.issues config.strictTemplates.isTruthy g = .ok is ∧ i ∈ is := by
  obtain ⟨es, progress, more, -, hrun, hclean, hmore, hissues, -⟩ := exists_nodes_of_run h hg he
  rw [hissues] at hi
  rcases List.mem_append.mp hi with hi | hi
  · obtain ⟨hgrown, hnodes⟩ := nodes_meets registry config es _ _ _ _ hrun
    have hnone := formal_eq_nil hgrown hclean
    exact Or.inl (((hnodes hclean).1 i hi).resolve_left
      (List.eq_nil_iff_forall_not_mem.mp hnone i))
  · unfold analysed at hmore
    split at hmore
    · rename_i is his
      cases hmore
      exact Or.inr ⟨_, his, hi⟩
    · cases hmore
    · cases hmore
      cases hi

/-- What a node shows of the place it stands for. -/
structure Shows (p : Nest.Position) (n : StateNode) : Prop where
  id_eq : n.id = p.id
  key_eq : n.key = p.key
  parent_eq : n.parent = p.parent
  /-- It is a state, and each call it defines has been made. -/
  calls : ∃ es inside, p.nest = .state es inside ∧
    n.invokes.length = (Compile.asList ((Entries.lookup "invoke" es).getD .null)).length

/-! ## 3. Graphs of definitions -/

/-- Without errors all issues are warnings. -/
theorem warnings_eq_self {is : List Issue} (he : Issue.errors is = []) : Issue.warnings is = is := by
  refine List.filter_eq_self.mpr fun i hi => ?_
  simpa using List.filter_eq_nil_iff.mp he i hi

/-- What compiles comes of a compilation without errors, and its warnings are the issues of that. -/
theorem outcome_of_compileSource {registry : Registry} {config : Config} {source : FlowSource}
    {c : Compiled} (h : compileSource registry config source = .ok c) :
    ∃ o, run registry config source = .ok o ∧ o.graph = some c.graph ∧
      Issue.errors o.issues = [] ∧ c.warnings = o.issues := by
  unfold compileSource at h
  split at h
  · rename_i o ho
    unfold CompileOutcome.toResult at h
    split at h
    · rename_i he hg
      cases h
      exact ⟨o, ho, hg, he, warnings_eq_self he⟩
    · cases h
  · cases h

theorem run_of_compileSource {registry : Registry} {config : Config} {source : FlowSource}
    {c : Compiled} (h : compileSource registry config source = .ok c) :
    ∃ o, run registry config source = .ok o ∧ o.graph = some c.graph ∧
      Issue.errors o.issues = [] := by
  obtain ⟨o, ho, hg, he, -⟩ := outcome_of_compileSource h
  exact ⟨o, ho, hg, he⟩

/-- A graph has exactly one state for each place of its definition, in their order. -/
theorem shows_of_compiles {c : Setting} {states : Nests} {nodes : List StateNode}
    (hc : c.tree = Tree.ofNests states) (hclean : c.tree.issues = [])
    (h : Compile.CompilesTo c nodes) : List.Forall₂ Shows (Nest.positions states) nodes := by
  rw [hc] at hclean
  unfold Compile.CompilesTo at h
  rw [hc] at h
  refine comp_of_forall₂ (Tree.fills_ofNests hclean) h fun p s n hp hn => ?_
  obtain ⟨inside, hinside⟩ := hp.definition_eq
  exact ⟨hn.id_eq.trans hp.id_eq, hn.key_eq.trans hp.key_eq, hn.parent_eq.trans hp.parent_eq,
    _, inside, hinside, hn.invokes_length⟩

theorem warning_of_compileSource {registry : Registry} {config : Config} {source : FlowSource}
    {c : Compiled} (h : compileSource registry config source = .ok c) {i : Issue}
    (hi : i ∈ c.warnings) : i.problem.IsNotice ∨ ∃ is,
      Analysis.issues config.strictTemplates.isTruthy c.graph = .ok is ∧ i ∈ is := by
  obtain ⟨o, ho, hg, he, hwarnings⟩ := outcome_of_compileSource h
  exact isNotice_or_analysed ho hg he (hwarnings ▸ hi)

theorem wellFormed_graph {registry : Registry} {config : Config} {source : FlowSource}
    {c : Compiled} (h : compileSource registry config source = .ok c) : c.graph.WellFormed := by
  obtain ⟨o, ho, hg, he⟩ := run_of_compileSource h
  obtain ⟨s, hs, -, hns, hinitial, hcalls⟩ := graph_of_run ho hg he
  exact Compile.wellFormed_of_compiles hns (hs ▸ Tree.sound_ofNests source.states) hinitial hcalls

/-- **The graph of a definition that compiles is well formed**, whatever the definition and the
registry: it has one state for each place of the definition, the states fit together, and both walks
along them come to an end. -/
theorem wellFormed_of_compileSource {registry : Registry} {config : Config} {source : FlowSource}
    {c : Compiled} (h : compileSource registry config source = .ok c) :
    List.Forall₂ Shows (Nest.positions source.states) c.graph.states ∧ c.graph.WellFormed ∧
      (∀ id, ¬ c.graph.IsAround id id) ∧
      (∀ id ∈ c.graph.ids, ∃ path, c.graph.pathTo id = .ok path ∧ c.graph.Climb id path.reverse) ∧
      (∀ id ∈ c.graph.ids, ∃ n ∈ c.graph.states, c.graph.leafFor id = .ok n.id ∧
        n.kind ≠ .compound ∧ c.graph.Descent id n.id ∧ (id = n.id ∨ c.graph.IsAround id n.id)) := by
  obtain ⟨o, ho, hg, he⟩ := run_of_compileSource h
  obtain ⟨s, hs, hclean, hns, -, -⟩ := graph_of_run ho hg he
  have wf := wellFormed_graph h
  refine ⟨shows_of_compiles hs hclean hns, wf, wf.not_isAround_self, fun id hid => ?_,
    fun id hid => wf.exists_leafFor hid⟩
  obtain ⟨path, hpath⟩ := wf.exists_pathTo hid
  exact ⟨path, hpath, wf.climb_of_pathTo hpath⟩

set_option maxRecDepth 100000 in
/-- A compound state with a timer, a call and a name that holds a full stop. -/
theorem wellFormed_of_compileSource_nested :
    ∃ source c, source = FlowSource.ofValue (.record [("initial", .text "a"),
        ("actors", .record [("nap", .record [("type", .text "timer"), ("ms", .int 5)])]),
        ("states", .record [
          ("a", .record [("initial", .text "b.c"), ("states", .record [
            ("b.c", .record [("on", .record [("GO", .text "d")]),
              ("after", .record [("100", .text "#e")])]),
            ("d", .record [("invoke", .record [("src", .text "nap"), ("onDone", .text "#e")])])])]),
          ("e", .record [("type", .text "final")])])]) ∧
      compileSource (.bare {}) {} source = .ok c ∧
      (List.Forall₂ Shows (Nest.positions source.states) c.graph.states ∧ c.graph.WellFormed ∧
        (∀ id, ¬ c.graph.IsAround id id) ∧
        (∀ id ∈ c.graph.ids, ∃ path, c.graph.pathTo id = .ok path ∧
          c.graph.Climb id path.reverse) ∧
        (∀ id ∈ c.graph.ids, ∃ n ∈ c.graph.states, c.graph.leafFor id = .ok n.id ∧
          n.kind ≠ .compound ∧ c.graph.Descent id n.id ∧ (id = n.id ∨ c.graph.IsAround id n.id))) :=
  ⟨_, _, rfl, rfl, wellFormed_of_compileSource rfl⟩

end Definition

end Statechart
