/-
# What nothing provides

A compiler warns about a guard that reads a path of the context which nothing provides.  It compares how
the paths are spelled: those that the actions, inputs and computed fields of a flow name, those of the
first context, and the one that the guard reads.  A run looks at places.  This file says when the first
tells something of the second.

* `StateNode.targets`: the values that name what a flow writes in a state;
* `Graph.preserves_lacks`: if all that is written leaves a path, the built-in actions keep it empty;
* `Graph.Avoids`: everything is spelled plainly or leaves the path;
* **`Definition.null_of_unprovided`**: then a guard that is warned about finds null in every run;
* `Definition.provided_by_item`: without that it may find something: a list that an action has made by
  writing one of its items.
-/
import Statechart.Proofs.Configuration
import Statechart.Proofs.Lacking
import Statechart.Proofs.Reachability
import Statechart.Proofs.Target

namespace Statechart

/-! ## 1. What is written -/

/-- The values that name the places that are written in a state. -/
def StateNode.targets (n : StateNode) : List Value :=
  n.allActions.flatMap (·.targets) ++ n.inputs.map (fun b => .text ("context." ++ b.target.key)) ++
    n.computed.map fun c => .text ("context." ++ c.field)

/-- All places that a value names leave a path. -/
def Value.Leaves (v : Value) (p : Path) : Prop := ∀ q, v.Addresses q → q.Forks p

/-- A flow that uses built-in actions only. -/
def Graph.IsBuiltin (g : Graph) : Prop :=
  ∀ n ∈ g.states, ∀ a ∈ n.allActions, ∃ b : BuiltinAction, a.spec = b.spec

/-! ## 2. What built-in actions keep empty -/

section Keeping

variable {p : Path} {context v w target : Value}

/-- What is stored elsewhere leaves a path empty. -/
theorem Value.Leaves.storesKeep {t : Value} (ht : t.Leaves p) : t.StoresKeep (·.Lacks p) := by
  intro path context v w hpath hcontext h
  obtain ⟨q, hq, h⟩ := bind_eq_ok.mp h
  split at h
  · rename_i w' hput
    cases h
    exact lacks_put (ht q ⟨path, hpath, mapError_eq_ok.mp (mapError_eq_ok.mp hq)⟩) hcontext hput
  · cases h

/-- So does what is removed elsewhere. -/
theorem Value.Lacks.removed {path : String} (hcontext : context.Lacks p) (hv : target.Leaves p)
    (hpath : contextPath target = .ok path) (h : context.removed path = .ok w) : w.Lacks p := by
  obtain ⟨q, hq, rfl⟩ := map_eq_ok.mp (mapError_eq_ok.mp (mapError_eq_ok.mp h))
  exact lacks_remove (hv q ⟨path, hpath, hq⟩) hcontext

/-- **A built-in action leaves a path empty** if all that it writes leaves the path. -/
theorem BoundAction.preserves_lacks {a : BoundAction} {b : BuiltinAction} (hspec : a.spec = b.spec)
    (r : Renderer) (hv : ∀ t ∈ a.targets, t.Leaves p) : a.Preserves r (·.Lacks p) :=
  fun _ _ hcontext => apply_keeps hspec r hcontext (fun _ t ht => (hv t ht).storesKeep)
    fun _ t ht _ _ hpath h => hcontext.removed (hv t ht) hpath h

theorem Binding.applyInput_lacks {b : Binding} (hv : (Value.text ("context." ++ b.target.key)).Leaves p)
    (hcontext : context.Lacks p) : (b.applyInput context).Results (·.Lacks p) := by
  unfold applyInput
  dsimp only
  -- whichever way the value is found
  split
  all_goals
    refine Act.Results.after fun v => ?_
    split
    · exact Act.Results.pure hcontext
    · refine Act.Results.after fun w? => ?_
      split
      · exact (Act.results_lift _).mono fun w h =>
          hv.storesKeep (contextPath_text (splitScope_below _)) hcontext h
      · exact Act.Results.pure hcontext

/-- **The built-in actions of a flow, its inputs and its computed fields leave a path empty** if all that
is written leaves the path. -/
theorem Graph.preserves_lacks {g : Graph} (hbuiltin : g.IsBuiltin)
    (hv : ∀ n ∈ g.states, ∀ t ∈ n.targets, t.Leaves p) (r : Renderer) : g.Preserves r (·.Lacks p) where
  action := fun n hn a ha => by
    obtain ⟨b, hspec⟩ := hbuiltin n hn a ha
    exact BoundAction.preserves_lacks hspec r fun t ht => hv n hn t
      (List.mem_append_left _ (List.mem_append_left _ (List.mem_flatMap.mpr ⟨a, ha, ht⟩)))
  input := fun n hn b hb context hcontext => Binding.applyInput_lacks (hv n hn _
    (List.mem_append_left _ (List.mem_append_right _ (List.mem_map.mpr ⟨b, hb, rfl⟩)))) hcontext
  computed := fun n hn c hc context v w hcontext h => (hv n hn _
    (List.mem_append_right _ (List.mem_map.mpr ⟨c, hc, rfl⟩))).storesKeep
      (contextPath_text (splitScope_below _)) hcontext h

end Keeping

/-! ## 3. Plain spellings -/

/-- The guard that is warned about, and the path that it reads. -/
def Problem.unprovided? : Problem → Option (String × String)
  | .unprovidedPath guard path => some (guard, path)
  | _ => none

theorem Problem.eq_of_unprovided? {problem : Problem} {guard path : String}
    (h : problem.unprovided? = some (guard, path)) : problem = .unprovidedPath guard path := by
  cases problem <;> cases h
  rfl

/-- A path text that consists of names with dots between them. -/
def Path.IsPlain (s : String) : Prop := ∃ ns, AreNames ns ∧ s = ".".intercalate ns

/-- A text that names a place in the context plainly. -/
def Value.IsPlain (v : Value) : Prop := ∃ s rest, v = .text s ∧ splitScope s = (.context, rest) ∧
  Path.IsPlain rest

theorem Value.eq_text_of_text? {v : Value} {s : String} (h : v.text? = some s) : v = .text s := by
  cases v <;> cases h
  rfl

theorem Path.ne_empty_of_isPlain {s : String} (h : IsPlain s) : s ≠ "" := by
  obtain ⟨ns, hns, rfl⟩ := h
  intro hempty
  have hparse := parse_names hns
  rw [hempty] at hparse
  cases ns with
  | nil => exact hns.1 rfl
  | cons n ns => cases hparse

/-- A place that is named plainly is said to be provided. -/
theorem Graph.mem_provided {catalogue : String → Option ActionSpec} {g : Graph}
    (hbuiltin : g.IsBuiltin) {n : StateNode} (hn : n ∈ g.states) (hbound : n.IsBound catalogue)
    {s rest : String} (hs : .text s ∈ n.targets) (hsplit : splitScope s = (.context, rest)) (hrest : rest ≠ "") :
    "context." ++ rest ∈ Analysis.provided g := by
  refine List.mem_append_right _ (List.mem_flatMap.mpr ⟨n, hn, ?_⟩)
  rcases List.mem_append.mp hs with hs | hs
  · rcases List.mem_append.mp hs with hs | hs
    · obtain ⟨a, ha, hs⟩ := List.mem_flatMap.mp hs
      obtain ⟨b, hspec⟩ := hbuiltin n hn a ha
      rw [BoundAction.targets_eq hspec] at hs
      have hwrites := BuiltinAction.qualified_mem_writes hs (.inr ⟨s, rfl⟩)
      rw [← hspec, Value.display, qualified_of_splitScope hsplit hrest] at hwrites
      refine List.mem_append_left _ (List.mem_append_left _ (List.mem_flatMap.mpr ⟨a, ha, ?_⟩))
      rw [(hbound.action a ha).writes_eq]
      exact mem_distinctSorted.mpr hwrites
    · obtain ⟨b, hb, heq⟩ := List.mem_map.mp hs
      cases heq
      rw [splitScope_below] at hsplit
      cases hsplit
      refine List.mem_append_left _ (List.mem_append_right _ (List.mem_map.mpr ⟨b, hb, ?_⟩))
      rw [Place.reference, hbound.input b hb]
      rfl
  · obtain ⟨c, hc, heq⟩ := List.mem_map.mp hs
    cases heq
    rw [splitScope_below] at hsplit
    cases hsplit
    exact List.mem_append_right _ (List.mem_map.mpr ⟨c, hc, rfl⟩)

theorem mem_entryPaths {es : Entries} {n : String} {v : Value} (h : Entries.lookup n es = some v) :
    n ∈ Value.entryPaths "" es := by
  induction es with
  | nil => cases h
  | cons e es ih =>
    obtain ⟨k, w⟩ := e
    by_cases hk : k = .text n
    · subst hk
      exact .head _
    · rw [Entries.lookup_cons, if_neg hk] at h
      exact .tail _ (List.mem_append_right _ (ih h))

/-- What the first context holds under a name is said to be provided. -/
theorem Graph.mem_provided_context {g : Graph} {es : Entries} (hg : g.context = .dict es) {n : String}
    {v : Value} (h : Entries.lookup n es = some v) : "context." ++ n ∈ Analysis.provided g := by
  refine List.mem_append_left _ (List.mem_map.mpr ⟨n, ?_, rfl⟩)
  rw [hg, Value.paths]
  exact mem_entryPaths h

/-- Everything in a flow is spelled plainly, as is a reading, or leaves its path. -/
structure Graph.Avoids (g : Graph) (rest : String) (p : Path) : Prop where
  first : Path.IsPlain rest ∨ g.context.Lacks p
  target : ∀ n ∈ g.states, ∀ t ∈ n.targets, (Path.IsPlain rest ∧ t.IsPlain) ∨ t.Leaves p

section Unprovided

variable {catalogue : String → Option ActionSpec} {g : Graph} {rest : String} {p : Path}

/-- What is spelled plainly and not said to be provided is left by all that is written. -/
theorem Graph.leaves_of_unprovided (hbuiltin : g.IsBuiltin)
    (hbound : ∀ n ∈ g.states, n.IsBound catalogue)
    (hp : Path.parse rest = .ok p) (h : g.Avoids rest p)
    (hnone : Analysis.isProvided (Analysis.provided g) ("context." ++ rest) = false) :
    ∀ n ∈ g.states, ∀ t ∈ n.targets, t.Leaves p := by
  intro n hn t ht
  rcases h.target n hn t ht with ⟨⟨ns, hns, rfl⟩, s, _, rfl, hsplit, ms, hms, rfl⟩ | hleaves
  · rintro q ⟨path, hpath, hq⟩
    rw [contextPath_text hsplit] at hpath
    cases hpath
    rw [Path.parse_names hns] at hp
    cases hp
    rw [Path.parse_names hms] at hq
    cases hq
    exact forks_of_not_provided hms.1 hns.1 (mem_provided hbuiltin hn (hbound n hn) ht hsplit
      (Path.ne_empty_of_isPlain ⟨ms, hms, rfl⟩)) hnone
  · exact hleaves

/-- And it is not there from the start. -/
theorem Graph.lacks_of_unprovided {es : Entries} (hg : g.context = .dict es)
    (hp : Path.parse rest = .ok p) (h : g.Avoids rest p)
    (hnone : Analysis.isProvided (Analysis.provided g) ("context." ++ rest) = false) :
    g.context.Lacks p := by
  rcases h.first with ⟨ns, hns, rfl⟩ | hlacks
  · rw [Path.parse_names hns] at hp
    cases hp
    obtain ⟨n, ms, rfl⟩ := List.exists_cons_of_ne_nil hns.1
    rw [hg]
    cases hlookup : Entries.lookup n es with
    | none =>
      rw [List.map_cons, Value.Lacks]
      simp only [Segment.name, hlookup, Option.getD_none]
      exact Value.lacks_null _
    | some v =>
      have hmem : "context." ++ ".".intercalate [n] ∈ Analysis.provided g := by
        simpa using mem_provided_context hg hlookup
      have hforks := forks_of_not_provided (List.cons_ne_nil n []) (List.cons_ne_nil n ms) hmem hnone
      rcases hforks with hne | hforks
      · exact absurd rfl hne
      · cases ms <;> cases hforks
  · exact hlacks

end Unprovided

namespace Definition

open Instance

variable {registry : Registry} {config : Config} {source : FlowSource} {c : Compiled} {m : Machine}

/-! ## 4. Warnings and runs -/

/-- **What a guard is warned about is null in every run**, if the flow uses built-in actions only and
everything it writes is spelled plainly, as is what the guard reads, or leaves the path: in every
instance that is reached, those in which guards are evaluated among them. -/
theorem null_of_unprovided (hc : compileSource registry config source = .ok c)
    (hbuiltin : c.graph.IsBuiltin) {i : Issue} (hi : i ∈ c.warnings) {guard rest : String}
    (hreport : i.problem = .unprovidedPath guard ("context." ++ rest)) {p : Path}
    (hp : Path.parse rest = .ok p) (havoids : c.graph.Avoids rest p) (hm : m.graph = c.graph)
    {s : Instance} (hs : Reached m s) (event : Value) :
    lookupScoped ("context." ++ rest) s.context event = .ok .null := by
  obtain ⟨o, hrun, hgraph, herrors⟩ := run_of_compileSource hc
  obtain ⟨-, -, -, -, -, -, -, -, fields, hfields⟩ := exists_nodes_of_run hrun hgraph herrors
  have hnone : Analysis.isProvided (Analysis.provided c.graph) ("context." ++ rest) = false := by
    rcases warning_of_compileSource hc hi with hnotice | ⟨is, his, hi⟩
    · rw [hreport] at hnotice
      cases hnotice
    · rcases Analysis.mem_issues his hi with ⟨us, hus, hi⟩ | ⟨ds, hds, hi⟩ | hproblem
      · obtain ⟨_, n, -, -, -, hproblem⟩ := Analysis.mem_unreachableStates hus hi
        cases hreport.symm.trans hproblem
      · obtain ⟨n, -, hproblem, -⟩ := Analysis.mem_deadEnds hds hi
        cases hreport.symm.trans hproblem
      · rw [hreport] at hproblem
        exact hproblem.2
  have hleaves := Graph.leaves_of_unprovided hbuiltin (areBound_of_compileSource hc) hp havoids hnone
  have hfirst := Graph.lacks_of_unprovided hfields hp havoids hnone
  rw [← hm] at hbuiltin hleaves hfirst
  have hlacks : s.context.Lacks p :=
    holds_of_reached (Graph.preserves_lacks hbuiltin hleaves m.renderer) hfirst hs
  rw [lookupScoped, splitScope_below]
  simp only [Value.atTextD, Value.atText, hp]
  exact congrArg Except.ok hlacks.atD

/-- A flow uses built-in actions only if there are no others. -/
theorem isBuiltin_of_compileSource (hc : compileSource registry config source = .ok c)
    (hregistry : ∀ name spec, registry.action? name = some spec → ∃ b : BuiltinAction, spec = b.spec) :
    c.graph.IsBuiltin := by
  intro n hn a ha
  obtain ⟨name, hname⟩ := ((areBound_of_compileSource hc n hn).action a ha).known
  exact hregistry name _ hname

theorem builtin_of_standard (hregistry : Registry.standard config = .ok registry) (name : String)
    (spec : ActionSpec) (hname : registry.action? name = some spec) :
    ∃ b : BuiltinAction, spec = b.spec := by
  obtain ⟨http, -, hregistry⟩ := bind_eq_ok.mp hregistry
  cases hregistry
  obtain ⟨xs, ys, hxs, -⟩ := List.lookup_eq_some_iff.mp hname
  have hmem := List.mem_append_right xs (List.Mem.head (a := (name, spec)) ys)
  rw [← hxs] at hmem
  obtain ⟨b, -, heq⟩ := List.mem_map.mp hmem
  cases heq
  exact ⟨b, rfl⟩

/-- A warning that compiling can be seen to give. -/
theorem exists_unprovided (hc : compileSource registry config source = .ok c) (guard path : String)
    (h : (compileSource registry config source).toOption.any (fun c =>
      c.warnings.any fun i => i.problem.unprovided? = some (guard, path)) = true) :
    ∃ i ∈ c.warnings, i.problem = .unprovidedPath guard path := by
  rw [hc] at h
  obtain ⟨i, hi, hreport⟩ := List.any_eq_true.mp h
  exact ⟨i, hi, Problem.eq_of_unprovided? (of_decide_eq_true hreport)⟩

/-- A flow whose only action writes the name of a user, and whose guard reads an approval. -/
def approvalFlow : Value :=
  .record [("initial", .text "a"), ("states", .record [
    ("a", .record [("entry", .list [.text "assignField:field:user.name:value:ann"]),
      ("on", .record [("GO", .record [("target", .text "b"),
        ("guard", .text "isTruthy:context.user.approved")])])]),
    ("b", .record [("type", .text "final")])])]

theorem null_of_unprovided_approval : ∃ registry c m s,
    Registry.standard {} = .ok registry ∧
      compileSource registry {} (.ofValue approvalFlow) = .ok c ∧ c.graph.IsBuiltin ∧
      (∃ i ∈ c.warnings, i.problem =
        .unprovidedPath "isTruthy:context.user.approved" "context.user.approved") ∧
      Path.parse "user.approved" = .ok [.key "user", .key "approved"] ∧
      c.graph.Avoids "user.approved" [.key "user", .key "approved"] ∧ m.graph = c.graph ∧
      Reached m s ∧ lookupScoped "context.user.name" s.context .null = .ok (.text "ann") ∧
      lookupScoped "context.user.approved" s.context .null = .ok .null := by
  obtain ⟨registry, hregistry⟩ : ∃ r, Registry.standard {} = .ok r := ⟨_, rfl⟩
  obtain ⟨c, m, s₀, hc, hm, hs, hrun⟩ := exists_played registry {} (.ofValue approvalFlow)
    [.start] (fun m s => m.graph.states.all (fun n =>
      n.targets.all fun t => t.text? = some "user.name") &&
        (lookupScoped "context.user.name" s.context .null).toOption.any fun v => v.text? = some "ann")
    (by cases hregistry; decide +kernel)
  simp only [Bool.and_eq_true, List.all_eq_true, decide_eq_true_eq] at hrun
  obtain ⟨i, hi, hreport⟩ := exists_unprovided hc "isTruthy:context.user.approved"
    "context.user.approved" (by cases hregistry; decide +kernel)
  have hparse : Path.parse "user.approved" = .ok [.key "user", .key "approved"] := rfl
  have hplain : Path.IsPlain "user.approved" := ⟨["user", "approved"], by decide +kernel, rfl⟩
  have havoids : c.graph.Avoids "user.approved" [.key "user", .key "approved"] := by
    refine ⟨.inl hplain, fun n hn t ht => .inl ⟨hplain, "user.name", "user.name", ?_, rfl,
      ["user", "name"], by decide +kernel, rfl⟩⟩
    exact Value.eq_text_of_text? (hrun.1 n (hm ▸ hn) t ht)
  have hbuiltin := isBuiltin_of_compileSource hc (builtin_of_standard hregistry)
  have hreached := reached_after (m := m) [.start] hs
  have hscoped : i.problem =
      .unprovidedPath "isTruthy:context.user.approved" ("context." ++ "user.approved") := hreport
  refine ⟨registry, c, m, _, hregistry, hc, hbuiltin, ⟨i, hi, hreport⟩, hparse, havoids, hm, hreached,
    ?_, null_of_unprovided hc hbuiltin hi hscoped hparse havoids hm hreached .null⟩
  obtain ⟨v, hv, htext⟩ := exists_ok_of_any hrun.2
  rw [hv, Value.eq_text_of_text? (of_decide_eq_true htext)]

/-- A flow whose only action writes the first item of a list, and whose guard reads the list. -/
def itemFlow : Value :=
  .record [("initial", .text "a"), ("states", .record [
    ("a", .record [("entry", .list [.text "assignField:field:items[0]:value:one"]),
      ("on", .record [("GO", .record [("target", .text "b"),
        ("guard", .text "isNotNull:context.items")])])]),
    ("b", .record [("type", .text "final")])])]

/-- **An item that is written makes its list**, which a guard is warned about as if nothing provided it:
the guard holds, and the flow comes to its end through it. -/
theorem provided_by_item : ∃ registry c m s,
    Registry.standard {} = .ok registry ∧
      compileSource registry {} (.ofValue itemFlow) = .ok c ∧ c.graph.IsBuiltin ∧
      (∃ i ∈ c.warnings, i.problem = .unprovidedPath "isNotNull:context.items" "context.items") ∧
      m.graph = c.graph ∧ Reached m s ∧
      (∃ v, lookupScoped "context.items" s.context .null = .ok v ∧ v.isNull = false) ∧
      (after m [.send (.text "GO")] s).state = "b" := by
  obtain ⟨registry, hregistry⟩ : ∃ r, Registry.standard {} = .ok r := ⟨_, rfl⟩
  obtain ⟨c, m, s₀, hc, hm, hs, hrun⟩ := exists_played registry {} (.ofValue itemFlow) [.start]
    (fun m s => ((lookupScoped "context.items" s.context .null).toOption.any fun v => !v.isNull) &&
      (after m [.send (.text "GO")] s).state = "b") (by cases hregistry; decide +kernel)
  simp only [Bool.and_eq_true, decide_eq_true_eq] at hrun
  refine ⟨registry, c, m, _, hregistry, hc, isBuiltin_of_compileSource hc
    (builtin_of_standard hregistry), exists_unprovided hc "isNotNull:context.items" "context.items"
    (by cases hregistry; decide +kernel), hm, reached_after [.start] hs, ?_, hrun.2⟩
  obtain ⟨v, hv, hnull⟩ := exists_ok_of_any hrun.1
  exact ⟨v, hv, by simpa using hnull⟩

end Definition

end Statechart
