/-
# Disabled candidates

An event is offered to the candidates of the active leaf, then to those of the states around it, level by
level, and on each level in the order of the definition.  A candidate is disabled if the check of its guard
comes to false, be it that the guard fails to be evaluated; all that such a candidate leaves behind is a
line in the log.  So it makes no difference where such candidates stand, and whether they are there at all.

* `Guard.exec_check`: what a check comes to does not depend on what was done before;
* `Instance.choose`: the search, without the log; `Instance.exec_firstEnabled`: it is the search;
* `Candidate.Rearranged`: disabled candidates put in, taken out or moved;
* `Graph.Redrawn`: so on any levels of a graph;
* **`Definition.selects_first_enabled`**: the first enabled candidate from the leaf outwards is selected,
  whatever disabled ones there are, and without one nothing happens.
-/
import Statechart.Proofs.Selection

namespace Statechart

/-! ## 1. Verdicts -/

/-- More lines in the log. -/
def Effects.logging (fx : Effects) (lines : List LogEntry) : Effects :=
  { fx with log := fx.log ++ lines }

theorem Effects.logging_nil (fx : Effects) : fx.logging [] = fx := by
  simp [logging]

theorem Effects.logging_append (fx : Effects) (lines more : List LogEntry) :
    (fx.logging lines).logging more = fx.logging (lines ++ more) := by
  simp [logging]

section

variable {context event : Value}

/-- What the check of a guard comes to. -/
def Guard.verdict (context event : Value) (g : Guard) : Except Fault Bool :=
  ((g.check context event).exec {}).1

/-- **A check comes to the same at all times**, and leaves behind no more than lines in the log. -/
theorem Guard.exec_check (context event : Value) (g : Guard) (fx : Effects) :
    ∃ lines, (g.check context event).exec fx = (g.verdict context event, fx.logging lines) := by
  unfold verdict
  cases htest : g.test context event with
  | ok b =>
    rw [check_of_test fx htest, check_of_test {} htest]
    exact ⟨[], by rw [fx.logging_nil]⟩
  | error f =>
    have hlift (fx : Effects) : (Act.lift (g.test context event)).exec fx = (.error f, fx) := by
      rw [htest, Act.exec_lift]
    cases f with
    | evaluation e =>
      rw [check, Act.catchEval_of_eval (hlift fx), Act.catchEval_of_eval (hlift {})]
      exact ⟨_, rfl⟩
    | _ =>
      refine ⟨[], ?_⟩
      rw [fx.logging_nil]
      simp [check, Act.catchEval, Act.exec, Act.lift, htest]

namespace Candidate

/-- What the check of a candidate comes to; without a guard it is enabled. -/
def verdict (context event : Value) (k : Candidate) : Except Fault Bool :=
  match k.guard with
  | none => .ok true
  | some g => g.verdict context event

def isEnabled (context event : Value) (k : Candidate) : Bool :=
  (k.verdict context event).toOption.getD false

/-- The check of a candidate comes to false. -/
def Disabled (context event : Value) (k : Candidate) : Prop := k.verdict context event = .ok false

instance (k : Candidate) : Decidable (k.Disabled context event) :=
  match h : k.verdict context event with
  | .ok false => .isTrue h
  | .ok true => .isFalse fun h' => by cases h.symm.trans h'
  | .error _ => .isFalse fun h' => by cases h.symm.trans h'

end Candidate

namespace Instance

/-- The first enabled candidate, unless a check before it fails. -/
def choose (context event : Value) : List Candidate → Except Fault (Option Candidate)
  | [] => .ok none
  | k :: ks => do if ← k.verdict context event then return some k else choose context event ks

/-- **The search comes to this**, and leaves behind no more than lines in the log. -/
theorem exec_firstEnabled (context event : Value) (cs : List Candidate) (fx : Effects) :
    ∃ lines, (firstEnabled context event cs).exec fx = (choose context event cs, fx.logging lines) := by
  induction cs generalizing fx with
  | nil => exact ⟨[], by rw [fx.logging_nil]; rfl⟩
  | cons k ks ih =>
    rw [exec_firstEnabled_cons, choose, Candidate.verdict]
    cases k.guard with
    | none => exact ⟨[], by rw [fx.logging_nil]; rfl⟩
    | some g =>
      obtain ⟨lines, hcheck⟩ := g.exec_check context event fx
      simp only [hcheck]
      cases g.verdict context event with
      | error f => exact ⟨lines, rfl⟩
      | ok b =>
        cases b with
        | true => exact ⟨lines, rfl⟩
        | false =>
          obtain ⟨more, hrest⟩ := ih (fx.logging lines)
          exact ⟨lines ++ more, by rw [← fx.logging_append]; exact hrest⟩

/-- Where every check returns, the search finds the first enabled candidate. -/
theorem choose_eq_find? {cs : List Candidate} (h : ∀ k ∈ cs, ∃ b, k.verdict context event = .ok b) :
    choose context event cs = .ok (cs.find? (·.isEnabled context event)) := by
  induction cs with
  | nil => rfl
  | cons k ks ih =>
    obtain ⟨⟨b, hb⟩, hks⟩ := List.forall_mem_cons.mp h
    rw [choose, hb, List.find?_cons, Candidate.isEnabled, hb]
    cases b with
    | true => rfl
    | false => exact ih hks

/-- It finds none exactly if all are disabled. -/
theorem choose_eq_none_iff {cs : List Candidate} :
    choose context event cs = .ok none ↔ ∀ k ∈ cs, k.Disabled context event := by
  induction cs with
  | nil => simp [choose]
  | cons k ks ih =>
    rw [choose, List.forall_mem_cons, ← ih, Candidate.Disabled]
    rcases k.verdict context event with f | b
    · simp [bind, Except.bind]
    · cases b <;> simp [bind, Except.bind, pure, Except.pure]

end Instance

/-! ## 2. Rearrangements -/

namespace Candidate

/-- The same candidates in the same order, but for disabled ones, which may have been put in or taken out
anywhere; moving one is doing both. -/
inductive Rearranged (context event : Value) : List Candidate → List Candidate → Prop
  | nil : Rearranged context event [] []
  | same {cs ds : List Candidate} (k : Candidate) (h : Rearranged context event cs ds) :
      Rearranged context event (k :: cs) (k :: ds)
  | insert {cs ds : List Candidate} {k : Candidate} (hk : k.Disabled context event)
      (h : Rearranged context event cs ds) : Rearranged context event cs (k :: ds)
  | remove {cs ds : List Candidate} {k : Candidate} (hk : k.Disabled context event)
      (h : Rearranged context event cs ds) : Rearranged context event (k :: cs) ds

namespace Rearranged

variable {cs cs' ds ds' : List Candidate}

theorem refl (cs : List Candidate) : Rearranged context event cs cs := by
  induction cs with
  | nil => exact .nil
  | cons k ks ih => exact .same k ih

theorem append (h : Rearranged context event cs ds) (h' : Rearranged context event cs' ds') :
    Rearranged context event (cs ++ cs') (ds ++ ds') := by
  induction h with
  | nil => exact h'
  | same k _ ih => exact .same k ih
  | insert hk _ ih => exact .insert hk ih
  | remove hk _ ih => exact .remove hk ih

/-- **The search finds the same.** -/
theorem choose_eq (h : Rearranged context event cs ds) :
    Instance.choose context event cs = Instance.choose context event ds := by
  induction h with
  | nil => rfl
  | same k _ ih => rw [Instance.choose, Instance.choose, ih]
  | insert hk _ ih =>
    rw [Instance.choose, hk, ih]
    rfl
  | remove hk _ ih =>
    rw [Instance.choose, hk, ih]
    rfl

theorem inserts {front : List Candidate} (hfront : ∀ k ∈ front, k.Disabled context event)
    (h : Rearranged context event cs ds) : Rearranged context event cs (front ++ ds) := by
  induction front with
  | nil => exact h
  | cons k ks ih =>
    obtain ⟨hk, hks⟩ := List.forall_mem_cons.mp hfront
    exact .insert hk (ih hks)

end Rearranged

/-- **Only those that are not disabled count**, and their order; so disabled ones may change places in any
way. -/
theorem rearranged_iff {cs ds : List Candidate} : Rearranged context event cs ds ↔
    cs.filter (fun k => ¬ k.Disabled context event) = ds.filter fun k => ¬ k.Disabled context event := by
  constructor
  · intro h
    induction h with
    | nil => rfl
    | same k _ ih => rw [List.filter_cons, List.filter_cons, ih]
    | insert hk _ ih => rw [List.filter_cons_of_neg (by simpa using hk), ih]
    | remove hk _ ih => rw [List.filter_cons_of_neg (by simpa using hk), ih]
  · intro h
    induction cs generalizing ds with
    | nil =>
      have hall : ∀ k ∈ ds, k.Disabled context event := by
        simpa using List.filter_eq_nil_iff.mp h.symm
      simpa using Rearranged.nil.inserts hall
    | cons k ks ih =>
      by_cases hk : k.Disabled context event
      · rw [List.filter_cons_of_neg (by simpa using hk)] at h
        exact .remove hk (ih h)
      · rw [List.filter_cons_of_pos (by simpa using hk)] at h
        obtain ⟨front, rest, rfl, hfront, -, hrest⟩ := List.filter_eq_cons_iff.mp h.symm
        exact (Rearranged.same k (ih hrest.symm)).inserts fun d hd => by simpa using hfront d hd

end Candidate

end

/-! ## 3. Levels -/

namespace Graph

variable {g g' : Graph} {R : StateNode → StateNode → Prop} {id : String}

/-- States are found under their identifiers. -/
theorem map_id_of_mapM_state {ids : List String} {nodes : List StateNode}
    (h : ids.mapM g.state = .ok nodes) : nodes.map (·.id) = ids := by
  induction ids generalizing nodes with
  | nil =>
    cases h
    rfl
  | cons id ids ih =>
    rw [List.mapM_cons] at h
    obtain ⟨n, hn, h⟩ := bind_eq_ok.mp h
    obtain ⟨ns, hns, h⟩ := bind_eq_ok.mp h
    cases h
    rw [List.map_cons, state_id hn, ih hns]

/-- A state has its counterpart in a graph that has the same states. -/
theorem state_of_forall₂ (hall : List.Forall₂ R g.states g'.states)
    (hid : ∀ n n', R n n' → n'.id = n.id) {n : StateNode} (h : g.state id = .ok n) :
    ∃ n', g'.state id = .ok n' ∧ R n n' := by
  unfold state state? at h ⊢
  generalize g.states = ns at hall h
  generalize g'.states = ns' at hall
  induction hall with
  | nil => cases h
  | @cons n₁ n₁' ns ns' hR _ ih =>
    have heq := hid _ _ hR
    rw [List.find?_cons, heq]
    rw [List.find?_cons] at h
    by_cases hn : n₁.id = id
    · simp only [hn, decide_true] at h ⊢
      cases h
      exact ⟨n₁', rfl, hR⟩
    · simp only [hn, decide_false] at h ⊢
      exact ih h

/-- The walk outwards goes the same way in a graph that has the same states in the same places. -/
theorem Climb.of_forall₂ (hall : List.Forall₂ R g.states g'.states)
    (hplace : ∀ n n', R n n' → n'.id = n.id ∧ n'.parent = n.parent) {path : List String}
    (h : g.Climb id path) : g'.Climb id path ∧ ∃ levels levels', path.mapM g.state = .ok levels ∧
      path.mapM g'.state = .ok levels' ∧ List.Forall₂ R levels levels' := by
  induction h with
  | @outermost id n hn hp =>
    obtain ⟨n', hn', hR⟩ := state_of_forall₂ hall (fun n n' hR => (hplace n n' hR).1) hn
    refine ⟨.outermost hn' ((hplace _ _ hR).2.trans hp), [n], [n'], ?_, ?_, .cons hR .nil⟩
    · simp [hn, pure, Except.pure, bind, Except.bind]
    · simp [hn', pure, Except.pure, bind, Except.bind]
  | @step id p path n hn hp _ ih =>
    obtain ⟨n', hn', hR⟩ := state_of_forall₂ hall (fun n n' hR => (hplace n n' hR).1) hn
    obtain ⟨hclimb, levels, levels', hlevels, hlevels', hRs⟩ := ih
    refine ⟨.step hn' ((hplace _ _ hR).2.trans hp) hclimb, n :: levels, n' :: levels', ?_, ?_,
      .cons hR hRs⟩
    · simp [hn, hlevels, pure, Except.pure, bind, Except.bind]
    · simp [hn', hlevels', pure, Except.pure, bind, Except.bind]

end Graph

/-- The candidates for an event, level by level. -/
theorem Instance.candidatesFor_of_climb {m : Machine} {id event : String} {path : List String}
    {levels : List StateNode} (h : m.graph.Climb id path) (hlength : path.length ≤ m.graph.states.length)
    (hlevels : path.mapM m.graph.state = .ok levels) :
    candidatesFor m id event = .ok (levels.flatMap (·.candidatesFor event)) := by
  obtain ⟨rest, rfl⟩ : ∃ rest, path = id :: rest := by cases h <;> exact ⟨_, rfl⟩
  have hancestors : m.graph.ancestors id = .ok rest := by
    simp [Graph.ancestors, Graph.pathTo, h.pathUp_eq _ hlength, Functor.map, Except.map, bind,
      Except.bind, pure, Except.pure]
  rw [candidatesFor, hancestors]
  change ((id :: rest).mapM m.graph.state >>= _) = _
  rw [hlevels]
  rfl

/-- A graph with the same states in the same places, on certain levels with the same candidates for an
event but for disabled ones; on the others anything may be different. -/
def Graph.Redrawn (g g' : Graph) (levels : List StateNode) (context : Value) (e : Event) : Prop :=
  List.Forall₂ (fun n n' => n'.id = n.id ∧ n'.parent = n.parent ∧
    (n ∈ levels → Candidate.Rearranged context e.value (n.candidatesFor e.type)
      (n'.candidatesFor e.type))) g.states g'.states

/-- A graph whose candidates for events with certain data are not disabled. -/
def Graph.withoutDisabled (g : Graph) (context : Value) (e : Event) : Graph :=
  { g with states := g.states.map fun n => { n with
      transitions := n.transitions.map fun (event, ks) =>
        (event, ks.filter fun k => ¬ k.Disabled context e.value) } }

theorem Graph.redrawn_withoutDisabled (g : Graph) (levels : List StateNode) (context : Value) (e : Event) :
    g.Redrawn (g.withoutDisabled context e) levels context e := by
  refine List.forall₂_map_right_iff.mpr (List.forall₂_same.mpr fun n _ => ⟨rfl, rfl, fun _ => ?_⟩)
  rw [Candidate.rearranged_iff, StateNode.candidatesFor, StateNode.candidatesFor]
  dsimp only
  induction n.transitions with
  | nil => rfl
  | cons t ts ih =>
    obtain ⟨event, ks⟩ := t
    rw [List.map_cons, List.lookup_cons, List.lookup_cons]
    cases e.type == event with
    | true => simp
    | false => exact ih

namespace Instance

variable {m : Machine} {s s' : Instance} {e : Event} {levels : List StateNode}

open Run

/-! ## 4. Selecting and processing -/

/-- Nothing is different but for more lines in the log. -/
def Logs (s s' : Instance) : Prop :=
  ∃ lines, s' = { s with world := { s.world with effects := s.world.effects.logging lines } }

instance : IsPreorder Instance Logs where
  refl s := ⟨[], by rw [Effects.logging_nil]⟩
  trans s s₁ s₂ := by
    rintro ⟨lines, rfl⟩ ⟨more, rfl⟩
    exact ⟨lines ++ more, by rw [← Effects.logging_append]⟩

/-- What is selected is what the search finds, level by level. -/
theorem exec_select_of_levels
    (hcs : candidatesFor m s.state e.type = .ok (levels.flatMap (·.candidatesFor e.type))) :
    let r := choose s.context e.value (levels.flatMap (·.candidatesFor e.type))
    ((select m e).exec s).1 = r ∧ ∀ k?, r = .ok k? → Logs s ((select m e).exec s).2 := by
  obtain ⟨lines, hrun⟩ := exec_firstEnabled s.context e.value
    (levels.flatMap (·.candidatesFor e.type)) s.world.effects
  rw [exec_select hcs, hrun]
  cases choose s.context e.value (levels.flatMap (·.candidatesFor e.type)) with
  | error f => exact ⟨rfl, nofun⟩
  | ok k? => exact ⟨rfl, fun _ _ => ⟨lines, rfl⟩⟩

/-- An event that selects nothing is dropped; at most, a line in the log tells of it. -/
theorem logs_process_of_none
    (hselect : ((select m e).exec { s with lastEvent := some e.type }).1 = .ok none)
    (hlogs : Logs { s with lastEvent := some e.type }
      ((select m e).exec { s with lastEvent := some e.type }).2) :
    Logs { s with lastEvent := some e.type } ((process m e).exec s).2 := by
  rcases hrun : (select m e).exec { s with lastEvent := some e.type } with ⟨r, s₁⟩
  rw [hrun] at hselect hlogs
  obtain rfl : r = .ok none := hselect
  rw [process, exec_bind_ok (exec_modify _ s), exec_bind_ok hrun]
  refine trans_of Logs hlogs ?_
  dsimp only
  split
  · refine Moves.get_bind (R := Logs) (fun s => Moves.bind (Moves.lift _) (fun data => ?_) s) s₁
    exact fun s => ⟨_, rfl⟩
  · exact refl_of Logs s₁

/-- The candidates of levels that are redrawn are rearranged. -/
theorem rearranged_flatMap {levels' : List StateNode} {context : Value}
    (h : List.Forall₂ (fun n n' => Candidate.Rearranged context e.value (n.candidatesFor e.type)
      (StateNode.candidatesFor n' e.type)) levels levels') :
    Candidate.Rearranged context e.value (levels.flatMap (·.candidatesFor e.type))
      (levels'.flatMap (·.candidatesFor e.type)) := by
  induction h with
  | nil => exact .nil
  | cons h _ ih =>
    rw [List.flatMap_cons, List.flatMap_cons]
    exact h.append ih

/-- **Redrawing levels selects the same**, for any instance that stands in the same state with the same
context. -/
theorem select_of_redrawn (wf : m.graph.WellFormed) {path : List String}
    (hclimb : m.graph.Climb s.state path) (hlevels : path.mapM m.graph.state = .ok levels)
    {m' : Machine} (hredrawn : m.graph.Redrawn m'.graph levels s.context e) (hstate : s'.state = s.state)
    (hcontext : s'.context = s.context) : ((select m' e).exec s').1 = ((select m e).exec s).1 := by
  have hlength := wf.length_climb_le hclimb
  obtain ⟨hclimb', ns, ns', hns, hns', hall⟩ :=
    hclimb.of_forall₂ hredrawn fun _ _ h => ⟨h.1, h.2.1⟩
  obtain rfl : levels = ns := Except.ok.inj (hlevels.symm.trans hns)
  rw [hredrawn.length_eq] at hlength
  have hcs : candidatesFor m s.state e.type = _ :=
    candidatesFor_of_climb hclimb (wf.length_climb_le hclimb) hlevels
  have hcs' : candidatesFor m' s'.state e.type = _ :=
    hstate ▸ candidatesFor_of_climb hclimb' hlength hns'
  have hrearranged := rearranged_flatMap (List.forall₂_iff_get.mpr ⟨hall.length_eq, fun i h h' =>
    (hall.get h h').2.2 (List.get_mem levels ⟨i, h⟩)⟩)
  rw [(exec_select_of_levels hcs).1, (exec_select_of_levels hcs').1, hcontext]
  exact hrearranged.choose_eq.symm

end Instance

namespace Definition

open Instance

variable {registry : Registry} {config : Config} {source : FlowSource} {c : Compiled} {m : Machine}
  {s : Instance}

/-- **The first enabled candidate from the leaf outwards is selected.**  In a graph that compiles, the
candidates of each state stand in the order of the definition; those for an event are tried from the
active leaf to the outermost state.  If all checks return, the first one that is enabled is selected;
nothing is selected exactly if all are disabled, and then the event leaves everything as it is, apart from
the log.  Disabled candidates that are put in, taken out or moved on any level change nothing of it. -/
theorem selects_first_enabled (h : compileSource registry config source = .ok c)
    (hm : m.graph = c.graph) (hs : s.state ∈ m.graph.ids) (e : Event) :
    List.Forall₂ (Keeps (guards source.definition) registry.guard?) (Nest.positions source.states)
        m.graph.states ∧
      ∃ levels cs, m.graph.Climb s.state (levels.map (·.id)) ∧ (∀ n ∈ levels, n ∈ m.graph.states) ∧
        cs = levels.flatMap (·.candidatesFor e.type) ∧
        ((∀ k ∈ cs, ∃ b, k.verdict s.context e.value = .ok b) →
          ((select m e).exec s).1 = .ok (cs.find? (·.isEnabled s.context e.value)) ∧
            Logs s ((select m e).exec s).2) ∧
        (((select m e).exec s).1 = .ok none ↔ ∀ k ∈ cs, k.Disabled s.context e.value) ∧
        ((∀ k ∈ cs, k.Disabled s.context e.value) →
          Logs { s with lastEvent := some e.type } ((process m e).exec s).2) ∧
        ∀ (m' : Machine) (s' : Instance), m.graph.Redrawn m'.graph levels s.context e →
          s'.state = s.state → s'.context = s.context →
            ((select m' e).exec s').1 = ((select m e).exec s).1 := by
  have wf : m.graph.WellFormed := hm ▸ wellFormed_graph h
  obtain ⟨path, hclimb⟩ := wf.exists_climb hs
  obtain ⟨levels, hlevels, hmem⟩ := wf.exists_mapM_state (Graph.climb_subset hclimb)
  have hpath := (Graph.map_id_of_mapM_state hlevels).symm
  have hcs {t : Instance} (ht : t.state = s.state) : candidatesFor m t.state e.type = _ :=
    ht ▸ candidatesFor_of_climb hclimb (wf.length_climb_le hclimb) hlevels
  obtain ⟨hselect, hlogs⟩ := exec_select_of_levels (s := s) (hcs rfl)
  have hnone : choose s.context e.value (levels.flatMap (·.candidatesFor e.type)) = .ok none ↔ _ :=
    choose_eq_none_iff
  refine ⟨hm ▸ keeps_of_compileSource h, levels, _, hpath ▸ hclimb, fun n hn => ((hmem n).mp hn).1, rfl,
    fun hreturns => ?_, hselect ▸ hnone, fun hdisabled => ?_, fun m' s' hredrawn hstate hcontext =>
      select_of_redrawn wf hclimb hlevels hredrawn hstate hcontext⟩
  · have hchoose := choose_eq_find? hreturns
    exact ⟨hselect.trans hchoose, hlogs _ hchoose⟩
  · obtain ⟨hselect', hlogs'⟩ := exec_select_of_levels (s := { s with lastEvent := some e.type }) (hcs rfl)
    have hchoose := hnone.mpr hdisabled
    exact logs_process_of_none (hselect'.trans hchoose) (hlogs' _ hchoose)

/-- Two nested states: the inner one has a disabled candidate, the outer one another one before one that
is enabled. -/
def shadedFlow : Value :=
  .record [("initial", .text "a"), ("context", .record [("x", .int 1)]), ("states", .record [
    ("a", .record [("initial", .text "b"),
      ("on", .record [("GO", .list [
        .record [("target", .text "d"), ("guard", .text "isNull:context.x")],
        .record [("target", .text "c")]])]),
      ("states", .record [("b", .record [
        ("on", .record [("GO", .record [("target", .text "#d"), ("guard", .text "isNull:context.x")])])])])]),
    ("c", .record []),
    ("d", .record [])])]

/-- The last of three candidates is selected, with the two disabled ones in front of it and without them. -/
theorem selects_first_enabled_shaded : ∃ c m s k,
    compileSource (.bare {}) {} (.ofValue shadedFlow) = .ok c ∧ m.graph = c.graph ∧
      s.state ∈ m.graph.ids ∧ ((select m (.ofType "GO")).exec s).1 = .ok (some k) ∧
      k.target = some "c" ∧ ∀ m' : Machine,
        m'.graph = m.graph.withoutDisabled s.context (.ofType "GO") →
          ((select m' (.ofType "GO")).exec s).1 = .ok (some k) := by
  obtain ⟨c, m, s₀, hc, hm, hs, hrun⟩ := exists_played (.bare {}) {} (.ofValue shadedFlow) [.start]
    (fun m s => decide (s.state ∈ m.graph.ids) &&
      ((select m (.ofType "GO")).exec s).1.toOption.join.any (·.target = some "c")) (by decide +kernel)
  rw [Bool.and_eq_true, decide_eq_true_eq] at hrun
  obtain ⟨hstate, hselect⟩ := hrun
  obtain ⟨-, levels, cs, -, -, -, -, -, -, hredrawn⟩ :=
    selects_first_enabled hc hm hstate (.ofType "GO")
  rcases hfound : ((select m (.ofType "GO")).exec (after m [.start] s₀)).1 with f | _ | k
  · rw [hfound] at hselect
    cases hselect
  · rw [hfound] at hselect
    cases hselect
  · rw [hfound] at hselect hredrawn
    refine ⟨c, m, _, k, hc, hm, hstate, hfound, of_decide_eq_true hselect, fun m' hm' => ?_⟩
    exact hredrawn m' _ (hm' ▸ Graph.redrawn_withoutDisabled _ _ _ _) rfl rfl

end Definition

end Statechart
