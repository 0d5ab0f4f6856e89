/-
# The search along transitions

A run goes from leaf to leaf.  Which leaves it can come to is found by a search, breadth first, whose
number of turns is bounded by the number of states; here the search is compared with what it looks
for.

* `Graph.Follows`: one leaf can follow another, by a transition of its own or of a state around it;
* `Graph.closed_visit`: a search comes to its end before it runs out of turns, and what it has found
  is closed under the steps it takes;
* **`Graph.WellFormed.exists_reachableLeaves`**, **`Graph.WellFormed.exists_reachable`**: the leaves
  that the search finds are those that follow the first one, and the states it finds are these and
  the states around them;
* **`Graph.WellFormed.exists_hasPath`**: whether there is a path is found by the same search along
  transitions alone, which go on from final leaves too.
-/
import Statechart.Proofs.WellFormed
import Mathlib.Data.List.Forall2

namespace Statechart

/-! ## 1. Steps for the members of a list -/

theorem exists_mapM {ε α β : Type} {f : α → Except ε β} {xs : List α}
    (h : ∀ x ∈ xs, ∃ y, f x = .ok y) : ∃ ys, xs.mapM f = .ok ys := by
  induction xs with
  | nil => exact ⟨[], rfl⟩
  | cons x xs ih =>
    obtain ⟨y, hy⟩ := h x List.mem_cons_self
    obtain ⟨ys, hys⟩ := ih fun z hz => h z (List.mem_cons_of_mem _ hz)
    exact ⟨y :: ys, by simp [List.mapM_cons, hy, hys, bind, Except.bind, pure, Except.pure]⟩

theorem mem_of_mapM {ε α β : Type} {f : α → Except ε β} {xs : List α} {ys : List β}
    (h : xs.mapM f = .ok ys) (y : β) : y ∈ ys ↔ ∃ x ∈ xs, f x = .ok y := by
  induction xs generalizing ys with
  | nil =>
    cases h
    simp
  | cons x xs ih =>
    rw [List.mapM_cons] at h
    cases hx : f x with
    | error e => simp [hx, bind, Except.bind] at h
    | ok z =>
      cases hxs : xs.mapM f with
      | error e => simp [hx, hxs, bind, Except.bind] at h
      | ok zs =>
        simp only [hx, hxs, bind, Except.bind, pure, Except.pure, Except.ok.injEq] at h
        subst h
        simp [ih hxs, hx, eq_comm]

theorem exists_anyM {ε α : Type} {f : α → Except ε Bool} {P : α → Prop} {xs : List α}
    (h : ∀ x ∈ xs, ∃ b, f x = .ok b ∧ (b = true ↔ P x)) :
    ∃ b, xs.anyM f = .ok b ∧ (b = true ↔ ∃ x ∈ xs, P x) := by
  induction xs with
  | nil => exact ⟨false, rfl, by simp⟩
  | cons x xs ih =>
    obtain ⟨b, hb, hx⟩ := h x List.mem_cons_self
    obtain ⟨rest, hrest, hxs⟩ := ih fun z hz => h z (List.mem_cons_of_mem _ hz)
    cases b with
    | true =>
      exact ⟨true, by simp [List.anyM, hb, bind, Except.bind, pure, Except.pure], by simp [← hx]⟩
    | false => exact ⟨rest, by simp [List.anyM, hb, hrest, bind, Except.bind], by simp [hxs, ← hx]⟩

namespace Graph

variable {g : Graph}

/-! ## 2. One leaf after another -/

/-- A candidate belongs to a state or to one around it. -/
def Offers (g : Graph) (id : String) (c : Candidate) : Prop :=
  ∃ n ∈ g.states, (n.id = id ∨ g.IsAround n.id id) ∧ c ∈ n.candidates

/-- A transition leads from a state, or from a state around it, to a leaf. -/
def Leads (g : Graph) (id leaf : String) : Prop :=
  ∃ c, g.Offers id c ∧ ∃ target, c.target = some target ∧ g.leafFor target = .ok leaf

/-- One leaf can follow another in a run, which does not go on after a final one. -/
def Follows (g : Graph) (id leaf : String) : Prop :=
  (∃ n, g.state id = .ok n ∧ n.isFinal = false) ∧ g.Leads id leaf

/-- A run can come to a leaf. -/
def Reaches (g : Graph) (leaf : String) : Prop :=
  ∃ first, g.initialLeaf = .ok first ∧ Relation.ReflTransGen g.Follows first leaf

namespace WellFormed

/-- A graph knows what it looks for. -/
theorem exists_mapM_state (wf : g.WellFormed) {ids : List String} (h : ids ⊆ g.ids) :
    ∃ nodes, ids.mapM g.state = .ok nodes ∧ ∀ n, n ∈ nodes ↔ n ∈ g.states ∧ n.id ∈ ids := by
  obtain ⟨nodes, hnodes⟩ := exists_mapM fun id hid => by
    obtain ⟨n, -, -, hn⟩ := wf.exists_state (h hid)
    exact ⟨n, hn⟩
  refine ⟨nodes, hnodes, fun n => ?_⟩
  rw [mem_of_mapM hnodes]
  constructor
  · rintro ⟨id, hid, hn⟩
    obtain ⟨hmem, rfl⟩ := wf.state_eq_ok_iff.mp hn
    exact ⟨hmem, hid⟩
  · rintro ⟨hmem, hid⟩
    exact ⟨n.id, hid, wf.state_of_mem hmem⟩

/-- The states that a leaf takes its candidates from: itself and those around it. -/
theorem exists_surrounding (wf : g.WellFormed) {id : String} (h : id ∈ g.ids) :
    ∃ ancestors nodes, g.ancestors id = .ok ancestors ∧ (id :: ancestors).mapM g.state = .ok nodes ∧
      ∀ n, n ∈ nodes ↔ n ∈ g.states ∧ (n.id = id ∨ g.IsAround n.id id) := by
  obtain ⟨path, hpath⟩ := wf.exists_pathTo h
  have haround : ∀ a, a ∈ id :: path.dropLast.reverse ↔ a = id ∨ g.IsAround a id := fun a => by
    rw [List.mem_cons, List.mem_reverse, wf.mem_dropLast_pathTo_iff hpath]
  have hids : id :: path.dropLast.reverse ⊆ g.ids := fun a ha =>
    wf.pathTo_subset hpath ((wf.mem_pathTo_iff hpath a).mpr ((haround a).mp ha))
  obtain ⟨nodes, hnodes, hmem⟩ := wf.exists_mapM_state hids
  exact ⟨_, nodes, ancestors_eq hpath, hnodes, fun n => by rw [hmem, haround]⟩

theorem exists_outgoing (wf : g.WellFormed) {id : String} (h : id ∈ g.ids) :
    ∃ cs, g.outgoing id = .ok cs ∧ ∀ c, c ∈ cs ↔ g.Offers id c := by
  obtain ⟨ancestors, nodes, hancestors, hnodes, hmem⟩ := wf.exists_surrounding h
  refine ⟨nodes.flatMap (·.candidates), ?_, fun c => ?_⟩
  · simp [outgoing, hancestors, hnodes, bind, Except.bind, pure, Except.pure]
  · simp only [List.mem_flatMap, hmem]
    exact exists_congr fun n => and_assoc

theorem isCandidateOf (wf : g.WellFormed) {n : StateNode} (hn : n ∈ g.states) {c : Candidate}
    (hc : c ∈ n.candidates) : g.IsCandidateOf n c.event c := by
  obtain ⟨⟨event, cs⟩, hpair, hmem⟩ := List.mem_flatMap.mp hc
  have h := wf.candidate n hn event cs hpair c hmem
  exact ⟨rfl, h.source_eq, h.target_mem⟩

/-- The source of a candidate is one of the states around. -/
theorem source_mem (wf : g.WellFormed) {id : String} {path : List String}
    (hpath : g.pathTo id = .ok path) {c : Candidate} (h : g.Offers id c) : c.source ∈ path := by
  obtain ⟨n, hn, hplace, hc⟩ := h
  rw [(wf.isCandidateOf hn hc).source_eq, wf.mem_pathTo_iff hpath]
  exact hplace

/-- The target of a candidate is a state. -/
theorem target_mem (wf : g.WellFormed) {id : String} {c : Candidate} (h : g.Offers id c) {t : String}
    (ht : c.target = some t) : t ∈ g.ids := by
  obtain ⟨n, hn, -, hc⟩ := h
  exact (wf.isCandidateOf hn hc).target_mem t ht

theorem exists_successors (wf : g.WellFormed) {id : String} (h : id ∈ g.ids) :
    ∃ leaves, g.successors id = .ok leaves ∧ ∀ leaf, leaf ∈ leaves ↔ g.Leads id leaf := by
  obtain ⟨cs, hcs, hmem⟩ := wf.exists_outgoing h
  have hleaf : ∀ t ∈ cs.filterMap (·.target), ∃ leaf, g.leafFor t = .ok leaf := by
    intro t ht
    obtain ⟨c, hc, ht⟩ := List.mem_filterMap.mp ht
    obtain ⟨l, -, hl, -⟩ := wf.exists_leafFor (wf.target_mem ((hmem c).mp hc) ht)
    exact ⟨l.id, hl⟩
  obtain ⟨leaves, hleaves⟩ := exists_mapM hleaf
  refine ⟨leaves, by simp [successors, hcs, hleaves, bind, Except.bind], fun leaf => ?_⟩
  rw [mem_of_mapM hleaves]
  constructor
  · rintro ⟨t, ht, hleaf⟩
    obtain ⟨c, hc, ht⟩ := List.mem_filterMap.mp ht
    exact ⟨c, (hmem c).mp hc, t, ht, hleaf⟩
  · rintro ⟨c, hc, t, ht, hleaf⟩
    exact ⟨t, List.mem_filterMap.mpr ⟨c, (hmem c).mpr hc, ht⟩, hleaf⟩

/-- The search goes where a run can go. -/
theorem exists_successorsUnlessFinal (wf : g.WellFormed) {id : String} (h : id ∈ g.ids) :
    ∃ leaves, g.successorsUnlessFinal id = .ok leaves ∧
      ∀ leaf, leaf ∈ leaves ↔ g.Follows id leaf := by
  obtain ⟨n, -, -, hn⟩ := wf.exists_state h
  obtain ⟨leaves, hleaves, hmem⟩ := wf.exists_successors h
  cases hfinal : n.isFinal with
  | true =>
    refine ⟨[], by simp [successorsUnlessFinal, hn, hfinal, bind, Except.bind, pure, Except.pure],
      fun leaf => iff_of_false List.not_mem_nil ?_⟩
    rintro ⟨⟨k, hk, hnot⟩, -⟩
    rw [hn] at hk
    cases hk
    exact absurd (hfinal.symm.trans hnot) (by decide)
  | false =>
    refine ⟨leaves, by simp [successorsUnlessFinal, hn, hfinal, hleaves, bind, Except.bind],
      fun leaf => ?_⟩
    rw [hmem]
    exact ⟨fun hleads => ⟨⟨n, hn, hfinal⟩, hleads⟩, And.right⟩

theorem leafFor_mem (wf : g.WellFormed) {id leaf : String} (hid : id ∈ g.ids)
    (h : g.leafFor id = .ok leaf) : leaf ∈ g.ids := by
  obtain ⟨n, hn, hleaf, -⟩ := wf.exists_leafFor hid
  rw [h] at hleaf
  cases hleaf
  exact List.mem_map.mpr ⟨n, hn, rfl⟩

/-- Transitions lead to leaves. -/
theorem leaf_of_leads (wf : g.WellFormed) {id leaf : String} (h : g.Leads id leaf) :
    ∃ n ∈ g.states, n.id = leaf ∧ n.kind ≠ .compound := by
  obtain ⟨c, hc, t, ht, hleaf⟩ := h
  obtain ⟨n, hn, hleaf', hkind, -⟩ := wf.exists_leafFor (wf.target_mem hc ht)
  rw [hleaf] at hleaf'
  cases hleaf'
  exact ⟨n, hn, rfl, hkind⟩

theorem leads_mem (wf : g.WellFormed) {id leaf : String} (h : g.Leads id leaf) : leaf ∈ g.ids := by
  obtain ⟨n, hn, hid, -⟩ := wf.leaf_of_leads h
  exact List.mem_map.mpr ⟨n, hn, hid⟩

end WellFormed

/-! ## 3. Searching -/

theorem mem_unvisited {visited ss : List String} {x : String} :
    x ∈ unvisited visited ss ↔ x ∈ ss ∧ x ∉ visited := by
  induction ss generalizing visited with
  | nil => simp [unvisited]
  | cons s ss ih =>
    unfold unvisited
    split
    · rename_i hs
      rw [ih, List.mem_cons]
      exact ⟨fun h => ⟨Or.inr h.1, h.2⟩,
        fun h => ⟨h.1.resolve_left fun he => h.2 (he ▸ hs), h.2⟩⟩
    · rename_i hs
      simp only [List.mem_cons, ih, List.mem_append, List.not_mem_nil, or_false, not_or]
      constructor
      · rintro (rfl | ⟨hx, hnot, -⟩)
        · exact ⟨Or.inl rfl, hs⟩
        · exact ⟨Or.inr hx, hnot⟩
      · rintro ⟨rfl | hx, hnot⟩
        · exact Or.inl rfl
        · by_cases he : x = s
          · exact Or.inl he
          · exact Or.inr ⟨hx, hnot, he⟩

theorem nodup_append_unvisited {visited : List String} (h : visited.Nodup) (ss : List String) :
    (visited ++ unvisited visited ss).Nodup := by
  induction ss generalizing visited with
  | nil => simpa [unvisited] using h
  | cons s ss ih =>
    unfold unvisited
    split
    · exact ih h
    · rename_i hs
      have hnew : (visited ++ [s]).Nodup := by
        simpa using List.Nodup.concat hs h
      simpa using ih hnew

/-- **A search comes to its end.**  It takes one leaf after the other from its queue, each once, so
that as many turns as there are leaves are enough; and in the end all steps lead to what it has
found. -/
theorem closed_visit {next : String → Except Fault (List String)} {leaves : List String}
    (hnext : ∀ l ∈ leaves, ∃ ls, next l = .ok ls ∧ ls ⊆ leaves) (fuel : Nat) :
    ∀ done queue, (done ++ queue).Nodup → done ++ queue ⊆ leaves →
      leaves.length ≤ done.length + fuel →
      (∀ l ∈ done, ∃ ls, next l = .ok ls ∧ ls ⊆ done ++ queue) →
      ∃ found, visit next fuel queue (done ++ queue) = .ok found ∧ done ++ queue ⊆ found ∧
        found ⊆ leaves ∧ ∀ l ∈ found, ∃ ls, next l = .ok ls ∧ ls ⊆ found := by
  induction fuel with
  | zero =>
    intro done queue hnodup hsub hfuel hclosed
    -- without turns left, all leaves are done
    have hlength := hnodup.length_le_of_subset hsub
    rw [List.length_append] at hlength
    obtain rfl : queue = [] := List.eq_nil_of_length_eq_zero (by omega)
    exact ⟨_, rfl, List.Subset.refl _, hsub, by simpa using hclosed⟩
  | succ fuel ih =>
    intro done queue hnodup hsub hfuel hclosed
    cases queue with
    | nil => exact ⟨_, rfl, List.Subset.refl _, hsub, by simpa using hclosed⟩
    | cons leaf queue =>
      obtain ⟨ls, hls, hinside⟩ := hnext leaf (hsub (by simp))
      have hmove : (done ++ leaf :: queue) ++ unvisited (done ++ leaf :: queue) ls =
          (done ++ [leaf]) ++ (queue ++ unvisited (done ++ leaf :: queue) ls) := by simp
      have hall : ls ⊆ (done ++ leaf :: queue) ++ unvisited (done ++ leaf :: queue) ls := by
        intro l hl
        by_cases hold : l ∈ done ++ leaf :: queue
        · exact List.mem_append_left _ hold
        · exact List.mem_append_right _ (mem_unvisited.mpr ⟨hl, hold⟩)
      have hgrown : done ++ leaf :: queue ⊆
          (done ++ leaf :: queue) ++ unvisited (done ++ leaf :: queue) ls :=
        List.subset_append_left _ _
      have hsub' : (done ++ leaf :: queue) ++ unvisited (done ++ leaf :: queue) ls ⊆ leaves :=
        List.append_subset.mpr ⟨hsub, fun l hl => hinside (mem_unvisited.mp hl).1⟩
      have hclosed' : ∀ l ∈ done ++ [leaf], ∃ ks, next l = .ok ks ∧
          ks ⊆ (done ++ leaf :: queue) ++ unvisited (done ++ leaf :: queue) ls := by
        intro l hl
        rcases List.mem_append.mp hl with hl | hl
        · obtain ⟨ks, hks, hks'⟩ := hclosed l hl
          exact ⟨ks, hks, List.Subset.trans hks' hgrown⟩
        · rw [List.mem_singleton.mp hl]
          exact ⟨ls, hls, hall⟩
      have hnodup' := nodup_append_unvisited hnodup ls
      rw [hmove] at hsub' hclosed' hnodup'
      obtain ⟨found, hfound, hstart, hend⟩ := ih _ _ hnodup' hsub' (by simp; omega) hclosed'
      refine ⟨found, ?_, List.Subset.trans hgrown (hmove ▸ hstart), hend⟩
      rw [← hfound, visit, hls, ← hmove]
      rfl

/-- **A search finds what its steps lead to**, and nothing else. -/
theorem exists_visit {next : String → Except Fault (List String)} {R : String → String → Prop}
    {start : String} {leaves : List String} {fuel : Nat} (hfuel : leaves.length ≤ fuel)
    (hmem : ∀ l, Relation.ReflTransGen R start l → l ∈ leaves)
    (hnext : ∀ l ∈ leaves, ∃ ls, next l = .ok ls ∧ ∀ k, k ∈ ls ↔ R l k) :
    ∃ found, visit next fuel [start] [start] = .ok found ∧
      ∀ l, l ∈ found ↔ Relation.ReflTransGen R start l := by
  classical
  -- the search stays among the leaves that its steps lead to
  have hwithin : ∀ l, l ∈ leaves.filter (fun l => Relation.ReflTransGen R start l) ↔
      Relation.ReflTransGen R start l := by
    intro l
    rw [List.mem_filter, decide_eq_true_eq]
    exact ⟨And.right, fun h => ⟨hmem l h, h⟩⟩
  have hsteps : ∀ l ∈ leaves.filter (fun l => Relation.ReflTransGen R start l), ∃ ls,
      next l = .ok ls ∧ ls ⊆ leaves.filter fun l => Relation.ReflTransGen R start l := by
    intro l hl
    obtain ⟨ls, hls, hstep⟩ := hnext l (List.mem_filter.mp hl).1
    refine ⟨ls, hls, fun k hk => (hwithin k).mpr ?_⟩
    exact ((hwithin l).mp hl).tail ((hstep k).mp hk)
  have hlength := List.length_filter_le (fun l => decide (Relation.ReflTransGen R start l)) leaves
  obtain ⟨found, hfound, hstart, hsub, hclosed⟩ := closed_visit hsteps fuel [] [start]
    (List.nodup_singleton _) (by simpa using (hwithin start).mpr .refl)
    (by simpa using hlength.trans hfuel) (by simp)
  refine ⟨found, hfound, fun l => ⟨fun hl => (hwithin l).mp (hsub hl), fun hl => ?_⟩⟩
  induction hl with
  | refl => exact hstart (by simp)
  | @tail l k hl hstep ih =>
    obtain ⟨ls, hls, hinside⟩ := hclosed l ih
    obtain ⟨ls', hls', hmem'⟩ := hnext l (hmem l hl)
    rw [hls] at hls'
    cases hls'
    exact hinside ((hmem' k).mpr hstep)

/-! ## 4. What the search finds -/

namespace WellFormed

theorem reaches_mem (wf : g.WellFormed) {leaf : String} (h : g.Reaches leaf) : leaf ∈ g.ids := by
  obtain ⟨first, hfirst, hreaches⟩ := h
  cases hreaches with
  | refl => exact wf.leafFor_mem wf.initial_mem hfirst
  | tail _ hfollows => exact wf.leads_mem hfollows.2

/-- **The search finds the leaves that a run can come to**, and no others. -/
theorem exists_reachableLeaves (wf : g.WellFormed) :
    ∃ leaves, g.reachableLeaves = .ok leaves ∧ ∀ leaf, leaf ∈ leaves ↔ g.Reaches leaf := by
  obtain ⟨n, -, hfirst, -⟩ := wf.exists_leafFor wf.initial_mem
  have hfirst : g.initialLeaf = .ok n.id := hfirst
  have hreaches : ∀ l, g.Reaches l ↔ Relation.ReflTransGen g.Follows n.id l := by
    intro l
    constructor
    · rintro ⟨first, hfirst', h⟩
      rw [hfirst] at hfirst'
      cases hfirst'
      exact h
    · exact fun h => ⟨n.id, hfirst, h⟩
  have hturns : g.ids.length ≤ g.states.length + 1 := by simp [ids]
  have hinside : ∀ l, Relation.ReflTransGen g.Follows n.id l → l ∈ g.ids := by
    intro l hl
    exact wf.reaches_mem ((hreaches l).mpr hl)
  obtain ⟨found, hfound, hmem⟩ :=
    exists_visit hturns hinside fun l hl => wf.exists_successorsUnlessFinal hl
  refine ⟨found, ?_, fun leaf => (hmem leaf).trans (hreaches leaf).symm⟩
  simpa [reachableLeaves, hfirst, bind, Except.bind] using hfound

/-- **The reachable states** are the leaves that a run can come to, and the states around them. -/
theorem exists_reachable (wf : g.WellFormed) :
    ∃ ids, g.reachable = .ok ids ∧
      ∀ a, a ∈ ids ↔ ∃ leaf, g.Reaches leaf ∧ (a = leaf ∨ g.IsAround a leaf) := by
  obtain ⟨leaves, hleaves, hmem⟩ := wf.exists_reachableLeaves
  obtain ⟨paths, hpaths⟩ := exists_mapM (f := g.pathTo) fun l hl =>
    wf.exists_pathTo (wf.reaches_mem ((hmem l).mp hl))
  refine ⟨paths.flatten, ?_, fun a => ?_⟩
  · simp [reachable, hleaves, hpaths, bind, Except.bind, pure, Except.pure]
  · rw [List.mem_flatten]
    constructor
    · rintro ⟨path, hpath, ha⟩
      obtain ⟨leaf, hleaf, hpath⟩ := (mem_of_mapM hpaths path).mp hpath
      exact ⟨leaf, (hmem leaf).mp hleaf, (wf.mem_pathTo_iff hpath a).mp ha⟩
    · rintro ⟨leaf, hleaf, ha⟩
      obtain ⟨path, hpath⟩ := wf.exists_pathTo (wf.reaches_mem hleaf)
      exact ⟨path, (mem_of_mapM hpaths path).mpr ⟨leaf, (hmem leaf).mpr hleaf, hpath⟩,
        (wf.mem_pathTo_iff hpath a).mpr ha⟩

/-- **Whether there is a path** from a state: whether transitions lead from the leaf that is entered
with it to the goal, or to a leaf inside the goal.  That a leaf is final makes no difference here. -/
theorem exists_hasPath (wf : g.WellFormed) {source : String} (hsource : source ∈ g.ids)
    (goal : String) :
    ∃ start found, g.leafFor source = .ok start ∧ g.hasPath source goal = .ok found ∧
      (found = true ↔ ∃ leaf, Relation.ReflTransGen g.Leads start leaf ∧
        (goal = leaf ∨ g.IsAround goal leaf)) := by
  obtain ⟨n, hn, hstart, -⟩ := wf.exists_leafFor hsource
  have hturns : g.ids.length ≤ g.states.length + 1 := by simp [ids]
  have hmem : ∀ l, Relation.ReflTransGen g.Leads n.id l → l ∈ g.ids := by
    intro l hl
    cases hl with
    | refl => exact wf.leafFor_mem hsource hstart
    | tail _ hleads => exact wf.leads_mem hleads
  obtain ⟨leaves, hleaves, hfound⟩ :=
    exists_visit hturns hmem fun l hl => wf.exists_successors hl
  have hasked : ∀ l ∈ leaves, ∃ found,
      (do return l = goal || (← g.pathTo l).contains goal : Except Fault Bool) = .ok found ∧
        (found = true ↔ goal = l ∨ g.IsAround goal l) := by
    intro l hl
    obtain ⟨path, hpath⟩ := wf.exists_pathTo (hmem l ((hfound l).mp hl))
    refine ⟨l = goal || path.contains goal, by rw [hpath]; rfl, ?_⟩
    rw [Bool.or_eq_true, decide_eq_true_eq, List.contains_iff_mem, wf.mem_pathTo_iff hpath,
      eq_comm, or_iff_right_of_imp Or.inl]
  obtain ⟨found, hany, hiff⟩ := exists_anyM hasked
  refine ⟨n.id, found, hstart, ?_, ?_⟩
  · rw [hasPath, hstart]
    change (visit g.successors (g.states.length + 1) [n.id] [n.id] >>= _) = _
    rw [hleaves]
    exact hany
  · rw [hiff]
    exact exists_congr fun l => and_congr_left fun _ => hfound l

end WellFormed

end Graph

end Statechart
