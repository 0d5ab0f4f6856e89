/-
# Shared states and states inside themselves

A document is a table of nodes, and a node can be used as a state in several places, even somewhere inside
itself.  Flattening goes down every way from the root and knows the nodes that it is inside of, so that it
turns back where one of them comes up again.  A node that is used in two places, neither inside the other, is
not among the nodes around either of them; both uses are followed, and each becomes a state.

* `Document.Unfolds`: what flattening finds without any bound on its depth, as a relation;
  `Document.unfolds_nest`: the bound that `Document.nest` works with is never reached;
* `Document.IsWay`: the ways down from a node; `Document.exists_ways`: the positions of the nested states are
  the ways on which nothing has been repeated before the end;
* `Document.repeats_iff`: there is a way to a repetition exactly if a node lies below itself;
* **`Document.flattened`**: a state inside itself is reported exactly if there is one, and the states are
  those at the ends of the ways without repetition, one for each.
-/
import Statechart.Proofs.References
import Mathlib.Data.List.Perm.Subperm
import Mathlib.Logic.Relation

namespace Statechart

namespace Document

open Nest Relation

variable {d : Document} {above : List Nat} {i j : Nat} {e : Key × Nat} {es fs : List (Key × Nat)}

/-! ## 1. Ways down -/

/-- A node that can be a state. -/
def IsMappingAt (d : Document) (i : Nat) : Prop := ∃ entries, d.content? i = some (.dict entries)

/-- A node that stands directly inside another one in the place of a state. -/
def Below (d : Document) (i j : Nat) : Prop := ∃ k, (k, j) ∈ d.stateEntries i

/-- A way down from a node, by entries each of which leads to the node that the next one is an entry of. -/
def IsWay (d : Document) : Nat → List (Key × Nat) → Prop
  | _, [] => True
  | i, e :: es => e ∈ d.stateEntries i ∧ d.IsWay e.2 es

/-- The end of a way. -/
def endOf : Nat → List (Key × Nat) → Nat
  | i, [] => i
  | _, e :: es => endOf e.2 es

/-- The nodes of a way before its end. -/
def before : Nat → List (Key × Nat) → List Nat
  | _, [] => []
  | i, e :: es => i :: before e.2 es

theorem isMappingAt_of_mem (h : e ∈ d.stateEntries i) : d.IsMappingAt i := by
  unfold stateEntries at h
  cases hc : d.content? i with
  | none => simp [hc] at h
  | some c =>
    cases c with
    | dict entries => exact ⟨entries, hc⟩
    | _ => simp [hc, Content.field?] at h

theorem isWay_append : d.IsWay i (es ++ fs) ↔ d.IsWay i es ∧ d.IsWay (endOf i es) fs := by
  induction es generalizing i with
  | nil => simp [IsWay, endOf]
  | cons e es ih =>
    rw [List.cons_append, IsWay, IsWay, ih, endOf, and_assoc]

theorem endOf_append : endOf i (es ++ fs) = endOf (endOf i es) fs := by
  induction es generalizing i with
  | nil => rfl
  | cons e es ih => exact ih

theorem before_append : before i (es ++ fs) = before i es ++ before (endOf i es) fs := by
  induction es generalizing i with
  | nil => rfl
  | cons e es ih => exact congrArg (i :: ·) ih

/-- All nodes of a way. -/
theorem before_concat_endOf : before i es ++ [endOf i es] = i :: es.map (·.2) := by
  induction es generalizing i with
  | nil => rfl
  | cons e es ih => exact congrArg (i :: ·) ih

/-- What is inside a node is reached from it by a way. -/
theorem below_iff_way : TransGen d.Below i j ↔ ∃ es, es ≠ [] ∧ d.IsWay i es ∧ endOf i es = j := by
  constructor
  · intro h
    induction h with
    | single h =>
      obtain ⟨k, hmem⟩ := h
      exact ⟨[(k, _)], by simp, ⟨hmem, trivial⟩, rfl⟩
    | tail _ h ih =>
      obtain ⟨k, hmem⟩ := h
      obtain ⟨es, hne, hway, rfl⟩ := ih
      exact ⟨es ++ [(k, _)], by simp, isWay_append.mpr ⟨hway, hmem, trivial⟩, endOf_append⟩
  · rintro ⟨es, hne, hway, rfl⟩
    induction es generalizing i with
    | nil => exact absurd rfl hne
    | cons e es ih =>
      obtain ⟨hmem, hrest⟩ := hway
      have hfirst : d.Below i e.2 := ⟨e.1, hmem⟩
      by_cases hes : es = []
      · subst hes
        exact .single hfirst
      · exact .head hfirst (ih hes hrest)

/-- A node that comes up again lies below itself. -/
theorem exists_of_mem_before (h : j ∈ before i es) : ∃ us vs, es = us ++ vs ∧ vs ≠ [] ∧ endOf i us = j := by
  induction es generalizing i with
  | nil => cases h
  | cons e es ih =>
    rcases List.mem_cons.mp h with rfl | h
    · exact ⟨[], e :: es, rfl, by simp, rfl⟩
    · obtain ⟨us, vs, rfl, hne, hend⟩ := ih h
      exact ⟨e :: us, vs, rfl, hne, hend⟩

theorem isMappingAt_of_mem_before (hway : d.IsWay i es) (h : j ∈ before i es) : d.IsMappingAt j := by
  obtain ⟨us, vs, rfl, hne, rfl⟩ := exists_of_mem_before h
  obtain ⟨e, vs, rfl⟩ := List.exists_cons_of_ne_nil hne
  exact isMappingAt_of_mem (isWay_append.mp hway).2.1

/-! ## 2. Unfolding -/

/-- What flattening finds at a node with others above it: it goes on until there is no state or a node
comes up again, however deep that is. -/
inductive Unfolds (d : Document) : List Nat → Nat → Nest → Prop
  | malformed {above : List Nat} {i : Nat} (hi : ¬ d.IsMappingAt i) : Unfolds d above i .malformed
  | selfContaining {above : List Nat} {i : Nat} (hi : d.IsMappingAt i) (habove : i ∈ above) :
      Unfolds d above i .selfContaining
  | state {above : List Nat} {i : Nat} {nests : Key × Nat → Nest} (hi : d.IsMappingAt i) (habove : i ∉ above)
      (inside : ∀ e ∈ d.stateEntries i, Unfolds d (i :: above) e.2 (nests e)) :
      Unfolds d above i
        (.state (d.valueOf i).entries ((d.stateEntries i).map fun e => (e.1.display, nests e)))

/-- The depth is bounded by the number of nodes, since no node is above itself. -/
theorem unfolds_nestAt {fuel : Nat} (hdistinct : above.Nodup) (hin : ∀ n ∈ above, n < d.nodes.size)
    (hfuel : d.nodes.size < fuel + above.length) (i : Nat) : d.Unfolds above i (d.nestAt fuel above i) := by
  induction fuel generalizing above i with
  | zero =>
    -- there are no more nodes to be above, so that some fuel is always left
    have hsubset : above ⊆ List.range d.nodes.size := fun n hn => List.mem_range.mpr (hin n hn)
    have hlength := (List.subperm_of_subset hdistinct hsubset).length_le
    rw [List.length_range] at hlength
    omega
  | succ fuel ih =>
    rw [nestAt]
    split
    · rename_i entries hcontent
      have hi : d.IsMappingAt i := ⟨entries, hcontent⟩
      split
      · exact .selfContaining hi (by assumption)
      · rename_i hnew
        have hsize : i < d.nodes.size := by
          by_contra hge
          have hnone : d.content? i = none := Array.getElem?_eq_none (by omega)
          exact absurd (hnone.symm.trans hcontent) (by simp)
        have hdeeper : (i :: above).Nodup := List.nodup_cons.mpr ⟨hnew, hdistinct⟩
        have hin' : ∀ n ∈ i :: above, n < d.nodes.size := List.forall_mem_cons.mpr ⟨hsize, hin⟩
        have hfuel' : d.nodes.size < fuel + (i :: above).length := by
          rw [List.length_cons]
          omega
        exact .state hi hnew fun e _ => ih hdeeper hin' hfuel' e.2
    · rename_i hother
      exact .malformed fun ⟨entries, hcontent⟩ => hother entries hcontent

/-- **Unfolding comes to an end**, and the nest of a document is what it finds. -/
theorem unfolds_nest (d : Document) : d.Unfolds [] d.root d.nest :=
  unfolds_nestAt List.nodup_nil (by simp) (by simp) d.root

theorem Unfolds.isState_iff {nest : Nest} (h : d.Unfolds above i nest) :
    nest.isState = true ↔ d.IsMappingAt i ∧ i ∉ above := by
  cases h with
  | malformed hi => simp [Nest.isState, hi]
  | selfContaining hi habove => simp [Nest.isState, habove]
  | state hi habove => simp [Nest.isState, hi, habove]

theorem Unfolds.selfContaining_iff {nest : Nest} (h : d.Unfolds above i nest) :
    nest = .selfContaining ↔ d.IsMappingAt i ∧ i ∈ above := by
  cases h with
  | malformed hi => simp [hi]
  | selfContaining hi habove => simp [hi, habove]
  | state hi habove => simp [habove]

theorem Unfolds.definition_eq {definition : Entries} {inside : Nests} (h : d.Unfolds above i (.state definition inside)) :
    definition = (d.valueOf i).entries := by
  cases h with
  | state => rfl

/-! ## 3. Positions -/

/-- A way that flattening goes: nothing is repeated before its end. -/
def Visits (d : Document) (above : List Nat) (i : Nat) (es : List (Key × Nat)) : Prop :=
  d.IsWay i es ∧ (before i es).Nodup ∧ ∀ n ∈ before i es, n ∉ above

theorem visits_nil : d.Visits above i [] := ⟨trivial, List.nodup_nil, by simp [before]⟩

theorem visits_cons : d.Visits above i (e :: es) ↔ i ∉ above ∧ e ∈ d.stateEntries i ∧ d.Visits (i :: above) e.2 es := by
  rw [Visits, Visits, IsWay, before, List.nodup_cons, List.forall_mem_cons]
  simp only [List.mem_cons, not_or]
  constructor
  · rintro ⟨⟨hmem, hway⟩, ⟨hnew, hdistinct⟩, habove, hothers⟩
    exact ⟨habove, hmem, hway, hdistinct, fun n hn => ⟨fun heq => hnew (heq ▸ hn), hothers n hn⟩⟩
  · rintro ⟨habove, hmem, hway, hdistinct, hothers⟩
    exact ⟨⟨hmem, hway⟩, ⟨fun hn => (hothers i hn).1 rfl, hdistinct⟩, habove, fun n hn => (hothers n hn).2⟩

/-- A position lies at the end of a way that begins below some names. -/
structure Marks (d : Document) (above : List Nat) (i : Nat) (names : List String) (es : List (Key × Nat))
    (p : Position) : Prop where
  path : p.around ++ [p.key] = names ++ es.map (·.1.display)
  nest : d.Unfolds ((before i es).reverse ++ above) (endOf i es) p.nest

theorem Marks.cons {names : List String} {p : Position}
    (h : d.Marks (i :: above) e.2 (names ++ [e.1.display]) es p) : d.Marks above i names (e :: es) p where
  path := by simpa using h.path
  nest := by simpa [before, endOf] using h.nest

/-- The positions at a node are the ways from it. -/
def Mapped (d : Document) (above : List Nat) (i : Nat) (around : List String) (key : String) (nest : Nest) : Prop :=
  ∃ ways, (∀ es, es ∈ ways ↔ d.Visits above i es) ∧
    List.Forall₂ (d.Marks above i (around ++ [key])) ways (positionsAt around key nest)

/-- So are the positions inside of it the ways by one of its entries. -/
theorem exists_ways_in {nests : Key × Nat → Nest} (around : List String) {entries : List (Key × Nat)}
    (h : ∀ e ∈ entries, d.Mapped (i :: above) e.2 around e.1.display (nests e)) :
    ∃ ways, [] ∉ ways ∧ (∀ e es, e :: es ∈ ways ↔ e ∈ entries ∧ d.Visits (i :: above) e.2 es) ∧
      List.Forall₂ (d.Marks above i around) ways
        (positionsIn around (entries.map fun e => (e.1.display, nests e))) := by
  induction entries with
  | nil => exact ⟨[], by simp, by simp, .nil⟩
  | cons e entries ih =>
    obtain ⟨hfirst, hrest⟩ := List.forall_mem_cons.mp h
    obtain ⟨ways, hways, hmarks⟩ := hfirst
    obtain ⟨others, hnil, hothers, hmarks'⟩ := ih hrest
    refine ⟨ways.map (e :: ·) ++ others, by simp [hnil], ?_, ?_⟩
    · intro e' es
      have hmem : e' :: es ∈ ways.map (e :: ·) ↔ e' = e ∧ d.Visits (i :: above) e'.2 es := by
        rw [List.mem_map]
        constructor
        · rintro ⟨es, hes, ⟨⟩⟩
          exact ⟨rfl, (hways es).mp hes⟩
        · rintro ⟨rfl, hvisits⟩
          exact ⟨es, (hways es).mpr hvisits, rfl⟩
      rw [List.mem_append, hmem, hothers, List.mem_cons, or_and_right]
    · rw [List.map_cons, positionsIn]
      exact List.rel_append (List.forall₂_map_left_iff.mpr (hmarks.imp fun _ _ hm => hm.cons)) hmarks'

/-- **The positions at a node are the ways from it**, by induction on what is found there. -/
theorem Unfolds.mapped {nest : Nest} (h : d.Unfolds above i nest) (around : List String) (key : String) :
    d.Mapped above i around key nest := by
  have hhere {above : List Nat} {i : Nat} {nest : Nest} (around : List String) (key : String)
      (h : d.Unfolds above i nest) : d.Marks above i (around ++ [key]) [] ⟨around, key, nest⟩ :=
    ⟨by simp, by simpa [before, endOf] using h⟩
  have hend {above : List Nat} {i : Nat} (hstop : ¬ d.IsMappingAt i ∨ i ∈ above) (es : List (Key × Nat)) :
      es ∈ [[]] ↔ d.Visits above i es := by
    cases es with
    | nil => simp [visits_nil]
    | cons e es =>
      simp only [List.mem_singleton, reduceCtorEq, visits_cons, false_iff]
      rintro ⟨habove, hmem, -⟩
      exact hstop.elim (fun hi => hi (isMappingAt_of_mem hmem)) habove
  induction h generalizing around key with
  | malformed hi => exact ⟨[[]], hend (.inl hi), .cons (hhere around key (.malformed hi)) .nil⟩
  | selfContaining hi habove =>
    exact ⟨[[]], hend (.inr habove), .cons (hhere around key (.selfContaining hi habove)) .nil⟩
  | @state above i nests hi habove inside ih =>
    obtain ⟨ways, -, hways, hmarks⟩ := exists_ways_in (i := i) (around ++ [key])
      fun e he => ih e he (around ++ [key]) e.1.display
    refine ⟨[] :: ways, ?_, .cons (hhere around key (.state hi habove inside)) hmarks⟩
    intro es
    cases es with
    | nil => simp [visits_nil]
    | cons e es => simp [visits_cons, hways, habove]

/-- **The positions of the nested states of a document are the ways from its root.** -/
theorem exists_ways (d : Document) :
    ∃ ways, (∀ es, es ∈ ways ↔ es ≠ [] ∧ d.Visits [] d.root es) ∧
      List.Forall₂ (d.Marks [] d.root []) ways (positions d.nest.inside) := by
  have hnest := d.unfolds_nest
  generalize d.nest = nest at hnest
  have hnone (hroot : ¬ d.IsMappingAt d.root) (es : List (Key × Nat)) :
      es ∈ [] ↔ es ≠ [] ∧ d.Visits [] d.root es := by
    cases es with
    | nil => simp
    | cons e es =>
      simp only [List.not_mem_nil, visits_cons, false_iff]
      rintro ⟨-, -, hmem, -⟩
      exact hroot (isMappingAt_of_mem hmem)
  cases hnest with
  | malformed hroot => exact ⟨[], hnone hroot, .nil⟩
  | selfContaining _ habove => cases habove
  | @state _ _ nests hroot habove inside =>
    obtain ⟨ways, hnil, hways, hmarks⟩ := exists_ways_in (i := d.root) []
      fun e he => (inside e he).mapped [] e.1.display
    refine ⟨ways, ?_, hmarks⟩
    intro es
    cases es with
    | nil => simp [hnil]
    | cons e es => simp [visits_cons, hways]

/-! ## 4. Repetitions -/

/-- A way on which a node comes up again has a first repetition. -/
theorem exists_first_repeat (hway : d.IsWay i es) (h : ¬ (before i es ++ [endOf i es]).Nodup) :
    ∃ us, us ≠ [] ∧ d.Visits [] i us ∧ endOf i us ∈ before i us := by
  induction es using List.reverseRecOn with
  | nil => simp [before] at h
  | append_singleton es e ih =>
    have hshorter : d.IsWay i es := (isWay_append.mp hway).1
    have hbefore : before i (es ++ [e]) = before i es ++ [endOf i es] := before_append
    by_cases hdistinct : (before i es ++ [endOf i es]).Nodup
    · -- without the last entry nothing is repeated, so that the end is what comes up again
      refine ⟨es ++ [e], by simp, ⟨hway, hbefore ▸ hdistinct, by simp⟩, ?_⟩
      by_contra hnew
      refine h (List.Nodup.append (hbefore ▸ hdistinct) (List.nodup_singleton _) ?_)
      simpa using hnew
    · exact ih hshorter hdistinct

/-- **There is a way to a repetition exactly if a node that is reached lies below itself**, or is the
beginning. -/
theorem repeats_iff :
    (∃ es, es ≠ [] ∧ d.Visits [] i es ∧ endOf i es ∈ before i es) ↔
      ∃ j, TransGen d.Below i j ∧ (TransGen d.Below j j ∨ j = i) := by
  constructor
  · rintro ⟨es, hne, ⟨hway, -, -⟩, hmem⟩
    obtain ⟨us, vs, rfl, hvs, hend⟩ := exists_of_mem_before hmem
    have hround : endOf (endOf i us) vs = endOf i us := endOf_append.symm.trans hend.symm
    have hagain := below_iff_way.mpr ⟨vs, hvs, (isWay_append.mp hway).2, hround⟩
    exact ⟨endOf i us, below_iff_way.mpr ⟨us ++ vs, hne, hway, hend.symm⟩, .inl hagain⟩
  · rintro ⟨j, hreached, hagain⟩
    obtain ⟨us, hus, hway, rfl⟩ := below_iff_way.mp hreached
    have hround : ∃ es, d.IsWay i es ∧ endOf i es ∈ before i es := by
      rcases hagain with hagain | hroot
      · obtain ⟨vs, hvs, hway', hend⟩ := below_iff_way.mp hagain
        obtain ⟨v, vs, rfl⟩ := List.exists_cons_of_ne_nil hvs
        refine ⟨us ++ v :: vs, isWay_append.mpr ⟨hway, hway'⟩, ?_⟩
        rw [endOf_append, hend, before_append]
        exact List.mem_append_right _ List.mem_cons_self
      · obtain ⟨u, us, rfl⟩ := List.exists_cons_of_ne_nil hus
        refine ⟨u :: us, hway, ?_⟩
        rw [hroot]
        exact List.mem_cons_self
    obtain ⟨es, hes, hmem⟩ := hround
    refine exists_first_repeat hes fun hdistinct => ?_
    exact (List.nodup_append.mp hdistinct).2.2 _ hmem _ (by simp) rfl

/-! ## 5. Flattened states -/

/-- The tree of a document. -/
def tree (d : Document) : Tree := Tree.ofNests d.nest.inside

/-- A place of a state: a way from the root to a mapping, on which no node comes up twice. -/
structure IsPlace (d : Document) (es : List (Key × Nat)) : Prop where
  ne_nil : es ≠ []
  way : d.IsWay d.root es
  distinct : (d.root :: es.map (·.2)).Nodup
  isMapping : d.IsMappingAt (endOf d.root es)

/-- A state is what a way leads to, under the names on the way. -/
structure Leads (d : Document) (es : List (Key × Nat)) (s : RawState) : Prop where
  id_eq : Position.idOf (es.map (·.1.display)) = some s.id
  parent_eq : Position.idOf (es.dropLast.map (·.1.display)) = s.parent
  key_eq : (es.map (·.1.display)).getLast? = some s.key
  definition_eq : s.definition = (d.valueOf (endOf d.root es)).entries

theorem isPlace_iff : d.IsPlace es ↔
    (es ≠ [] ∧ d.Visits [] d.root es) ∧ d.IsMappingAt (endOf d.root es) ∧ endOf d.root es ∉ before d.root es := by
  have hnodes : (d.root :: es.map (·.2)).Nodup ↔
      (before d.root es).Nodup ∧ endOf d.root es ∉ before d.root es := by
    rw [← before_concat_endOf, ← List.concat_eq_append, List.nodup_concat, and_comm]
  constructor
  · rintro ⟨hne, hway, hdistinct, hmapping⟩
    obtain ⟨hbefore, hnew⟩ := hnodes.mp hdistinct
    exact ⟨⟨hne, hway, hbefore, by simp⟩, hmapping, hnew⟩
  · rintro ⟨⟨hne, hway, hbefore, -⟩, hmapping, hnew⟩
    exact ⟨hne, hway, hnodes.mpr ⟨hbefore, hnew⟩, hmapping⟩

theorem Marks.isState_iff {p : Position} (h : d.Marks [] d.root [] es p) :
    p.nest.isState = true ↔ d.IsMappingAt (endOf d.root es) ∧ endOf d.root es ∉ before d.root es := by
  rw [h.nest.isState_iff]
  simp

theorem Marks.leads {p : Position} {s : RawState} (h : d.Marks [] d.root [] es p) (hs : Tree.Fills p s) :
    d.Leads es s := by
  have hpath : p.around ++ [p.key] = es.map (·.1.display) := h.path
  obtain ⟨inside, hnest⟩ := hs.definition_eq
  refine ⟨?_, ?_, ?_, ?_⟩
  · rw [← hpath, Position.idOf_concat, hs.id_eq]
    rfl
  · rw [List.map_dropLast, ← hpath, List.dropLast_concat, hs.parent_eq]
    rfl
  · rw [← hpath, List.getLast?_concat, hs.key_eq]
  · exact (hnest ▸ h.nest).definition_eq

/-- The states of a tree without an identifier that is taken twice are those that the places lead to, in order. -/
theorem exists_places (h : d.tree.Unambiguous) :
    ∃ places, (∀ es, es ∈ places ↔ d.IsPlace es) ∧ List.Forall₂ d.Leads places d.tree.states := by
  classical
  obtain ⟨ways, hways, hmarks⟩ := d.exists_ways
  let stands (es : List (Key × Nat)) : Bool :=
    decide (d.IsMappingAt (endOf d.root es) ∧ endOf d.root es ∉ before d.root es)
  refine ⟨ways.filter stands, ?_, ?_⟩
  · intro es
    rw [List.mem_filter, hways, decide_eq_true_iff, isPlace_iff]
  · have hfiltered : List.Forall₂ (d.Marks [] d.root []) (ways.filter stands)
        ((positions d.nest.inside).filter (·.nest.isState)) := by
      refine List.rel_filter ?_ hmarks
      intro es p hm
      exact decide_eq_true_iff.trans hm.isState_iff.symm
    exact comp_of_forall₂ hfiltered (Tree.lists_ofNests h).states fun es p s hm hs => hm.leads hs

/-- **There is one state for each place and one place for each state.** -/
theorem states_of_places (h : d.tree.Unambiguous) :
    (∀ es, d.IsPlace es → ∃! s, s ∈ d.tree.states ∧ d.Leads es s) ∧
      ∀ s ∈ d.tree.states, ∃! es, d.IsPlace es ∧ d.Leads es s := by
  obtain ⟨places, hplaces, hleads⟩ := exists_places h
  have hids : (d.tree.states.map fun s => some s.id).Nodup := by
    have hdistinct : d.tree.ids.Nodup := (Tree.sound_ofNests d.nest.inside).distinct
    have hwrapped := hdistinct.map (Option.some_injective String)
    rwa [Tree.ids, List.map_map] at hwrapped
  have hnames : (places.map fun es => Position.idOf (es.map (·.1.display))).Nodup := by
    rw [map_eq_of_forall₂ hleads fun es s hl => hl.id_eq]
    exact hids
  constructor
  · intro es hplace
    obtain ⟨s, hs, hl⟩ := exists_left_of_forall₂ hleads.flip ((hplaces es).mpr hplace)
    refine ⟨s, ⟨hs, hl⟩, ?_⟩
    rintro s' ⟨hs', hl'⟩
    exact List.inj_on_of_nodup_map hids hs' hs (hl'.id_eq.symm.trans hl.id_eq)
  · -- two ways of the same names would be two states of one identifier
    intro s hs
    obtain ⟨es, hes, hl⟩ := exists_left_of_forall₂ hleads hs
    refine ⟨es, ⟨(hplaces es).mp hes, hl⟩, ?_⟩
    rintro es' ⟨hplace', hl'⟩
    exact List.inj_on_of_nodup_map hnames ((hplaces es').mpr hplace') hes (hl'.id_eq.trans hl.id_eq.symm)

/-- **Flattening finds a state inside itself exactly if there is one.** -/
theorem selfContaining_iff (h : d.tree.Unambiguous) :
    (∃ i ∈ d.tree.issues, ∃ id, i.problem = .selfContaining id) ↔
      ∃ j, TransGen d.Below d.root j ∧ (TransGen d.Below j j ∨ j = d.root) := by
  obtain ⟨ways, hways, hmarks⟩ := d.exists_ways
  have hissues : d.tree.issues = (positions d.nest.inside).filterMap Tree.omission? := (Tree.lists_ofNests h).issues
  have hcomesUp {es : List (Key × Nat)} {p : Position} (hm : d.Marks [] d.root [] es p) :
      p.nest = .selfContaining ↔ d.IsMappingAt (endOf d.root es) ∧ endOf d.root es ∈ before d.root es := by
    rw [hm.nest.selfContaining_iff]
    simp
  rw [← repeats_iff, hissues]
  constructor
  · rintro ⟨i, hi, id, hproblem⟩
    obtain ⟨p, hp, homission⟩ := List.mem_filterMap.mp hi
    obtain ⟨es, hes, hm⟩ := exists_left_of_forall₂ hmarks hp
    obtain ⟨hne, hvisits⟩ := (hways es).mp hes
    have hnest : p.nest = .selfContaining := by
      unfold Tree.omission? at homission
      split at homission
      · cases homission
      · assumption
      · cases homission
        cases hproblem
    exact ⟨es, hne, hvisits, ((hcomesUp hm).mp hnest).2⟩
  · rintro ⟨es, hne, hvisits, hmem⟩
    obtain ⟨p, hp, hm⟩ := exists_left_of_forall₂ hmarks.flip ((hways es).mpr ⟨hne, hvisits⟩)
    have hnest := (hcomesUp hm).mpr ⟨isMappingAt_of_mem_before hvisits.1 hmem, hmem⟩
    refine ⟨⟨.selfContaining p.id, some p.id⟩, List.mem_filterMap.mpr ⟨p, hp, ?_⟩, p.id, rfl⟩
    rw [Tree.omission?, hnest]

/-! ## 6. What is reported -/

theorem label_eq_cyclic_iff {p : Problem} : p.label = "cyclic_state" ↔ ∃ id, p = .selfContaining id := by
  cases p with
  | guardRef ref e => cases h : e.isUnknown <;> simp [Problem.label, h]
  | _ => simp [Problem.label]

/-- The value of a document is a mapping if its root is one. -/
theorem value_of_isMapping (h : d.IsMappingAt d.root) : ∃ entries, d.value = .dict entries := by
  obtain ⟨entries, hcontent⟩ := h
  rw [value, valueOf, valueAt, if_neg (by simp), hcontent]
  exact ⟨_, rfl⟩

/-- Where the root is no mapping there are no states to flatten. -/
theorem tree_of_not_isMapping (h : ¬ d.IsMappingAt d.root) : d.tree = {} := by
  have hnest : d.nest.inside = [] := by
    have hunfolds := d.unfolds_nest
    generalize d.nest = nest at hunfolds
    cases hunfolds with
    | malformed => rfl
    | selfContaining => rfl
    | state hroot => exact absurd hroot h
  rw [tree, hnest]
  rfl

/-- A compilation says of the states that are left out what flattening says. -/
theorem omissions_of_validateSource {registry : Registry} {config : Config} {is : List Issue}
    (h : Definition.validateSource registry config (.ofDocument d) = .ok is) :
    Issue.ofOmissions is = d.tree.issues := by
  obtain ⟨o, hrun, rfl⟩ := map_eq_ok.mp h
  by_cases hvalue : ∃ entries, d.value = .dict entries
  · obtain ⟨entries, hentries⟩ := hvalue
    exact Definition.omissions_of_run hentries hrun
  · have hroot : ¬ d.IsMappingAt d.root := fun hroot => hvalue (value_of_isMapping hroot)
    rw [tree_of_not_isMapping hroot]
    unfold Definition.run at hrun
    split at hrun
    · exact absurd ⟨_, by assumption⟩ hvalue
    · cases hrun
      rfl

/-- Nothing keeps a compilation from reporting a state inside itself. -/
theorem reported_iff (registry : Registry) (config : Config) :
    (∃ is, Definition.validateSource registry config (.ofDocument d) = .ok is ∧
        ∃ i ∈ is, i.problem.label = "cyclic_state") ↔
      ∃ i ∈ d.tree.issues, ∃ id, i.problem = .selfContaining id := by
  simp only [label_eq_cyclic_iff]
  constructor
  · rintro ⟨is, hvalidate, i, hi, id, hproblem⟩
    refine ⟨i, ?_, id, hproblem⟩
    rw [← omissions_of_validateSource hvalidate]
    exact List.mem_filter.mpr ⟨hi, by rw [hproblem]; rfl⟩
  · rintro ⟨i, hi, id, hproblem⟩
    have hroot : d.IsMappingAt d.root := by
      by_contra hroot
      rw [tree_of_not_isMapping hroot] at hi
      cases hi
    obtain ⟨entries, hentries⟩ := value_of_isMapping hroot
    have hformal : i ∈ Definition.formalIssues entries d.tree := List.mem_append_left _ hi
    have hblocked : Definition.isBlocked (Definition.formalIssues entries d.tree) = true :=
      List.any_eq_true.mpr ⟨i, hformal, by rw [hproblem]; rfl⟩
    refine ⟨Definition.formalIssues entries d.tree, ?_, i, hformal, id, hproblem⟩
    have hrun : Definition.run registry config (.ofDocument d) =
        .ok ⟨Definition.formalIssues entries d.tree, none⟩ := by
      have hdefinition : (FlowSource.ofDocument d).definition = .dict entries := hentries
      have htree : Tree.ofNests (FlowSource.ofDocument d).states = d.tree := rfl
      unfold Definition.run
      simp only [hdefinition, htree, hblocked, if_true]
      rfl
    rw [Definition.validateSource, hrun]
    rfl

/-- **Flattening a document comes to an end and tells use from containment.**  It finds what unfolding without a
bound finds.  As long as no identifier is taken twice, a state inside itself is reported exactly if a state that is
reached from the root lies below itself or is the root, and there is one state for each place: for a
state in several places that do not lie inside each other, one in each of them. -/
theorem flattened (d : Document) (registry : Registry) (config : Config) :
    d.Unfolds [] d.root d.nest ∧
      (∀ is, Definition.validateSource registry config (.ofDocument d) = .ok is →
        Issue.ofOmissions is = d.tree.issues) ∧
      (d.tree.Unambiguous →
        ((∃ is, Definition.validateSource registry config (.ofDocument d) = .ok is ∧
            ∃ i ∈ is, i.problem.label = "cyclic_state") ↔
          ∃ j, TransGen d.Below d.root j ∧ (TransGen d.Below j j ∨ j = d.root)) ∧
        (∀ es, d.IsPlace es → ∃! s, s ∈ d.tree.states ∧ d.Leads es s) ∧
        ∀ s ∈ d.tree.states, ∃! es, d.IsPlace es ∧ d.Leads es s) := by
  refine ⟨d.unfolds_nest, fun is hvalidate => omissions_of_validateSource hvalidate, ?_⟩
  intro hclear
  obtain ⟨hplaces, hstates⟩ := states_of_places hclear
  exact ⟨(reported_iff registry config).trans (selfContaining_iff hclear), hplaces, hstates⟩

/-- A state that two others use, and a state that uses itself. -/
def entangled : Document where
  nodes := #[.dict [(.text "states", 1)],
    .dict [(.text "day", 2), (.text "night", 3), (.text "loop", 4)],
    .dict [(.text "states", 5)], .dict [(.text "states", 5)], .dict [(.text "states", 6)],
    .dict [(.text "rest", 7)], .dict [(.text "again", 4)], .dict []]
  root := 0

/-- The state that is used twice is there twice, and only the other one is reported. -/
theorem flattened_entangled :
    entangled.tree.Unambiguous ∧
      (∃ is, Definition.validateSource (.bare {}) {} (.ofDocument entangled) = .ok is ∧
        ∃ i ∈ is, i.problem.label = "cyclic_state") ∧
      (∃! s, s ∈ entangled.tree.states ∧ entangled.Leads [(.text "day", 2), (.text "rest", 7)] s) ∧
      ∃! s, s ∈ entangled.tree.states ∧ entangled.Leads [(.text "night", 3), (.text "rest", 7)] s := by
  have hissues : entangled.tree.issues = [⟨.selfContaining "loop.again", some "loop.again"⟩] := rfl
  have hclear : entangled.tree.Unambiguous := by
    intro i hi id
    rw [hissues, List.mem_singleton] at hi
    subst hi
    exact fun heq => by cases heq
  obtain ⟨-, -, h⟩ := flattened entangled (.bare {}) {}
  obtain ⟨hcyclic, hplaces, -⟩ := h hclear
  have hloop : entangled.Below 0 4 := ⟨.text "loop", .tail _ (.tail _ (.head _))⟩
  have hagain : entangled.Below 4 4 := ⟨.text "again", .head _⟩
  refine ⟨hclear, hcyclic.mpr ⟨4, .single hloop, .inl (.single hagain)⟩, hplaces _ ?_, hplaces _ ?_⟩
  · exact ⟨by simp, ⟨.head _, .head _, trivial⟩, by decide, ⟨[], rfl⟩⟩
  · exact ⟨by simp, ⟨.tail _ (.head _), .head _, trivial⟩, by decide, ⟨[], rfl⟩⟩

end Document

end Statechart
