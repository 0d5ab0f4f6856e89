/-
# Flattened states

What flattening makes of nested states.  An identifier alone does not tell where a state stands: names
may hold dots, be empty or begin like an absolute identifier, so the tree has to be read off the
order in which the states were added and off their parents.

* **The tree is sound whatever is nested** (`sound_ofNests`): identifiers are distinct, a parent stands
  before its children, the children of a state are exactly the states whose parent it is, and a state
  inside another one has a name.
* **Where no identifier is taken twice nothing is left out** (`lists_ofNests`): there is exactly one state
  for every position where a state stands, in their order, and one issue for every other position; without
  issues there is a state for every position (`fills_ofNests`).

Both are inductions along the nested states, for one state and for a list of states at once.
-/
import Statechart.Compile.Tree
import Mathlib.Data.List.Basic
import Mathlib.Data.List.Nodup
import Mathlib.Data.List.Forall2

namespace Statechart

/-! ## 1. Splitting a list at a member -/

/-- What holds at every split of a list with one more member holds at every split of the list, and
at the split before the new member. -/
theorem forall_split_concat {α : Type} {P : List α → α → Prop} {xs : List α} {x : α} :
    (∀ before y after, xs ++ [x] = before ++ y :: after → P before y) ↔
      (∀ before y after, xs = before ++ y :: after → P before y) ∧ P xs x := by
  constructor
  · intro h
    refine ⟨fun before y after hs => h before y (after ++ [x]) (by simp [hs]), h xs x [] rfl⟩
  · rintro ⟨h, hx⟩ before y after hs
    rcases List.eq_nil_or_concat after with rfl | ⟨after', z, rfl⟩
    · obtain ⟨rfl, hy⟩ := List.append_inj' hs rfl
      simp only [List.cons.injEq, and_true] at hy
      exact hy ▸ hx
    · have hs' : xs ++ [x] = (before ++ y :: after') ++ [z] := by simpa using hs
      obtain ⟨hxs, _⟩ := List.append_inj' hs' rfl
      exact h before y after' hxs

/-! ## 2. Positions of nested states -/

namespace Nest

/-- Whether a state stands there. -/
def isState : Nest → Bool
  | .state _ _ => true
  | _ => false

/-- A place where a state is expected: the names of the states around it, outermost first, its own
name, and what stands there. -/
structure Position where
  around : List String
  key : String
  nest : Nest

namespace Position

/-- The identifier of the innermost of some states, each inside the one before. -/
def idOf (around : List String) : Option String :=
  around.foldl (fun parent key => some (Tree.idBelow parent key)) none

/-- The identifier of the state around a place. -/
def parent (p : Position) : Option String := idOf p.around

/-- The identifier of a place. -/
def id (p : Position) : String := Tree.idBelow p.parent p.key

theorem idOf_concat (around : List String) (key : String) :
    idOf (around ++ [key]) = some (Tree.idBelow (idOf around) key) := by
  simp [idOf]

end Position

mutual

/-- A position and all those inside the state that stands there. -/
def positionsAt (around : List String) (key : String) : Nest → List Position
  | .state es inside => ⟨around, key, .state es inside⟩ :: positionsIn (around ++ [key]) inside
  | .selfContaining => [⟨around, key, .selfContaining⟩]
  | .malformed => [⟨around, key, .malformed⟩]

/-- The positions of states inside some others. -/
def positionsIn (around : List String) : List (String × Nest) → List Position
  | [] => []
  | (key, nest) :: ns => positionsAt around key nest ++ positionsIn around ns

end

/-- All positions of the nested states of a definition, outer ones first. -/
def positions (states : Nests) : List Position := positionsIn [] states

end Nest

namespace Tree

/-! ## 3. Adding a state -/

/-- The identifiers of the states, each with that of its parent. -/
def links (t : Tree) : List (String × Option String) := t.states.map fun s => (s.id, s.parent)

theorem links_add (t : Tree) (s : RawState) : (t.add s).links = t.links ++ [(s.id, s.parent)] := by
  simp only [add, links, List.map_append, List.map_map, List.map_cons, List.map_nil]
  congr 1
  refine List.map_congr_left fun x _ => ?_
  simp only [Function.comp_apply, adopt]
  split <;> rfl

theorem ids_eq_links (t : Tree) : t.ids = t.links.map (·.1) := by
  simp [ids, links]

theorem find?_eq_none {t : Tree} {id : String} (h : t.has id = false) : id ∉ t.ids := by
  intro hm
  obtain ⟨s, hs, rfl⟩ := List.mem_map.mp hm
  simp only [has, find?, Option.isSome_eq_false_iff, Option.isNone_iff_eq_none,
    List.find?_eq_none] at h
  exact h s hs (by simp)

theorem has_iff {t : Tree} {id : String} : t.has id = true ↔ id ∈ t.ids := by
  simp [has, find?, ids]

/-- What all trees have in common. -/
structure Sound (t : Tree) : Prop where
  distinct : t.ids.Nodup
  parent_first : ∀ before x after, t.links = before ++ x :: after →
    ∀ p, x.2 = some p → p ∈ before.map (·.1)
  children_eq : ∀ s ∈ t.states,
    s.children = (t.links.filter fun l => l.2 = some s.id).map (·.1)
  named : ∀ l ∈ t.links, l.2 ≠ none → l.1 ≠ ""

theorem sound_empty : Sound {} where
  distinct := List.nodup_nil
  parent_first := by
    intro before x after h
    simp [links] at h
  children_eq := by
    intro s hs
    cases hs
  named := by
    intro l hl
    simp [links] at hl

theorem Sound.report {t : Tree} (h : t.Sound) (p : Problem) (id : String) : (t.report p id).Sound :=
  ⟨h.distinct, h.parent_first, h.children_eq, h.named⟩

/-- **One more state keeps a tree sound**, if its identifier is new, its parent is there, and it has a
name unless it stands outermost. -/
theorem Sound.add {t : Tree} {s : RawState} (h : t.Sound) (hnew : s.id ∉ t.ids)
    (hparent : ∀ p, s.parent = some p → p ∈ t.ids) (hname : s.parent ≠ none → s.id ≠ "")
    (hbare : s.children = []) : (t.add s).Sound := by
  have hself : s.parent ≠ some s.id := fun hp => hnew (hparent s.id hp)
  refine ⟨?_, ?_, ?_, ?_⟩
  · rw [add_ids]
    exact List.Nodup.append h.distinct (List.nodup_singleton _) (by simpa using hnew)
  · rw [links_add]
    refine forall_split_concat.mpr ⟨h.parent_first, ?_⟩
    intro p hp
    exact ids_eq_links t ▸ hparent p hp
  · intro x hx
    rw [links_add, List.filter_append, List.map_append]
    rcases List.mem_append.mp hx with hx | hx
    · obtain ⟨y, hy, rfl⟩ := List.mem_map.mp hx
      have hchildren := h.children_eq y hy
      by_cases hp : s.parent = some y.id
      · simp [adopt, hp, hchildren]
      · simp [adopt, hp, hchildren]
    · rw [List.mem_singleton] at hx
      subst hx
      -- no state that was there before can be inside the new one
      have hnone : t.links.filter (fun l => l.2 = some x.id) = [] := by
        refine List.filter_eq_nil_iff.mpr fun l hl hp => ?_
        obtain ⟨before, after, hsplit⟩ := List.append_of_mem hl
        have hmem := h.parent_first before l after hsplit x.id (by simpa using hp)
        refine hnew ?_
        rw [ids_eq_links, hsplit, List.map_append]
        exact List.mem_append_left _ hmem
      simp [hnone, hself, hbare]
  · intro l hl hp
    rw [links_add] at hl
    rcases List.mem_append.mp hl with hl | hl
    · exact h.named l hl hp
    · rw [List.mem_singleton] at hl
      subst hl
      exact hname hp

/-- A state inside another one has a name, if its identifier is new. -/
theorem idBelow_ne_empty {t : Tree} {parent : Option String} {key : String}
    (hparent : ∀ p, parent = some p → p ∈ t.ids) (hnew : idBelow parent key ∉ t.ids)
    (hp : parent ≠ none) : idBelow parent key ≠ "" := by
  obtain ⟨p, rfl⟩ := Option.ne_none_iff_exists'.mp hp
  intro h
  have hmem : p ∈ t.ids := hparent p rfl
  unfold idBelow at h hnew
  by_cases he : p.isEmpty = true
  · have hpe : p = "" := by simpa using he
    simp only [he, if_true] at h hnew
    exact hnew (h.trans hpe.symm ▸ hmem)
  · simp only [he, Bool.false_eq_true, if_false] at h
    have := congrArg String.length h
    simp [String.length_append] at this

/-! ## 4. Flattening keeps trees sound -/

mutual

theorem sound_addNest (parent : Option String) (key : String) (t : Tree) (nest : Nest) (h : t.Sound)
    (hparent : ∀ p, parent = some p → p ∈ t.ids) :
    (addNest parent key t nest).Sound ∧ ∀ id ∈ t.ids, id ∈ (addNest parent key t nest).ids := by
  cases nest with
  | state es inside =>
    rw [addNest]
    split
    · exact ⟨h.report _ _, fun _ hid => hid⟩
    · rename_i hhas
      have hnew : idBelow parent key ∉ t.ids := find?_eq_none (by simpa using hhas)
      have hadd : (t.add { id := idBelow parent key, key, parent, definition := es }).Sound :=
        h.add hnew hparent (idBelow_ne_empty hparent hnew) rfl
      obtain ⟨hs, hids⟩ := sound_addNests (some (idBelow parent key)) _ inside hadd
        (by intro p hp; cases hp; simp [add_ids])
      exact ⟨hs, fun id hid => hids id (by simp [add_ids, hid])⟩
  | selfContaining => exact ⟨h.report _ _, fun _ hid => hid⟩
  | malformed => exact ⟨h.report _ _, fun _ hid => hid⟩

theorem sound_addNests (parent : Option String) (t : Tree) (ns : List (String × Nest)) (h : t.Sound)
    (hparent : ∀ p, parent = some p → p ∈ t.ids) :
    (addNests parent t ns).Sound ∧ ∀ id ∈ t.ids, id ∈ (addNests parent t ns).ids := by
  cases ns with
  | nil => exact ⟨h, fun _ hid => hid⟩
  | cons n ns =>
    obtain ⟨key, nest⟩ := n
    rw [addNests]
    obtain ⟨h₁, hids₁⟩ := sound_addNest parent key t nest h hparent
    obtain ⟨h₂, hids₂⟩ := sound_addNests parent _ ns h₁ fun p hp => hids₁ p (hparent p hp)
    exact ⟨h₂, fun id hid => hids₂ id (hids₁ id hid)⟩

end

/-- **The tree of any nested states is sound.** -/
theorem sound_ofNests (states : Nests) : (ofNests states).Sound :=
  (sound_addNests none {} states sound_empty (by simp)).1

/-! ## 5. Issues of a tree -/

/-- Whether a problem keeps a nested state out of a tree. -/
def isOmission : Problem → Bool
  | .notAState _ | .selfContaining _ | .duplicateState _ => true
  | _ => false

/-- The issues of a tree are about the states left out of it. -/
def IsStrict (t : Tree) : Prop := ∀ i ∈ t.issues, isOmission i.problem = true

theorem IsStrict.report {t : Tree} (h : t.IsStrict) {p : Problem} (hp : isOmission p = true)
    (id : String) : (t.report p id).IsStrict := by
  intro i hi
  rcases List.mem_append.mp hi with hi | hi
  · exact h i hi
  · rw [List.mem_singleton] at hi
    subst hi
    exact hp

mutual

theorem isStrict_addNest (parent : Option String) (key : String) (t : Tree) (nest : Nest)
    (h : t.IsStrict) : (addNest parent key t nest).IsStrict := by
  cases nest with
  | state es inside =>
    rw [addNest]
    split
    · exact h.report rfl _
    · exact isStrict_addNests _ _ inside h
  | selfContaining => exact h.report rfl _
  | malformed => exact h.report rfl _

theorem isStrict_addNests (parent : Option String) (t : Tree) (ns : List (String × Nest))
    (h : t.IsStrict) : (addNests parent t ns).IsStrict := by
  cases ns with
  | nil => exact h
  | cons n ns =>
    obtain ⟨key, nest⟩ := n
    rw [addNests]
    exact isStrict_addNests _ _ ns (isStrict_addNest _ _ _ nest h)

end

theorem isStrict_ofNests (states : Nests) : (ofNests states).IsStrict :=
  isStrict_addNests none {} states (by intro i hi; cases hi)

/-- Such a problem stands in the way of a graph. -/
theorem isFatal_of_isOmission {p : Problem} (h : isOmission p = true) : p.isFatal = true := by
  cases p <;> first | rfl | cases h

/-! ## 6. Nothing is left out -/

/-- A state is what stands at a position. -/
structure Fills (p : Nest.Position) (s : RawState) : Prop where
  id_eq : s.id = p.id
  key_eq : s.key = p.key
  parent_eq : s.parent = p.parent
  definition_eq : ∃ inside, p.nest = .state s.definition inside

theorem fills_adopt {p : Nest.Position} {s : RawState} (parent : Option String) (child : String) :
    Fills p (adopt parent child s) ↔ Fills p s := by
  have h : (adopt parent child s).id = s.id ∧ (adopt parent child s).key = s.key ∧
      (adopt parent child s).parent = s.parent ∧ (adopt parent child s).definition = s.definition := by
    unfold adopt
    split <;> exact ⟨rfl, rfl, rfl, rfl⟩
  constructor
  · rintro ⟨h₁, h₂, h₃, h₄⟩
    exact ⟨h.1 ▸ h₁, h.2.1 ▸ h₂, h.2.2.1 ▸ h₃, h.2.2.2 ▸ h₄⟩
  · rintro ⟨h₁, h₂, h₃, h₄⟩
    exact ⟨h.1.trans h₁, h.2.1.trans h₂, h.2.2.1.trans h₃, h.2.2.2.symm ▸ h₄⟩

/-- One more state fills one more position. -/
theorem forall₂_fills_add {t : Tree} {ps : List Nest.Position} {p : Nest.Position} {s : RawState}
    (h : List.Forall₂ Fills ps t.states) (hs : Fills p s) :
    List.Forall₂ Fills (ps ++ [p]) (t.add s).states := by
  refine List.rel_append (List.forall₂_map_right_iff.mpr ?_) (.cons hs .nil)
  exact h.imp fun _ _ hf => (fills_adopt _ _).mpr hf

/-- What is wrong with a position where no state stands. -/
def omission? (p : Nest.Position) : Option Issue :=
  match p.nest with
  | .state _ _ => none
  | .selfContaining => some ⟨.selfContaining p.id, some p.id⟩
  | .malformed => some ⟨.notAState p.id, some p.id⟩

/-- No identifier has been taken twice. -/
def Unambiguous (t : Tree) : Prop := ∀ i ∈ t.issues, ∀ id, i.problem ≠ .duplicateState id

/-- A tree has a state for each position where one stands, and an issue for each of the others. -/
structure Lists (t : Tree) (ps : List Nest.Position) : Prop where
  states : List.Forall₂ Fills (ps.filter (·.nest.isState)) t.states
  issues : t.issues = ps.filterMap omission?

theorem Lists.add {t : Tree} {ps : List Nest.Position} (h : t.Lists ps) {p : Nest.Position} {s : RawState}
    (hs : Fills p s) : (t.add s).Lists (ps ++ [p]) := by
  obtain ⟨inside, hnest⟩ := hs.definition_eq
  constructor
  · rw [List.filter_append, List.filter_cons_of_pos (by rw [hnest]; rfl)]
    exact forall₂_fills_add h.states hs
  · have hnone : omission? p = none := by rw [omission?, hnest]
    rw [List.filterMap_append, List.filterMap_cons_none hnone]
    exact h.issues.trans (List.append_nil _).symm

theorem Lists.report {t : Tree} {ps : List Nest.Position} (h : t.Lists ps) {p : Nest.Position} {problem : Problem}
    {id : String} (hstate : p.nest.isState = false) (homission : omission? p = some ⟨problem, some id⟩) :
    (t.report problem id).Lists (ps ++ [p]) where
  states := by
    rw [List.filter_append, List.filter_cons_of_neg (by simp [hstate]), List.filter_nil, List.append_nil]
    exact h.states
  issues := by
    rw [List.filterMap_append, List.filterMap_cons_some homission, List.filterMap_nil, ← h.issues]
    rfl

theorem issues_prefix_report (t : Tree) (p : Problem) (id : String) :
    t.issues <+: (t.report p id).issues := List.prefix_append _ _

mutual

theorem issues_prefix_addNest (parent : Option String) (key : String) (t : Tree) (nest : Nest) :
    t.issues <+: (addNest parent key t nest).issues := by
  cases nest with
  | state es inside =>
    rw [addNest]
    split
    · exact issues_prefix_report _ _ _
    · exact issues_prefix_addNests _ (t.add _) inside
  | selfContaining => exact issues_prefix_report _ _ _
  | malformed => exact issues_prefix_report _ _ _

theorem issues_prefix_addNests (parent : Option String) (t : Tree) (ns : List (String × Nest)) :
    t.issues <+: (addNests parent t ns).issues := by
  cases ns with
  | nil => exact List.prefix_rfl
  | cons n ns =>
    obtain ⟨key, nest⟩ := n
    rw [addNests]
    exact (issues_prefix_addNest _ _ _ nest).trans (issues_prefix_addNests _ _ ns)

end

theorem Unambiguous.earlier {t u : Tree} (h : u.Unambiguous) (hissues : t.issues <+: u.issues) : t.Unambiguous :=
  fun i hi => h i (hissues.subset hi)

theorem not_unambiguous_report (t : Tree) (id : String) : ¬ (t.report (.duplicateState id) id).Unambiguous :=
  fun h => h ⟨.duplicateState id, some id⟩ (by simp [Tree.report]) id rfl

mutual

theorem lists_addNest (around : List String) (key : String) (t : Tree) (nest : Nest)
    (ps : List Nest.Position) (h : t.Lists ps)
    (hclear : (addNest (Nest.Position.idOf around) key t nest).Unambiguous) :
    (addNest (Nest.Position.idOf around) key t nest).Lists (ps ++ Nest.positionsAt around key nest) := by
  cases nest with
  | state es inside =>
    rw [addNest] at hclear ⊢
    split at hclear
    · exact absurd hclear (not_unambiguous_report _ _)
    · rename_i hhas
      simp only [hhas, Bool.false_eq_true, if_false]
      have hadd := h.add (p := ⟨around, key, .state es inside⟩)
        (s := { id := Tree.idBelow (Nest.Position.idOf around) key, key,
                parent := Nest.Position.idOf around, definition := es })
        ⟨rfl, rfl, rfl, inside, rfl⟩
      rw [← Nest.Position.idOf_concat] at hclear ⊢
      have hin := lists_addNests (around ++ [key]) _ inside _ hadd hclear
      simpa [Nest.positionsAt] using hin
  | selfContaining => exact h.report rfl rfl
  | malformed => exact h.report rfl rfl

theorem lists_addNests (around : List String) (t : Tree) (ns : List (String × Nest))
    (ps : List Nest.Position) (h : t.Lists ps)
    (hclear : (addNests (Nest.Position.idOf around) t ns).Unambiguous) :
    (addNests (Nest.Position.idOf around) t ns).Lists (ps ++ Nest.positionsIn around ns) := by
  cases ns with
  | nil => simpa [Nest.positionsIn, addNests] using h
  | cons n ns =>
    obtain ⟨key, nest⟩ := n
    rw [addNests] at hclear ⊢
    have hfirst := hclear.earlier (issues_prefix_addNests _ _ ns)
    have hone := lists_addNest around key t nest ps h hfirst
    have hall := lists_addNests around _ ns _ hone hclear
    simpa [Nest.positionsIn] using hall

end

/-- **A tree without an identifier that is taken twice has exactly one state for each position where one
stands**, in their order, and says what is wrong with the others. -/
theorem lists_ofNests {states : Nests} (h : (ofNests states).Unambiguous) :
    (ofNests states).Lists (Nest.positions states) :=
  lists_addNests [] {} states [] ⟨.nil, rfl⟩ h

/-- **A tree without issues has exactly one state for each position**, in their order. -/
theorem fills_ofNests {states : Nests} (h : (ofNests states).issues = []) :
    List.Forall₂ Fills (Nest.positions states) (ofNests states).states := by
  have hlists : (ofNests states).Lists (Nest.positions states) :=
    lists_ofNests fun i hi => absurd (h ▸ hi) List.not_mem_nil
  have hnone : ∀ p ∈ Nest.positions states, omission? p = none :=
    List.filterMap_eq_nil_iff.mp (hlists.issues.symm.trans h)
  have hall : (Nest.positions states).filter (·.nest.isState) = Nest.positions states := by
    refine List.filter_eq_self.mpr fun p hp => ?_
    have := hnone p hp
    obtain ⟨around, key, nest⟩ := p
    cases nest <;> first | rfl | cases this
  exact hall ▸ hlists.states

end Tree

end Statechart
