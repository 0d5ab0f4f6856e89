/-
# What a target means

A target is looked up by its identifier alone: the identifiers of the levels around a state are put in
front of it one after the other, and the first result that is known is taken.  Nobody goes down the tree
of states.  Where no key is empty or holds a dot, this comes to the same as going down: a target names
the keys of a descent, and means the state that the descent leads to from the nearest level around the
state that it is possible from, or else from the state itself.

* `Nest.descend?`: going down by keys;
* `Nest.label_inj`: an identifier tells the keys on the way;
* **`Tree.shown_ofNests`**: the flattened states are exactly the ends of descents;
* `Tree.Outward`: the way to the root, which comes to an end;
* `Nest.Means`: the scoping of targets; **`Tree.resolves_lexically`**: they are resolved by it.
-/
import Statechart.Proofs.Tree
import Mathlib.Data.List.Infix
import Mathlib.Data.List.Induction

namespace Statechart

namespace Nest

/-! ## 1. Keys and identifiers -/

/-- A key that does not blur an identifier: it is not empty and holds no dot. -/
def IsKey (s : String) : Prop := s ≠ "" ∧ '.' ∉ s.toList

instance (s : String) : Decidable (IsKey s) := inferInstanceAs (Decidable (_ ∧ _))

/-- Keys, one at least. -/
def AreKeys (ks : List String) : Prop := ks ≠ [] ∧ ∀ k ∈ ks, IsKey k

instance (ks : List String) : Decidable (AreKeys ks) := inferInstanceAs (Decidable (_ ∧ _))

/-- The identifier of the state that keys lead to. -/
def label (ks : List String) : String := ".".intercalate ks

variable {ps qs ks : List String} {k : String}

theorem label_append (hp : ps ≠ []) (hk : ks ≠ []) : label (ps ++ ks) = label ps ++ "." ++ label ks :=
  String.intercalate_append_of_ne_nil hp hk

theorem toList_label_cons (h : ks ≠ []) :
    (label (k :: ks)).toList = k.toList ++ '.' :: (label ks).toList := by
  rw [label, String.intercalate_cons_of_ne_nil h, ← label]
  simp

theorem AreKeys.singleton (h : IsKey k) : AreKeys [k] := ⟨List.cons_ne_nil k [], by simpa using h⟩

theorem AreKeys.append (hp : ∀ p ∈ ps, IsKey p) (hk : AreKeys ks) : AreKeys (ps ++ ks) :=
  ⟨List.append_ne_nil_of_right_ne_nil ps hk.1, List.forall_mem_append.mpr ⟨hp, hk.2⟩⟩

theorem label_ne_empty (h : AreKeys ks) : label ks ≠ "" := by
  intro hempty
  cases ks with
  | nil => exact h.1 rfl
  | cons k ks =>
    by_cases hks : ks = []
    · subst hks
      exact (h.2 k (.head _)).1 hempty
    · have hlist := toList_label_cons (k := k) hks
      rw [hempty] at hlist
      simp at hlist

/-- **An identifier tells the keys it is made of.** -/
theorem label_inj (hp : AreKeys ps) (hq : AreKeys qs) (h : label ps = label qs) : ps = qs := by
  induction ps generalizing qs with
  | nil => exact absurd rfl hp.1
  | cons p ps ih =>
    cases qs with
    | nil => exact absurd rfl hq.1
    | cons q qs =>
      have hpdot := (hp.2 p (.head _)).2
      have hqdot := (hq.2 q (.head _)).2
      by_cases hps : ps = [] <;> by_cases hqs : qs = []
      · subst hps hqs
        exact congrArg (· :: []) h
      · subst hps
        have hlist : p.toList = _ := (congrArg String.toList h).trans (toList_label_cons hqs)
        exact absurd (hlist ▸ by simp) hpdot
      · subst hqs
        have hlist : q.toList = _ := (congrArg String.toList h.symm).trans (toList_label_cons hps)
        exact absurd (hlist ▸ by simp) hqdot
      · have hlist := congrArg String.toList h
        rw [toList_label_cons hps, toList_label_cons hqs] at hlist
        rcases separated_eq_iff.mp hlist with ⟨hhead, hrest⟩ | ⟨us, hq', -⟩ | ⟨us, hp', -⟩
        · obtain rfl := String.toList_inj.mp hhead
          rw [ih ⟨hps, fun k hk => hp.2 k (.tail _ hk)⟩ ⟨hqs, fun k hk => hq.2 k (.tail _ hk)⟩
            (String.toList_inj.mp hrest)]
        · exact absurd (hq' ▸ by simp) hqdot
        · exact absurd (hp' ▸ by simp) hpdot

/-- The identifier of a state below others. -/
theorem idBelow_idOf (hp : ∀ p ∈ ps, IsKey p) (hk : ks ≠ []) :
    Tree.idBelow (Position.idOf ps) (label ks) = label (ps ++ ks) := by
  induction ps using List.reverseRecOn generalizing ks with
  | nil => rfl
  | append_singleton ps p ih =>
    have hkeys : AreKeys (ps ++ [p]) := ⟨by simp, hp⟩
    have hlast : Tree.idBelow (Position.idOf ps) p = label (ps ++ [p]) :=
      ih (fun q hq => hp q (List.mem_append_left _ hq)) (List.cons_ne_nil p [])
    rw [Position.idOf_concat, hlast, Tree.idBelow, if_neg (by simpa using label_ne_empty hkeys),
      label_append hkeys.1 hk]

theorem idOf_eq (h : AreKeys ps) : Position.idOf ps = some (label ps) := by
  obtain ⟨qs, q, rfl⟩ := List.eq_nil_or_concat ps |>.resolve_left h.1
  have hqs : ∀ k ∈ qs, IsKey k := fun k hk => h.2 k (by simp [hk])
  rw [List.concat_eq_append, Position.idOf_concat]
  exact congrArg some (idBelow_idOf hqs (List.cons_ne_nil q []))

/-! ## 2. Going down -/

/-- How a state was defined. -/
def definition : Nest → Entries
  | .state es _ => es
  | _ => []

/-- The first state under a key; what is no state does not count. -/
def child? (k : String) : Nests → Option Nest
  | [] => none
  | (key, nest) :: ns => if key = k ∧ nest.isState then some nest else child? k ns

/-- What is reached from a state by going down by keys. -/
def descend? : Nest → List String → Option Nest
  | n, [] => some n
  | n, k :: ks => (child? k n.inside).bind (descend? · ks)

/-- What lies around all states of a definition. -/
def root (states : Nests) : Nest := .state [] states

/-- Going down in two stages. -/
theorem descend?_append (n : Nest) (ps ks : List String) :
    n.descend? (ps ++ ks) = (n.descend? ps).bind (descend? · ks) := by
  induction ps generalizing n with
  | nil => rfl
  | cons p ps ih =>
    rw [List.cons_append, descend?, descend?]
    cases child? p n.inside with
    | none => rfl
    | some m => exact ih m

/-- The state that keys lead to. -/
def rawAt (ks : List String) (n : Nest) : RawState :=
  { id := label ks, key := ks.getLastD "", parent := Position.idOf ks.dropLast,
    definition := n.definition }

end Nest

namespace Tree

open Nest

/-! ## 3. Trees with plain keys -/

variable {t : Tree} {ps r ks around : List String} {k key id : String}

/-- Identifiers are made of keys, and nothing is known below what is not known. -/
structure Plain (t : Tree) : Prop where
  labelled : ∀ id ∈ t.ids, ∃ ps, AreKeys ps ∧ id = label ps
  closed : ∀ ps k, AreKeys ps → IsKey k → label (ps ++ [k]) ∈ t.ids → label ps ∈ t.ids

/-- A level at which states are added: the root, or a state that is there. -/
structure IsLevel (t : Tree) (around : List String) : Prop where
  keys : ∀ k ∈ around, IsKey k
  known : around = [] ∨ label around ∈ t.ids

theorem IsLevel.here (h : t.IsLevel around) (hkey : IsKey key) : AreKeys (around ++ [key]) :=
  .append h.keys (.singleton hkey)

theorem IsLevel.mono {t' : Tree} (h : t.IsLevel around) (hids : ∀ id ∈ t.ids, id ∈ t'.ids) :
    t'.IsLevel around :=
  ⟨h.keys, h.known.imp_right (hids _)⟩

/-- A new state is a level. -/
theorem IsLevel.added (h : t.IsLevel around) (hkey : IsKey key) (n : Nest) :
    (t.add (rawAt (around ++ [key]) n)).IsLevel (around ++ [key]) :=
  ⟨(h.here hkey).2, .inr (by rw [add_ids]; simp [rawAt])⟩

/-- Adding a state under a plain key. -/
theorem addNest_state (h : t.IsLevel around) (hkey : IsKey key) (es : Entries) (inside : Nests) :
    addNest (Position.idOf around) key t (.state es inside) =
      if t.has (label (around ++ [key])) then
        t.report (.duplicateState (label (around ++ [key]))) (label (around ++ [key]))
      else addNests (Position.idOf (around ++ [key]))
        (t.add (rawAt (around ++ [key]) (.state es inside))) inside := by
  have hid : idBelow (Position.idOf around) key = label (around ++ [key]) :=
    idBelow_idOf h.keys (List.cons_ne_nil key [])
  rw [addNest, hid, idOf_eq (h.here hkey), rawAt, List.dropLast_concat, List.getLastD_concat]
  rfl

theorem Plain.not_below (h : t.Plain) (hps : AreKeys ps) (hr : ∀ k ∈ r, IsKey k)
    (hnot : label ps ∉ t.ids) : label (ps ++ r) ∉ t.ids := by
  induction r using List.reverseRecOn with
  | nil => rwa [List.append_nil]
  | append_singleton r k ih =>
    obtain ⟨hr, hk⟩ := List.forall_mem_append.mp hr
    rw [← List.append_assoc]
    refine fun hmem => ih hr (h.closed _ k ⟨?_, ?_⟩ (hk k (.head _)) hmem)
    · exact List.append_ne_nil_of_left_ne_nil hps.1 r
    · exact List.forall_mem_append.mpr ⟨hps.2, hr⟩

/-- A new state at a level keeps a tree plain. -/
theorem Plain.add (h : t.Plain) (hlevel : t.IsLevel around) (hkey : IsKey key) (n : Nest) :
    (t.add (rawAt (around ++ [key]) n)).Plain := by
  constructor
  · intro id hmem
    rw [add_ids] at hmem
    rcases List.mem_append.mp hmem with hmem | hmem
    · exact h.labelled id hmem
    · exact ⟨_, hlevel.here hkey, List.mem_singleton.mp hmem⟩
  · intro ps k hps hk hmem
    rw [add_ids] at hmem ⊢
    refine List.mem_append_left _ ?_
    rcases List.mem_append.mp hmem with hmem | hmem
    · exact h.closed ps k hps hk hmem
    · have heq := label_inj (.append hps.2 (.singleton hk)) (hlevel.here hkey)
        (List.mem_singleton.mp hmem)
      obtain ⟨rfl, -⟩ := List.append_inj' heq rfl
      exact hlevel.known.resolve_left hps.1

mutual

theorem plain_addNest (around : List String) (key : String) (t : Tree) (nest : Nest)
    (h : t.Plain) (hlevel : t.IsLevel around)
    (hnest : ∀ x ∈ positionsAt around key nest, IsKey x.key) :
    (addNest (Position.idOf around) key t nest).Plain ∧
      ∀ id ∈ t.ids, id ∈ (addNest (Position.idOf around) key t nest).ids := by
  cases nest with
  | state es inside =>
    rw [positionsAt, List.forall_mem_cons] at hnest
    obtain ⟨hkey, hinside⟩ := hnest
    rw [addNest_state hlevel hkey]
    split
    · exact ⟨⟨h.labelled, h.closed⟩, fun _ hid => hid⟩
    · obtain ⟨hplain, hids⟩ := plain_addNests (around ++ [key]) _ inside (h.add hlevel hkey _)
        (hlevel.added hkey _) hinside
      exact ⟨hplain, fun id hmem => hids id (by rw [add_ids]; exact List.mem_append_left _ hmem)⟩
  | selfContaining => exact ⟨⟨h.labelled, h.closed⟩, fun _ hid => hid⟩
  | malformed => exact ⟨⟨h.labelled, h.closed⟩, fun _ hid => hid⟩

theorem plain_addNests (around : List String) (t : Tree) (ns : List (String × Nest))
    (h : t.Plain) (hlevel : t.IsLevel around) (hns : ∀ x ∈ positionsIn around ns, IsKey x.key) :
    (addNests (Position.idOf around) t ns).Plain ∧
      ∀ id ∈ t.ids, id ∈ (addNests (Position.idOf around) t ns).ids := by
  cases ns with
  | nil => exact ⟨h, fun _ hid => hid⟩
  | cons n ns =>
    obtain ⟨key, nest⟩ := n
    rw [positionsIn, List.forall_mem_append] at hns
    obtain ⟨h₁, hids₁⟩ := plain_addNest around key t nest h hlevel hns.1
    obtain ⟨h₂, hids₂⟩ := plain_addNests around _ ns h₁ (hlevel.mono hids₁) hns.2
    rw [addNests]
    exact ⟨h₂, fun id hid => hids₂ id (hids₁ id hid)⟩

end

/-! ## 4. What flattening makes of descents -/

/-- The state that keys lead to, without its children. -/
def shown? (t : Tree) (ks : List String) : Option RawState :=
  (t.find? (label ks)).map fun s => { s with children := [] }

theorem shown?_eq_none : t.shown? ks = none ↔ label ks ∉ t.ids := by
  rw [shown?, Option.map_eq_none_iff, ← has_iff, has]
  simp

/-- One more state is seen under its own identifier; elsewhere all is as it was. -/
theorem shown?_add (hnew : label ks ∉ t.ids) (n : Nest) (ps : List String) :
    (t.add (rawAt ks n)).shown? ps =
      if label ps = label ks then some (rawAt ks n) else t.shown? ps := by
  have hadopt (x : RawState) : (adopt (rawAt ks n).parent (rawAt ks n).id x).id = x.id ∧
      { adopt (rawAt ks n).parent (rawAt ks n).id x with children := [] } =
        { x with children := [] } := by
    unfold adopt
    split <;> exact ⟨rfl, rfl⟩
  have hid (x : RawState) : (adopt (rawAt ks n).parent (rawAt ks n).id x).id = x.id := (hadopt x).1
  rw [shown?, find?, add, List.find?_append, List.find?_map]
  simp only [Function.comp_def, hid]
  split
  · rename_i heq
    have hnone : t.states.find? (·.id = label ps) = none :=
      List.find?_eq_none.mpr fun x hx hxid =>
        hnew (heq ▸ List.mem_map.mpr ⟨x, hx, by simpa using hxid⟩)
    rw [hnone, heq]
    simp [rawAt]
  · rename_i hne
    rw [List.find?_singleton, if_neg (by simpa [rawAt] using Ne.symm hne), Option.or_none,
      Option.map_map]
    exact congrArg (Option.map · _) (funext fun x => (hadopt x).2)

/-- A descent from the root begins at a state under its first key. -/
theorem descend?_root_cons (key : String) (nest : Nest) (ns : Nests) (k : String) (r : List String) :
    (root ((key, nest) :: ns)).descend? (k :: r) =
      if key = k ∧ nest.isState then nest.descend? r else (root ns).descend? (k :: r) := by
  rw [descend?, descend?, root, root, inside, inside, child?]
  split <;> rfl

mutual

/-- Adding a state shows it and all that descents from it lead to, unless its identifier is taken; it
hides nothing. -/
theorem shown_addNest (around : List String) (key : String) (t : Tree) (nest : Nest)
    (h : t.Plain) (hlevel : t.IsLevel around) (hkey : IsKey key)
    (hnest : ∀ x ∈ positionsAt around key nest, IsKey x.key) :
    (∀ ps, AreKeys ps → (around ++ [key] <+: ps → label (around ++ [key]) ∈ t.ids) →
      (addNest (Position.idOf around) key t nest).shown? ps = t.shown? ps) ∧
    (label (around ++ [key]) ∉ t.ids → ∀ r, (∀ k ∈ r, IsKey k) →
      (addNest (Position.idOf around) key t nest).shown? (around ++ [key] ++ r) =
        (if nest.isState then nest.descend? r else none).map (rawAt (around ++ [key] ++ r))) := by
  have hhere : AreKeys (around ++ [key]) := hlevel.here hkey
  have hnothing (hnot : label (around ++ [key]) ∉ t.ids) (r : List String) (hr : ∀ k ∈ r, IsKey k) :
      t.shown? (around ++ [key] ++ r) = none :=
    shown?_eq_none.mpr (h.not_below hhere hr hnot)
  cases nest with
  | state es inside =>
    rw [positionsAt, List.forall_mem_cons] at hnest
    rw [addNest_state hlevel hkey]
    by_cases htaken : label (around ++ [key]) ∈ t.ids
    · rw [if_pos (has_iff.mpr htaken)]
      exact ⟨fun _ _ _ => rfl, fun hnot => absurd htaken hnot⟩
    · rw [if_neg (fun hhas => htaken (has_iff.mp hhas))]
      have hshown := shown?_add htaken (.state es inside)
      obtain ⟨hold, hnew⟩ := shown_addNests (around ++ [key]) _ inside
        (h.add hlevel hkey (.state es inside)) (hlevel.added hkey _) hnest.2
      refine ⟨fun ps hps hpre => ?_, fun _ r hr => ?_⟩
      · have hapart : ¬ around ++ [key] <+: ps := fun hp => htaken (hpre hp)
        rw [hold ps hps fun k hk => absurd ((List.prefix_append _ _).trans hk) hapart, hshown,
          if_neg fun heq => hapart (label_inj hps hhere heq ▸ List.prefix_rfl)]
      · cases r with
        | nil =>
          rw [List.append_nil, hold _ hhere fun k hk => absurd hk.length_le (by simp), hshown,
            if_pos rfl]
          rfl
        | cons l r =>
          obtain ⟨hl, hr⟩ := List.forall_mem_cons.mp hr
          have hbelow : AreKeys (around ++ [key] ++ [l]) := .append hhere.2 (.singleton hl)
          have hfree : (t.add (rawAt (around ++ [key]) (.state es inside))).shown?
              (around ++ [key] ++ [l]) = none := by
            rw [hshown, if_neg]
            · exact hnothing htaken [l] (by simpa using hl)
            · intro heq
              simpa using congrArg List.length (label_inj hbelow hhere heq)
          rw [hnew l hl (shown?_eq_none.mp hfree) r hr]
          rfl
  | selfContaining => exact ⟨fun _ _ _ => rfl, hnothing⟩
  | malformed => exact ⟨fun _ _ _ => rfl, hnothing⟩

/-- Adding states shows what descents among them lead to, unless the first step is taken. -/
theorem shown_addNests (around : List String) (t : Tree) (ns : List (String × Nest))
    (h : t.Plain) (hlevel : t.IsLevel around) (hns : ∀ x ∈ positionsIn around ns, IsKey x.key) :
    (∀ ps, AreKeys ps → (∀ k, around ++ [k] <+: ps → label (around ++ [k]) ∈ t.ids) →
      (addNests (Position.idOf around) t ns).shown? ps = t.shown? ps) ∧
    (∀ k, IsKey k → label (around ++ [k]) ∉ t.ids → ∀ r, (∀ k ∈ r, IsKey k) →
      (addNests (Position.idOf around) t ns).shown? (around ++ k :: r) =
        ((root ns).descend? (k :: r)).map (rawAt (around ++ k :: r))) := by
  have hcons (k : String) (r : List String) : around ++ k :: r = around ++ [k] ++ r := by simp
  cases ns with
  | nil =>
    refine ⟨fun _ _ _ => rfl, fun k hk hnot r hr => ?_⟩
    rw [addNests, hcons]
    exact shown?_eq_none.mpr (h.not_below (hlevel.here hk) hr hnot)
  | cons n ns =>
    obtain ⟨key, nest⟩ := n
    rw [positionsIn, List.forall_mem_append] at hns
    have hkey : IsKey key := by
      cases nest <;> exact hns.1 _ (.head _)
    obtain ⟨hplain, hids⟩ := plain_addNest around key t nest h hlevel hns.1
    obtain ⟨hold₁, hnew₁⟩ := shown_addNest around key t nest h hlevel hkey hns.1
    obtain ⟨hold₂, hnew₂⟩ := shown_addNests around _ ns hplain (hlevel.mono hids) hns.2
    rw [addNests]
    refine ⟨fun ps hps hpre => ?_, fun k hk hnot r hr => ?_⟩
    · rw [hold₂ ps hps fun k hk => hids _ (hpre k hk), hold₁ ps hps (hpre key)]
    · have hall : AreKeys (around ++ k :: r) :=
        .append hlevel.keys ⟨List.cons_ne_nil k r, List.forall_mem_cons.mpr ⟨hk, hr⟩⟩
      rw [descend?_root_cons]
      by_cases hsame : key = k ∧ nest.isState
      · obtain ⟨rfl, hstate⟩ := hsame
        -- the state is the first under its key, so that later ones find the identifier taken
        have htaken : label (around ++ [key]) ∈ (addNest (Position.idOf around) key t nest).ids := by
          by_contra hmissing
          have hshown := hnew₁ hnot [] (by simp)
          rw [List.append_nil, shown?_eq_none.mpr hmissing, if_pos hstate] at hshown
          cases hshown
        have hfirst (l : String) (hl : around ++ [l] <+: around ++ key :: r) : l = key := by
          obtain ⟨rest, hrest⟩ := hl
          rw [List.append_assoc] at hrest
          exact (List.cons.inj (List.append_cancel_left hrest)).1
        rw [if_pos ⟨rfl, hstate⟩, hold₂ _ hall fun l hl => hfirst l hl ▸ htaken, hcons,
          hnew₁ hnot r hr, if_pos hstate]
      · rw [if_neg hsame]
        refine hnew₂ k hk (shown?_eq_none.mp ?_) r hr
        by_cases hkk : key = k
        · subst hkk
          have hshown := hnew₁ hnot [] (by simp)
          rwa [List.append_nil, if_neg fun hstate => hsame ⟨rfl, hstate⟩] at hshown
        · rw [hold₁ _ (hlevel.here hk), shown?_eq_none.mpr hnot]
          intro hpre
          have heq := hpre.eq_of_length (by simp)
          exact absurd (by simpa using heq) hkk

end

/-- **The flattened states are the ends of descents**, where keys are plain. -/
theorem shown_ofNests {states : Nests} (hkeys : ∀ x ∈ positions states, IsKey x.key)
    (hks : AreKeys ks) : (ofNests states).shown? ks = ((root states).descend? ks).map (rawAt ks) := by
  obtain ⟨k, r, rfl⟩ := List.exists_cons_of_ne_nil hks.1
  obtain ⟨hk, hr⟩ := List.forall_mem_cons.mp hks.2
  exact (shown_addNests [] {} states ⟨nofun, nofun⟩ ⟨nofun, .inl rfl⟩ hkeys).2 k hk nofun r hr

theorem plain_ofNests {states : Nests} (hkeys : ∀ x ∈ positions states, IsKey x.key) :
    (ofNests states).Plain :=
  (plain_addNests [] {} states ⟨nofun, nofun⟩ ⟨nofun, .inl rfl⟩ hkeys).1

theorem known?_ofNests {states : Nests} (hkeys : ∀ x ∈ positions states, IsKey x.key)
    (hks : AreKeys ks) : (ofNests states).known? (label ks) =
      if ((root states).descend? ks).isSome then some (label ks) else none := by
  have hhas : (ofNests states).has (label ks) = ((root states).descend? ks).isSome := by
    have hshown := congrArg Option.isSome (shown_ofNests hkeys hks)
    rwa [shown?, Option.isSome_map, Option.isSome_map] at hshown
  rw [known?, hhas]

/-! ## 5. The way to the root -/

/-- The levels from one level to the root, each with the parent of the one before. -/
inductive Outward (t : Tree) : Option String → List (Option String) → Prop
  | root : Outward t none [none]
  | step {id : String} {s : RawState} {ls : List (Option String)} (hs : t.find? id = some s)
      (h : Outward t s.parent ls) : Outward t (some id) (some id :: ls)

variable {level : Option String} {ls ls' : List (Option String)}

theorem Outward.unique (h : t.Outward level ls) (h' : t.Outward level ls') : ls = ls' := by
  induction h generalizing ls' with
  | root =>
    cases h'
    rfl
  | step hs _ ih =>
    cases h' with
    | step hs' h' =>
      obtain rfl := Option.some.inj (hs.symm.trans hs')
      rw [ih h']

theorem Outward.length_pos (h : t.Outward level ls) : 0 < ls.length := by
  cases h with
  | root => exact Nat.one_pos
  | step => exact Nat.succ_pos _

/-- Who walks to the root has seen all levels, if as many steps are allowed as there are levels. -/
theorem Outward.levels_eq (h : t.Outward level ls) {fuel : ℕ} (hfuel : ls.length ≤ fuel + 1) :
    t.levels fuel level = ls := by
  induction h generalizing fuel with
  | root => cases fuel <;> rfl
  | step hs h ih =>
    have hpos := h.length_pos
    rw [List.length_cons] at hfuel
    obtain ⟨fuel, rfl⟩ : ∃ f, fuel = f + 1 := ⟨fuel - 1, by omega⟩
    rw [levels, hs, Option.bind_some, ih (by omega)]

theorem Sound.find?_of_mem (h : t.Sound) {s : RawState} (hs : s ∈ t.states) :
    t.find? s.id = some s := by
  obtain ⟨x, hx⟩ := Option.isSome_iff_exists.mp (has_iff.mpr (List.mem_map_of_mem hs))
  have hxid : x.id = s.id := by simpa using List.find?_some hx
  rw [hx, List.inj_on_of_nodup_map h.distinct (List.mem_of_find?_eq_some hx) hs hxid]

/-- **Every way out comes to an end**, after at most as many levels as there are states before: parents
stand before their children. -/
theorem Sound.exists_outward (h : t.Sound) {s : RawState} (hs : s ∈ t.states) :
    ∃ ls, t.Outward s.parent ls ∧ ls.length ≤ t.states.length := by
  suffices hall : ∀ before after, t.links = before ++ after → ∀ l ∈ before,
      ∃ ls, t.Outward l.2 ls ∧ ls.length ≤ before.length by
    obtain ⟨ls, hout, hlen⟩ :=
      hall t.links [] (List.append_nil _).symm (s.id, s.parent) (List.mem_map_of_mem hs)
    exact ⟨ls, hout, hlen.trans_eq (List.length_map _)⟩
  intro before
  induction before using List.reverseRecOn with
  | nil => exact fun _ _ _ hl => absurd hl List.not_mem_nil
  | append_singleton before x ih =>
    intro after hlinks l hl
    rw [List.append_assoc] at hlinks
    rw [List.length_append, List.length_singleton]
    rcases List.mem_append.mp hl with hl | hl
    · obtain ⟨ls, hout, hlen⟩ := ih _ hlinks l hl
      exact ⟨ls, hout, by omega⟩
    · obtain rfl := List.mem_singleton.mp hl
      cases hp : l.2 with
      | none => exact ⟨_, .root, Nat.le_add_left ..⟩
      | some parent =>
        obtain ⟨y, hy, rfl⟩ := List.mem_map.mp (h.parent_first before l after hlinks parent hp)
        obtain ⟨ls, hout, hlen⟩ := ih _ hlinks y hy
        have hmem : y ∈ t.links := hlinks ▸ List.mem_append_left _ hy
        obtain ⟨s, hs, rfl⟩ := List.mem_map.mp hmem
        exact ⟨_, .step (h.find?_of_mem hs) hout, Nat.succ_le_succ hlen⟩

/-- The levels around the end of a descent are those it goes through. -/
theorem outward_of_descend {states : Nests} (hkeys : ∀ x ∈ positions states, IsKey x.key)
    (hps : ∀ k ∈ ps, IsKey k) (h : ((root states).descend? ps).isSome) :
    (ofNests states).Outward (Position.idOf ps) (ps.inits.map Position.idOf).reverse := by
  induction ps using List.reverseRecOn with
  | nil => exact .root
  | append_singleton ps k ih =>
    have hall : AreKeys (ps ++ [k]) := ⟨by simp, hps⟩
    obtain ⟨n, hn⟩ := Option.isSome_iff_exists.mp h
    have hshown := shown_ofNests hkeys hall
    rw [hn, Option.map_some] at hshown
    obtain ⟨s, hs, hraw⟩ := Option.map_eq_some_iff.mp hshown
    have hparent : s.parent = Position.idOf ps := by
      simpa [rawAt] using congrArg RawState.parent hraw
    have houter : ((root states).descend? ps).isSome := by
      rw [descend?_append] at h
      exact Option.isSome_of_isSome_bind h
    have hout := ih (fun p hp => hps p (List.mem_append_left _ hp)) houter
    rw [← hparent] at hout
    simpa [List.inits_append, idOf_eq hall] using Outward.step hs hout

end Tree

/-! ## 6. The meaning of targets -/

namespace Nest

/-- Keys lead from the state that other keys lead to on to another state. -/
def Leads (states : Nests) (ps ks : List String) : Prop :=
  ∃ level, (root states).descend? ps = some level ∧ (level.descend? ks).isSome

/-- What a target means for the state that keys lead to: the keys of the state meant. -/
inductive Means (states : Nests) (ps ks : List String) : Option (List String) → Prop
  /-- The descent is possible from the nearest of the levels around the state. -/
  | around {qs : List String} (hqs : qs <+: ps ∧ qs ≠ ps) (hleads : Leads states qs ks)
      (hnearest : ∀ rs, rs <+: ps ∧ rs ≠ ps → Leads states rs ks → rs <+: qs) :
      Means states ps ks (some (qs ++ ks))
  /-- It is possible from none of them, but from the state. -/
  | inside (hnone : ∀ rs, rs <+: ps ∧ rs ≠ ps → ¬ Leads states rs ks) (hleads : Leads states ps ks) :
      Means states ps ks (some (ps ++ ks))
  /-- It is possible from nowhere. -/
  | nothing (hnone : ∀ rs, rs <+: ps → ¬ Leads states rs ks) : Means states ps ks none

variable {states : Nests} {ps qs ks : List String}

theorem leads_iff : Leads states ps ks ↔ ((root states).descend? (ps ++ ks)).isSome := by
  rw [descend?_append, Option.isSome_bind, Option.any_eq_true]
  rfl

/-- What a target means is an end of a descent. -/
theorem Means.isSome (h : Means states ps ks (some qs)) : ((root states).descend? qs).isSome := by
  cases h with
  | around _ hleads _ => exact leads_iff.mp hleads
  | inside _ hleads => exact leads_iff.mp hleads

/-- A target means one thing. -/
theorem Means.unique {found found' : Option (List String)} (h : Means states ps ks found)
    (h' : Means states ps ks found') : found = found' := by
  cases h with
  | around hqs hleads hnearest =>
    cases h' with
    | around hqs' hleads' hnearest' =>
      have hle := (hnearest _ hqs' hleads').length_le
      rw [(hnearest' _ hqs hleads).eq_of_length_le hle]
    | inside hnone => exact absurd hleads (hnone _ hqs)
    | nothing hnone => exact absurd hleads (hnone _ hqs.1)
  | inside hnone hleads =>
    cases h' with
    | around hqs' hleads' => exact absurd hleads' (hnone _ hqs')
    | inside => rfl
    | nothing hnone' => exact absurd hleads (hnone' _ List.prefix_rfl)
  | nothing hnone =>
    cases h' with
    | around hqs' hleads' => exact absurd hleads' (hnone _ hqs'.1)
    | inside _ hleads' => exact absurd hleads' (hnone _ List.prefix_rfl)
    | nothing => rfl

end Nest

namespace Tree

open Nest

variable {states : Nests} {ps qs ks : List String}

theorem known?_below (hkeys : ∀ x ∈ positions states, IsKey x.key) (hqs : ∀ k ∈ qs, IsKey k)
    (hks : AreKeys ks) :
    (Leads states qs ks →
      (ofNests states).known? (idBelow (Position.idOf qs) (label ks)) = some (label (qs ++ ks))) ∧
    (¬ Leads states qs ks →
      (ofNests states).known? (idBelow (Position.idOf qs) (label ks)) = none) := by
  rw [idBelow_idOf hqs hks.1, known?_ofNests hkeys (.append hqs hks), leads_iff]
  exact ⟨fun h => if_pos h, fun h => if_neg h⟩

/-- The search through the levels, innermost first, stops at the nearest one that the descent is possible
from. -/
theorem findSome?_levels (hkeys : ∀ x ∈ positions states, IsKey x.key) (hqs : ∀ k ∈ qs, IsKey k)
    (hks : AreKeys ks) :
    let found := (qs.inits.map Position.idOf).reverse.findSome? fun level =>
      (ofNests states).known? (idBelow level (label ks))
    (∃ rs, rs <+: qs ∧ Leads states rs ks ∧ (∀ us, us <+: qs → Leads states us ks → us <+: rs) ∧
        found = some (label (rs ++ ks))) ∨
      (∀ us, us <+: qs → ¬ Leads states us ks) ∧ found = none := by
  dsimp only
  induction qs using List.reverseRecOn with
  | nil =>
    obtain ⟨hyes, hno⟩ := known?_below hkeys hqs hks
    rw [List.inits, List.map_singleton, List.reverse_singleton, List.findSome?_singleton]
    by_cases hleads : Leads states [] ks
    · exact .inl ⟨[], List.prefix_rfl, hleads, fun _ hus _ => hus, hyes hleads⟩
    · exact .inr ⟨fun us hus => List.prefix_nil.mp hus ▸ hleads, hno hleads⟩
  | append_singleton qs k ih =>
    obtain ⟨hyes, hno⟩ := known?_below hkeys hqs hks
    have hlist : ((qs ++ [k]).inits.map Position.idOf).reverse =
        Position.idOf (qs ++ [k]) :: (qs.inits.map Position.idOf).reverse := by
      simp [List.inits_append]
    rw [hlist]
    by_cases hleads : Leads states (qs ++ [k]) ks
    · rw [List.findSome?_cons, hyes hleads]
      exact .inl ⟨_, List.prefix_rfl, hleads, fun _ hus _ => hus, rfl⟩
    · rw [List.findSome?_cons, hno hleads]
      have hsmaller {us : List String} (hus : us <+: qs ++ [k]) (h : Leads states us ks) : us <+: qs :=
        (List.prefix_concat_iff.mp hus).resolve_left fun heq => hleads (heq ▸ h)
      rcases ih fun q hq => hqs q (List.mem_append_left _ hq) with ⟨rs, hrs, hl, hnear, hf⟩ | ⟨hnone, hf⟩
      · exact .inl ⟨rs, hrs.trans (List.prefix_append _ _), hl,
          fun us hus h => hnear us (hsmaller hus h) h, hf⟩
      · exact .inr ⟨fun us hus h => hnone us (hsmaller hus h) h, hf⟩

/-- A state stands at the end of a descent. -/
theorem exists_descent (hkeys : ∀ x ∈ positions states, IsKey x.key) {s : RawState}
    (hs : s ∈ (ofNests states).states) :
    ∃ ps n, AreKeys ps ∧ (root states).descend? ps = some n ∧
      { s with children := [] } = rawAt ps n := by
  obtain ⟨ps, hps, hid⟩ := (plain_ofNests hkeys).labelled s.id (List.mem_map_of_mem hs)
  have hshown := shown_ofNests hkeys hps
  rw [shown?, ← hid, (sound_ofNests states).find?_of_mem hs, Option.map_some] at hshown
  obtain ⟨n, hn, hraw⟩ := Option.map_eq_some_iff.mp hshown.symm
  exact ⟨ps, n, hps, hn, hraw.symm⟩

/-- The search for a relative target, as seen from the end of a descent. -/
theorem resolve?_relative {s : RawState} {key : String} (hs : s ∈ (ofNests states).states)
    (hps : AreKeys (ps ++ [key])) (hid : s.id = label (ps ++ [key]))
    (hout : (ofNests states).Outward s.parent (ps.inits.map Position.idOf).reverse) (hks : AreKeys ks)
    (hrelative : (label ks).toList.head? ≠ some '#') :
    (ofNests states).resolve? s.id (label ks) =
      ((ps.inits.map Position.idOf).reverse.findSome? fun level =>
        (ofNests states).known? (idBelow level (label ks))).or
          ((ofNests states).known? (label (ps ++ [key] ++ ks))) := by
  have hsound := sound_ofNests states
  have habsolute : absolute? (label ks) = none := by
    unfold absolute? afterStart?
    refine if_neg fun hstart => hrelative ?_
    obtain ⟨rest, hrest⟩ := List.isPrefixOf_iff_prefix.mp hstart
    rw [← hrest]
    rfl
  obtain ⟨ls, hls, hlen⟩ := hsound.exists_outward hs
  rw [resolve?, habsolute, hsound.find?_of_mem hs]
  dsimp only [Option.bind_some]
  rw [hls.levels_eq (by omega), hls.unique hout, hid, label_append hps.1 hks.1]
  cases (ps.inits.map Position.idOf).reverse.findSome? _ <;> rfl

/-- The proper prefixes of a list with a last item. -/
theorem prefix_concat_ne_iff {us : List String} {key : String} :
    us <+: ps ++ [key] ∧ us ≠ ps ++ [key] ↔ us <+: ps := by
  rw [List.prefix_concat_iff]
  constructor
  · exact fun ⟨hus, hne⟩ => hus.resolve_left hne
  · exact fun hus => ⟨.inr hus, fun heq => absurd hus.length_le (by simp [heq])⟩

/-- The search finds what the target means. -/
theorem exists_means (hkeys : ∀ x ∈ positions states, IsKey x.key) {key : String}
    (hps : AreKeys (ps ++ [key])) (hks : AreKeys ks) :
    ∃ found, Means states (ps ++ [key]) ks found ∧ (∀ qs ∈ found, AreKeys qs) ∧
      ((ps.inits.map Position.idOf).reverse.findSome? fun level =>
        (ofNests states).known? (idBelow level (label ks))).or
          ((ofNests states).known? (label (ps ++ [key] ++ ks))) = found.map label := by
  have hlevels : ∀ k ∈ ps, IsKey k := fun k hk => hps.2 k (List.mem_append_left _ hk)
  rcases findSome?_levels hkeys hlevels hks with ⟨rs, hrs, hleads, hnear, hfound⟩ | ⟨hnone, hfound⟩
  · refine ⟨some (rs ++ ks), .around (prefix_concat_ne_iff.mpr hrs) hleads
      fun us hus => hnear us (prefix_concat_ne_iff.mp hus), fun qs hqs => ?_, by rw [hfound]; rfl⟩
    obtain rfl := Option.some.inj hqs
    exact .append (fun k hk => hlevels k (hrs.subset hk)) hks
  · obtain ⟨hyes, hno⟩ := known?_below hkeys hps.2 hks
    rw [idBelow_idOf hps.2 hks.1] at hyes hno
    rw [hfound]
    by_cases hleads : Leads states (ps ++ [key]) ks
    · refine ⟨some (ps ++ [key] ++ ks), .inside
        (fun us hus => hnone us (prefix_concat_ne_iff.mp hus)) hleads, fun qs hqs => ?_, hyes hleads⟩
      obtain rfl := Option.some.inj hqs
      exact .append hps.2 hks
    · refine ⟨none, .nothing fun us hus => ?_, nofun, hno hleads⟩
      rcases List.prefix_concat_iff.mp hus with rfl | hus
      · exact hleads
      · exact hnone us hus

/-- **A target means what its keys lead to from the nearest level around the state, or else from the
state itself.**  Every state stands at the end of a descent; the way from it to the root comes to an
end, so that no limit on the search makes a difference; and a target that is not absolute is resolved
to what it means there. -/
theorem resolves_lexically (hkeys : ∀ x ∈ positions states, IsKey x.key) {s : RawState}
    (hs : s ∈ (ofNests states).states) :
    ∃ ps n, AreKeys ps ∧ (root states).descend? ps = some n ∧
      { s with children := [] } = rawAt ps n ∧
      (∃ ls, (ofNests states).Outward s.parent ls ∧
        ∀ fuel, (ofNests states).states.length ≤ fuel → (ofNests states).levels fuel s.parent = ls) ∧
      ∀ ks, AreKeys ks → (label ks).toList.head? ≠ some '#' →
        ∃ found, (∀ other, Means states ps ks other ↔ other = found) ∧
          (ofNests states).resolve? s.id (label ks) = found.map label ∧
          ∀ qs ∈ found, (ofNests states).shown? qs = ((root states).descend? qs).map (rawAt qs) ∧
            ((ofNests states).shown? qs).isSome := by
  obtain ⟨ps, n, hps, hn, hraw⟩ := exists_descent hkeys hs
  obtain ⟨ls, hls, hlen⟩ := (sound_ofNests states).exists_outward hs
  refine ⟨ps, n, hps, hn, hraw, ⟨ls, hls, fun fuel hfuel => hls.levels_eq (by omega)⟩, ?_⟩
  intro ks hks hrelative
  obtain ⟨around, key, rfl⟩ := List.eq_nil_or_concat ps |>.resolve_left hps.1
  rw [List.concat_eq_append] at *
  have hparent : s.parent = Position.idOf around := by
    simpa [rawAt] using congrArg RawState.parent hraw
  have houter : ((root states).descend? around).isSome := by
    rw [descend?_append] at hn
    exact Option.isSome_of_isSome_bind (Option.isSome_of_mem hn)
  have hout : (ofNests states).Outward s.parent (around.inits.map Position.idOf).reverse :=
    hparent ▸ outward_of_descend hkeys (fun k hk => hps.2 k (List.mem_append_left _ hk)) houter
  obtain ⟨found, hmeans, hfoundKeys, hfound⟩ := exists_means hkeys hps hks
  refine ⟨found, fun other => ⟨fun h => h.unique hmeans, fun h => h ▸ hmeans⟩, ?_, fun qs hqs => ?_⟩
  · rw [resolve?_relative hs hps (congrArg RawState.id hraw) hout hks hrelative, hfound]
  · have hshown := shown_ofNests hkeys (hfoundKeys qs hqs)
    obtain rfl := hqs
    rw [hshown, Option.isSome_map]
    exact ⟨rfl, hmeans.isSome⟩

/-- A name that stands at every level: in the root, in `a` and in `a.x`. -/
def shadowingFlow : Value :=
  .record [("states", .record [
    ("a", .record [("states", .record [
      ("b", .record []),
      ("x", .record [("states", .record [("b", .record []), ("own", .record [])])])])]),
    ("b", .record [])])]

/-- The nearest level around a state comes first, then the further ones, and its own states last. -/
theorem resolves_lexically_shadowing :
    let states := (FlowSource.ofValue shadowingFlow).states
    ∃ s ∈ (ofNests states).states, s.id = "a.x" ∧
      ∃ b own missing, Means states ["a", "x"] ["b"] b ∧ b.map label = some "a.b" ∧
        Means states ["a", "x"] ["own"] own ∧ own.map label = some "a.x.own" ∧
        Means states ["a", "x"] ["own", "b"] missing ∧ missing.map label = none := by
  intro states
  have hkeys : ∀ x ∈ positions states, IsKey x.key := by decide +kernel
  obtain ⟨s, hs, hid⟩ : ∃ s ∈ (ofNests states).states, s.id = "a.x" := by decide +kernel
  obtain ⟨ps, n, hps, -, hraw, -, hmeans⟩ := resolves_lexically hkeys hs
  have hlabel : label ps = label ["a", "x"] := (congrArg RawState.id hraw).symm.trans hid
  obtain rfl := label_inj hps (by decide +kernel) hlabel
  obtain ⟨b, hb, hbfound, -⟩ := hmeans ["b"] (by decide +kernel) (by decide +kernel)
  obtain ⟨own, hown, hownfound, -⟩ := hmeans ["own"] (by decide +kernel) (by decide +kernel)
  obtain ⟨missing, hmissing, hmissingfound, -⟩ := hmeans ["own", "b"] (by decide +kernel) (by decide +kernel)
  rw [hid] at hbfound hownfound hmissingfound
  refine ⟨s, hs, hid, b, own, missing, (hb b).mpr rfl, ?_, (hown own).mpr rfl, ?_,
    (hmissing missing).mpr rfl, ?_⟩
  · rw [← hbfound]
    decide +kernel
  · rw [← hownfound]
    decide +kernel
  · rw [← hmissingfound]
    decide +kernel

end Tree

end Statechart
