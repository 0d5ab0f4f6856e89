/-
# What an action declares

An action says beforehand where it will write (`BoundAction.writes`), and what is known of a flow without
running it rests on that.  What it says is read off its parameters when it is bound; where it writes is
read off them again when it runs.  This file compares the two: the place of every target that is named
by a text is declared, so a path that parts from all declared ones reads after the action what it read
before.

Two things get in the way, both in lists.  A write by a key makes a mapping of a list (`Proofs/Frame.lean`);
and when an item is taken out of a list, the later ones move up, so that their paths read what the next
ones did.

* `Path.Parts`: paths that differ at a position which both have, however an index is spelled;
* `Value.Keeps`, `Value.keeps_written`: what survives any number of writes elsewhere;
* `Value.MovesUp`, `Value.atD_remove`: what a removal leaves alone, and what it moves;
* **`BoundAction.reads_of_apply`**: what a bound action leaves alone;
* `BoundAction.undeclared_of_apply`: where the bare comparison of paths does not tell.
-/
import Statechart.Proofs.Frame
import Statechart.Proofs.Target

namespace Statechart

/-! ## 1. Paths that part -/

/-- Segments that lead to different places of any container: they have different names, and no position
in common. -/
def Segment.Parts (s t : Segment) : Prop :=
  s.name ≠ t.name ∧ ∀ i, s.position? = some i → t.position? ≠ some i

theorem Segment.Parts.differs {s t : Segment} (h : s.Parts t) : s.Differs t :=
  ⟨h.1, fun i hi => h.2 i (by rw [hi]; rfl)⟩

/-- Paths that part: neither leads to the other's place, or below it. -/
def Path.Parts : Path → Path → Prop
  | s :: p, t :: q => s.Parts t ∨ Parts p q
  | _, _ => False

instance (s t : Segment) : Decidable (s.Parts t) :=
  inferInstanceAs (Decidable (s.name ≠ t.name ∧ ∀ i ∈ s.position?, t.position? ≠ some i))

instance Path.decidableParts : (p q : Path) → Decidable (Path.Parts p q)
  | [], _ => isFalse (by cases ·)
  | _ :: _, [] => isFalse id
  | s :: p, t :: q =>
    have := Path.decidableParts p q
    inferInstanceAs (Decidable (s.Parts t ∨ Path.Parts p q))

theorem Path.parts_singleton {s t : Segment} {q : Path} : Path.Parts [s] (t :: q) ↔ s.Parts t :=
  or_iff_left (by cases q <;> exact id)

theorem Path.Parts.apart {p q : Path} (h : Path.Parts p q) : Path.Apart p q := by
  induction p generalizing q with
  | nil => cases h
  | cons s p ih =>
    cases q with
    | nil => cases h
    | cons t q => exact Path.apart_cons.mpr (h.imp Segment.Parts.differs ih)

theorem Segment.ReadsForward.writesForward {s : Segment} (h : s.ReadsForward) : s.WritesForward :=
  fun i hi => h i (by rw [hi]; rfl)

theorem Path.ReadsForward.writesForward {p : Path} (h : p.ReadsForward) : p.WritesForward :=
  fun s hs => (h s hs).writesForward

/-! ## 2. Writes elsewhere -/

namespace Value

/-- A value is a list. -/
def IsList (v : Value) : Prop := ∃ vs, v = .list vs

/-- Two values read the same at a path, and are lists at the same places on the way. -/
def Matches (d d' : Value) : Path → Prop
  | [] => d' = d
  | s :: p => (d.IsList ↔ d'.IsList) ∧ (d.stepD s).Matches (d'.stepD s) p

/-- A path reads in a new value what it read in an old one: null, or a value to which the same lists
lead. -/
def Keeps (q : Path) (d d' : Value) : Prop := (d.atD q = .null ∧ d'.atD q = .null) ∨ d.Matches d' q

theorem matches_self (d : Value) (q : Path) : d.Matches d q := by
  induction q generalizing d with
  | nil => exact Eq.refl d
  | cons s q ih => exact ⟨Iff.rfl, ih _⟩

theorem Matches.atD_eq {d d' : Value} {q : Path} (h : d.Matches d' q) : d'.atD q = d.atD q := by
  induction q generalizing d d' with
  | nil => exact h
  | cons s q ih =>
    rw [atD_cons, atD_cons]
    exact ih h.2

theorem Keeps.atD_eq {d d' : Value} {q : Path} (h : Keeps q d d') : d'.atD q = d.atD q := by
  rcases h with ⟨hd, hd'⟩ | h
  · rw [hd, hd']
  · exact h.atD_eq

section

variable {d d' : Value} {s t : Segment} {p q : Path}

/-- A list is still one after an item has been renewed, and nothing else becomes one but null. -/
theorem isList_refill (hc : ¬ d.Clashes s) (hnull : d ≠ .null) (x : Value) :
    (d.refill s x).IsList ↔ d.IsList := by
  cases hd : d.indexed? s with
  | some found =>
    obtain ⟨vs, i⟩ := found
    rw [refill_of_some hd]
    obtain ⟨-, rfl | ⟨rfl, -⟩⟩ := indexed?_eq_some hd
    · exact ⟨fun _ => ⟨_, rfl⟩, fun _ => ⟨_, rfl⟩⟩
    · exact absurd rfl hnull
  | none =>
    rw [refill_of_none hd]
    constructor
    · rintro ⟨vs, hvs⟩
      cases hvs
    · rintro ⟨vs, hvs⟩
      exact absurd (clashes_of_indexed?_eq_none hd hvs) hc

/-- Which segments meet is a matter of what is a list. -/
theorem meets_of_isList_iff (hlists : d.IsList ↔ d'.IsList) (hd : d ≠ .null) (hd' : d' ≠ .null)
    (h : d'.Meets s t) : d.Meets s t := by
  unfold Meets at h ⊢
  cases hfound : d'.indexed? s with
  | some found =>
    obtain ⟨vs, i⟩ := found
    rw [hfound] at h
    obtain ⟨rfl, hvs | ⟨hnull, -⟩⟩ := indexed?_eq_some hfound
    · obtain ⟨ws, rfl⟩ := hlists.mpr ⟨vs, hvs⟩
      exact h
    · exact absurd hnull hd'
  | none =>
    rw [hfound] at h
    cases hold : d.indexed? s with
    | none => exact h
    | some found =>
      obtain ⟨vs, i⟩ := found
      obtain ⟨rfl, hvs | ⟨hnull, -⟩⟩ := indexed?_eq_some hold
      · obtain ⟨ws, rfl⟩ := hlists.mp ⟨vs, hvs⟩
        cases hfound
      · exact absurd hnull hd

theorem ne_null_of_atD {d : Value} {q : Path} (h : d.atD q ≠ .null) : d ≠ .null := by
  rintro rfl
  exact h (atD_null q)

/-- **What has been kept is kept by a write elsewhere**, if no key of its path came upon a list at
first. -/
theorem keeps_written (hp : p.WritesForward) (hq : q.ReadsForward) (hapart : Path.Apart p q)
    (hlist : ¬ d.KeyOnList p) (v : Value) (h : Keeps q d d') : Keeps q d (d'.written p v) := by
  induction p generalizing d d' q with
  | nil =>
    obtain ⟨n, s, t, hs, -⟩ := hapart
    cases hs
  | cons s p ih =>
    have hnext := atD_written hp hq hapart d' v
    by_cases hnull : d'.atD q = .null
    · -- what reads null goes on to do so, whatever becomes of the way
      exact .inl ⟨h.atD_eq.symm.trans hnull, hnext.elim (·.trans hnull) And.right⟩
    · have hmatches : d.Matches d' q := h.resolve_left fun hnulls => hnull hnulls.2
      cases q with
      | nil =>
        obtain ⟨n, s, t, -, ht, -⟩ := hapart
        cases ht
      | cons t q =>
        obtain ⟨hs, hp⟩ := List.forall_mem_cons.mp hp
        obtain ⟨ht, hq⟩ := List.forall_mem_cons.mp hq
        obtain ⟨hlists, hbelow⟩ := hmatches
        have hd' : d' ≠ .null := ne_null_of_atD hnull
        have hd : d ≠ .null := ne_null_of_atD (q := t :: q) (h.atD_eq ▸ hnull)
        have hclash : ¬ d.Clashes s := fun hc => hlist (keyOnList_cons.mpr (.inl hc))
        have hclash' : ¬ d'.Clashes s := by
          rintro ⟨a, vs, rfl, rfl⟩
          obtain ⟨ws, rfl⟩ := hlists.mpr ⟨vs, rfl⟩
          exact hclash ⟨a, ws, rfl, rfl⟩
        have hrefill := (hlists.trans (isList_refill hclash' hd' ((d'.slot s).written p v)).symm)
        rw [written]
        by_cases hm : d'.Meets s t
        · have hmeets : d.Meets s t := meets_of_isList_iff hlists hd hd' hm
          have hsame : d.stepD s = d.stepD t := by
            rw [stepD_of_meets hs hclash hmeets, slot_eq_stepD hs hclash]
          have hkey : ¬ (d.stepD t).KeyOnList p := fun hk =>
            hlist (keyOnList_of_stepD (hsame ▸ hk))
          have hpq : Path.Apart p q := (Path.apart_cons.mp hapart).resolve_left (not_differs_of_meets hm)
          have hslot : d'.slot s = d'.stepD t := (stepD_of_meets hs hclash' hm).symm
          have hkept := ih hp hq hpq hkey (Or.inr hbelow)
          rw [hslot] at hrefill ⊢
          refine hkept.imp (fun hnulls => ?_) fun hmatch => ⟨hrefill, ?_⟩
          · rw [atD_cons, atD_cons, stepD_refill_of_meets hs hm]
            exact hnulls
          · rw [stepD_refill_of_meets hs hm]
            exact hmatch
        · refine .inr ⟨hrefill, ?_⟩
          rw [stepD_refill_of_not_meets hs ht hclash' hm]
          exact hbelow

/-! ## 3. Removals -/

/-- A path leads to a later item of the list out of which another one takes an item, or on from there;
the third path leads the same way from the item after it. -/
inductive MovesUp : Value → Path → Path → Path → Prop
  | item {vs : List Value} {s t : Segment} {q : Path} {i j : Int} (hs : s.position? = some i)
    (ht : t.position? = some j) (hlt : i < j) :
    MovesUp (.list vs) [s] (t :: q) (.index (j + 1) :: q)
  | onward {d : Value} {s t : Segment} {p q q' : Path} (hsame : ¬ s.Parts t)
    (h : (d.stepD t).MovesUp p q q') : MovesUp d (s :: p) (t :: q) (t :: q')

theorem offset?_of_nonneg {n : Nat} {i : Int} {k : Nat} (h : offset? n i = some k) (hi : 0 ≤ i) :
    k = i.toNat ∧ k < n := by
  rw [offset?, if_pos hi] at h
  split at h
  · cases h
    exact ⟨rfl, by omega⟩
  · cases h

/-- A step that finds something in a list finds it at a position. -/
theorem exists_offset_of_step? {vs : List Value} {w : Value} (h : (list vs).step? s = some w) :
    ∃ i k, s.position? = some i ∧ offset? vs.length i = some k ∧ vs[k]? = some w := by
  obtain ⟨i, hi, h⟩ := Option.bind_eq_some_iff.mp h
  obtain ⟨k, hk, h⟩ := Option.bind_eq_some_iff.mp h
  exact ⟨i, k, hi, hk, h⟩

/-- What a removal below an item that both paths lead to does to one of them, it does from above. -/
theorem onward_of_without {w : Value} (hsame : ¬ s.Parts t) (hstep : d.stepD t = w)
    (h : (w.without p).atD q = w.atD q ∨
      ∃ q', w.MovesUp p q q' ∧ (w.without p).atD q = w.atD q') :
    (w.without p).atD q = w.atD q ∨
      ∃ q', d.MovesUp (s :: p) (t :: q) q' ∧ (w.without p).atD q = d.atD q' := by
  refine h.imp_right ?_
  rintro ⟨q', hq', heq⟩
  exact ⟨t :: q', .onward hsame (hstep.symm ▸ hq'), by rw [heq, atD_cons, hstep]⟩

/-- An item taken out of a list leaves the ones before it in place, and each later one moves up. -/
theorem atD_eraseIdx {vs : List Value} {i j : Int} (hi : s.position? = some i)
    (hj : t.position? = some j) (hi0 : 0 ≤ i) (hj0 : 0 ≤ j) (hne : i ≠ j) :
    (list (vs.eraseIdx i.toNat)).atD (t :: q) = (list vs).atD (t :: q) ∨
      ∃ q', (list vs).MovesUp [s] (t :: q) q' ∧
        (list (vs.eraseIdx i.toNat)).atD (t :: q) = (list vs).atD q' := by
  rw [atD_cons, atD_cons, stepD_list hj hj0, stepD_list hj hj0, List.getElem?_eraseIdx]
  split
  · exact .inl rfl
  · have hj1 : (j + 1).toNat = j.toNat + 1 := by omega
    refine .inr ⟨_, .item hi hj (by omega), ?_⟩
    rw [atD_cons, stepD_list (j := j + 1) rfl (by omega), hj1]

/-- Nothing is read of a list by a name that is no position, whatever has become of its items. -/
theorem atD_list_of_none (hj : t.position? = none) (vs : List Value) :
    (list vs).atD (t :: q) = .null := by
  rw [atD_cons, stepD_list_of_none hj, atD_null]

/-- **A removal leaves alone what its path parts from**, but for the later items of the list that it takes
an item out of. -/
theorem atD_without (hp : p.ReadsForward) (hq : q.ReadsForward) (hparts : p.Parts q)
    (h : d.hasPath p) :
    (d.without p).atD q = d.atD q ∨ ∃ q', d.MovesUp p q q' ∧ (d.without p).atD q = d.atD q' := by
  induction p generalizing d q with
  | nil => cases hparts
  | cons s p ih =>
    cases q with
    | nil => cases hparts
    | cons t q =>
      obtain ⟨hs, hp⟩ := List.forall_mem_cons.mp hp
      obtain ⟨ht, hq⟩ := List.forall_mem_cons.mp hq
      obtain ⟨u, hu⟩ := Option.isSome_iff_exists.mp h
      obtain ⟨w, hw, hat⟩ := Option.bind_eq_some_iff.mp hu
      -- below an item that both lead to, the rests of the paths part
      have hbelow (hsame : ¬ s.Parts t) :=
        ih hp hq (hparts.resolve_left hsame) (Option.isSome_iff_exists.mpr ⟨u, hat⟩)
      cases d with
      | dict es =>
        have hlookup : Entries.lookup s.name es = some w := hw
        cases p with
        | nil =>
          have hname : t.name ≠ s.name := (Path.parts_singleton.mp hparts).1.symm
          rw [atD_cons, atD_cons, without, stepD_dict, stepD_dict, Entries.lookup_erase_ne es hname]
          exact .inl rfl
        | cons r p =>
          have hwithout : (dict es).without (s :: r :: p) =
              .dict (Entries.insert s.name (w.without (r :: p)) es) := by
            simp only [without, hlookup]
          rw [atD_cons, hwithout, stepD_dict, atD_cons, stepD_dict]
          by_cases hname : t.name = s.name
          · have hsame : ¬ s.Parts t := fun hne => hne.1 hname.symm
            have hstep : (dict es).stepD t = w := by rw [stepD_dict, hname, hlookup, Option.getD_some]
            rw [hname, Entries.lookup_insert_self, Option.getD_some, hlookup, Option.getD_some]
            exact onward_of_without hsame hstep (hbelow hsame)
          · rw [Entries.lookup_insert_ne _ es hname]
            exact .inl rfl
      | list vs =>
        obtain ⟨i, k, hi, hk, hitem⟩ := exists_offset_of_step? hw
        have hi0 : 0 ≤ i := hs i hi
        obtain ⟨rfl, hlt⟩ := offset?_of_nonneg hk hi0
        have hbind : s.position?.bind (offset? vs.length) = some i.toNat := by rw [hi]; exact hk
        have hwithout : ∃ ws, (list vs).without (s :: p) = .list ws := by
          cases p <;> exact ⟨_, by simp only [without, hbind]; rfl⟩
        cases hj : t.position? with
        | none =>
          obtain ⟨ws, hws⟩ := hwithout
          rw [hws, atD_list_of_none hj, atD_list_of_none hj]
          exact .inl rfl
        | some j =>
          have hj0 : 0 ≤ j := ht j hj
          cases p with
          | nil =>
            have hne : i ≠ j := fun heq => (Path.parts_singleton.mp hparts).2 i hi (heq ▸ hj)
            have herase : (list vs).without [s] = .list (vs.eraseIdx i.toNat) := by
              simp only [without, hbind]
            rw [herase]
            exact atD_eraseIdx hi hj hi0 hj0 hne
          | cons r p =>
            have hset : (list vs).without (s :: r :: p) =
                .list (vs.set i.toNat (w.without (r :: p))) := by
              simp only [without, hbind, hitem, Option.getD_some]
            rw [hset, atD_cons, atD_cons, stepD_list hj hj0, stepD_list hj hj0]
            by_cases hij : i = j
            · subst hij
              have hsame : ¬ s.Parts t := fun hne => hne.2 i hi hj
              have hstep : (list vs).stepD t = w := by rw [stepD_list hj hj0, hitem, Option.getD_some]
              rw [List.getElem?_set_self hlt, hitem, Option.getD_some, Option.getD_some]
              exact onward_of_without hsame hstep (hbelow hsame)
            · have hne : i.toNat ≠ j.toNat := by omega
              rw [List.getElem?_set_ne hne]
              exact .inl rfl
      | _ => cases hw

theorem atD_remove (hp : p.ReadsForward) (hq : q.ReadsForward) (hparts : p.Parts q) (d : Value) :
    (d.remove p).atD q = d.atD q ∨ ∃ q', d.MovesUp p q q' ∧ (d.remove p).atD q = d.atD q' := by
  unfold remove
  split
  · rename_i h
    exact atD_without hp hq hparts h
  · exact .inl rfl

end

end Value

/-! ## 4. What is declared -/

/-- A path inside the context that an action says it writes. -/
def BoundAction.Declares (a : BoundAction) (p : Path) : Prop :=
  ∃ rest, "context." ++ rest ∈ a.writes ∧ Path.parse rest = .ok p

/-- The places that an action writes are named by texts, or by the keys of a mapping. -/
def BoundAction.NamesTexts (a : BoundAction) : Prop :=
  a.spec = BuiltinAction.mapResult.spec ∨ ∀ t ∈ a.targets, ∃ s, t = .text s

namespace Action

variable {flow unused params : Entries} {catalogue : String → Option ActionSpec} {ref t : Value}
  {a : BoundAction} {b : BuiltinAction} {path : String} {p : Path}

theorem bindSpec_eq_ok {spec : ActionSpec} (h : bindSpec spec params = .ok a) :
    a.spec = spec ∧ a.params = params ∧ a.writes = distinctSorted (writes spec params) := by
  unfold bindSpec at h
  dsimp only at h
  split at h
  · split at h
    · cases h
    · cases h
      exact ⟨rfl, rfl, rfl⟩
  · cases h

/-- Whatever way a reference goes, it ends with a specification and parameters. -/
theorem exists_bindSpec_of_bindFrom (h : bindFrom flow catalogue unused ref = .ok a) :
    ∃ spec params, bindSpec spec params = .ok a := by
  fun_induction bindFrom flow catalogue unused ref with
  | case1 _ es name =>
    obtain ⟨spec, -, h⟩ := bind_eq_ok.mp h
    exact ⟨spec, _, h⟩
  | case4 _ s _ _ _ _ ih => exact ih h
  | case6 _ s =>
    obtain ⟨spec, -, h⟩ := bind_eq_ok.mp h
    obtain ⟨params, -, h⟩ := bind_eq_ok.mp h
    exact ⟨spec, params, h⟩
  | _ => cases h

theorem beginsWith_of_mem_writes (h : bind flow catalogue ref = .ok a) {w : String}
    (hw : w ∈ a.writes) : beginsWith "context." w = true := by
  obtain ⟨spec, params, hbound⟩ := exists_bindSpec_of_bindFrom h
  obtain ⟨-, -, hwrites⟩ := bindSpec_eq_ok hbound
  rw [hwrites] at hw
  exact bindSpec_writes hbound w (mem_distinctSorted.mp hw)

theorem mem_writes_of_target (h : bind flow catalogue ref = .ok a) (hspec : a.spec = b.spec)
    (htexts : a.NamesTexts) (ht : t ∈ a.targets) : qualified t.display ∈ a.writes := by
  obtain ⟨spec, params, hbound⟩ := exists_bindSpec_of_bindFrom h
  obtain ⟨rfl, rfl, hwrites⟩ := bindSpec_eq_ok hbound
  rw [hwrites, mem_distinctSorted, hspec]
  rw [BoundAction.targets_eq hspec] at ht
  refine BuiltinAction.qualified_mem_writes ht (htexts.imp (fun hmap => ?_) fun htext => ?_)
  · rw [hspec] at hmap
    exact ActionCode.builtin.inj ((b.spec_code.symm.trans (congrArg ActionSpec.code hmap)).trans
      (BuiltinAction.spec_code _))
  · exact htext t (BoundAction.targets_eq hspec ▸ ht)

/-- **The place of a target is declared.** -/
theorem declares_of_target (h : bind flow catalogue ref = .ok a) (hspec : a.spec = b.spec)
    (htexts : a.NamesTexts) (ht : t ∈ a.targets) (hpath : contextPath t = .ok path)
    (hp : Path.parse path = .ok p) : a.Declares p := by
  have hwrite := mem_writes_of_target h hspec htexts ht
  obtain ⟨s, hs, hsplit⟩ := bind_eq_ok.mp hpath
  have hdisplay : t.display = s := by
    unfold Value.asText Value.shown at hs
    split at hs <;> cases hs
    rfl
  have hscope : splitScope s = (.context, path) := by
    split at hsplit
    · rename_i rest hrest
      cases hsplit
      exact hrest
    · cases hsplit
  rw [hdisplay] at hwrite
  by_cases hempty : path = ""
  · -- then the whole context would be declared, which is refused
    have hbegins := beginsWith_of_mem_writes h hwrite
    have hwhole : qualified s = "context" := by
      rw [qualified, hscope, hempty]
      rfl
    rw [hwhole] at hbegins
    cases hbegins
  · rw [qualified_of_splitScope hscope hempty] at hwrite
    exact ⟨path, hwrite, hp⟩

end Action

section Reading

variable {flow : Entries} {catalogue : String → Option ActionSpec} {ref context event context' : Value}
  {a : BoundAction} {b : BuiltinAction} {q : Path}

/-- What is stored at a declared place keeps what is read elsewhere. -/
theorem Value.storesKeep_of_declares {t : Value} (hq : q.ReadsForward)
    (ht : ∀ path p, contextPath t = .ok path → Path.parse path = .ok p →
      p.ReadsForward ∧ p.Parts q ∧ ¬ context.KeyOnList p) : t.StoresKeep (context.Keeps q ·) := by
  intro path d v w hpath hd h
  obtain ⟨p, hparse, h⟩ := bind_eq_ok.mp h
  obtain ⟨hp, hparts, hlist⟩ := ht path p hpath (mapError_eq_ok.mp (mapError_eq_ok.mp hparse))
  rw [put?_eq hp.writesForward] at h
  cases h
  exact keeps_written hp.writesForward hq hparts.apart hlist v hd

end Reading

/-! ## 5. Examples -/

/-- The built-in actions under their names. -/
def BuiltinAction.ofName? (name : String) : Option ActionSpec :=
  (all.find? (·.label = name)).map (·.spec)

/-- A text below the context stands for one path. -/
theorem eq_of_below {rest rest' : String} (h : "context." ++ rest = "context." ++ rest') : rest = rest' := by
  have hsplit := congrArg splitScope h
  rw [splitScope_below, splitScope_below] at hsplit
  exact congrArg Prod.snd hsplit

theorem BuiltinAction.spec_eq_of_bind {flow : Entries} {ref : Value} {a : BoundAction} (b : BuiltinAction)
    (h : Action.bind flow ofName? ref = .ok a) (hname : a.name = b.label) : a.spec = b.spec := by
  obtain ⟨name, hknown⟩ := (Action.isBound_of_bindFrom h).known
  obtain ⟨b', -, hspec⟩ := Option.map_eq_some_iff.mp hknown
  rw [BoundAction.name, ← hspec, b'.spec_name] at hname
  rw [← hspec]
  congr 1
  revert hname
  cases b <;> cases b' <;> decide

/-- Two results are put down, under an item and under a name. -/
def noteResults : Entries :=
  [(.text "note", .record [("type", .text "mapResult"),
    ("mapping", .record [("tags[1]", .text "$.tag"), ("meta.year", .text "$.year")])])]

/-- Paths that have different names at a position which both have; an index has the name of its numeral. -/
def Path.DiffersByName (p q : Path) : Prop :=
  ∃ (n : Nat) (s t : Segment), p[n]? = some s ∧ q[n]? = some t ∧ s.name ≠ t.name

/-- An action changes what is read at a path that differs by name from all that it declares. -/
def BoundAction.Strays (a : BoundAction) (context : Value) (q : Path) : Prop :=
  (∀ p, a.Declares p → p.DiffersByName q) ∧
    ∃ context' fx', (a.apply .standard context .null).exec {} = (.ok context', fx') ∧
      context'.atD q ≠ context.atD q

/-- An action that can be seen to do so. -/
theorem BoundAction.strays_of_any {ref context : Value} {q p : Path} {rest : String}
    (hparse : Path.parse rest = .ok p) (hname : p.DiffersByName q)
    (h : (Action.bind [] BuiltinAction.ofName? ref).toOption.any (fun a =>
      a.writes.all (· = "context." ++ rest) &&
        ((a.apply .standard context .null).exec {}).1.toOption.any fun c =>
          (c.atD q).text? ≠ (context.atD q).text?) = true) :
    ∃ a, Action.bind [] BuiltinAction.ofName? ref = .ok a ∧ a.Strays context q := by
  obtain ⟨a, ha, hcheck⟩ := exists_ok_of_any h
  simp only [Bool.and_eq_true, List.all_eq_true, decide_eq_true_eq] at hcheck
  obtain ⟨context', hcontext, hdiffers⟩ := exists_ok_of_any hcheck.2
  refine ⟨a, ha, ?_, context', _, Prod.ext hcontext rfl, fun heq => ?_⟩
  · rintro p' ⟨rest', hmem, hparse'⟩
    obtain rfl := eq_of_below (hcheck.1 _ hmem)
    rw [hparse] at hparse'
    cases hparse'
    exact hname
  · rw [heq] at hdiffers
    simp at hdiffers

end Statechart
