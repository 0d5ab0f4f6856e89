/-
# Names that lead to other names

A guard of a flow may be defined by a reference to another guard, and an action by one to another action.
References are followed until one of them names nothing in the flow, and this last one is resolved.  The
map of the guards is the author's own, so nothing gets smaller on the way; what is used up are the
names that have not been met.  Following is the same for guards and for actions and is stated once:

* `Alias.Follows`: the names that are met on the way from one reference to another;
* `Alias.ends_or_returns`: the way ends at a last reference or comes back to a name, after no more steps
  than there are names;
* `Alias.Chases`: what a function does that follows references, and `Alias.Chases.of_end` and
  `Alias.Chases.of_return`: what it gives in either case;
* **`Alias.resolve_chain`**: a guard or an action refers to itself exactly when a name is met again, and
  otherwise is what the last reference stands for.
-/
import Statechart.Proofs.Verdict
import Statechart.Action.Reference
import Mathlib.Data.List.Nodup
import Mathlib.Data.List.Perm.Subperm

namespace Statechart

/-! ## 1. Entries that are dropped -/

namespace Entries

theorem mem_keys_iff {s : String} {es : Entries} : .text s ∈ keys es ↔ ∃ v, lookup s es = some v := by
  induction es with
  | nil => simp [keys]
  | cons e es ih =>
    obtain ⟨k, w⟩ := e
    rw [keys] at ih ⊢
    rw [List.map_cons, List.mem_cons, ih, lookup_cons]
    by_cases hk : k = .text s
    · simp [hk]
    · rw [if_neg hk]
      simp [Ne.symm hk]

theorem lookup_eq_none_iff {s : String} {es : Entries} : lookup s es = none ↔ .text s ∉ keys es := by
  rw [mem_keys_iff, Option.eq_none_iff_forall_ne_some, not_exists]

theorem keys_erase (s : String) (es : Entries) : keys (erase s es) = (keys es).erase (.text s) := by
  induction es with
  | nil => rfl
  | cons e es ih =>
    obtain ⟨k, w⟩ := e
    by_cases hk : k = .text s
    · simp [erase, keys, hk]
    · simp only [keys] at ih ⊢
      rw [erase, if_neg hk, List.map_cons, ih, List.map_cons, List.erase_cons_tail (by simpa using hk)]

/-- What is not there is not there after an entry has been dropped. -/
theorem lookup_erase_of_none {s : String} {es : Entries} (h : lookup s es = none) (t : String) :
    lookup s (erase t es) = none := by
  rw [lookup_eq_none_iff] at h ⊢
  rw [keys_erase]
  exact fun hmem => h (List.mem_of_mem_erase hmem)

/-- In a mapping an entry is gone once it has been dropped. -/
theorem lookup_erase_self {es : Entries} (hkeys : (keys es).Nodup) (s : String) : lookup s (erase s es) = none := by
  rw [lookup_eq_none_iff, keys_erase]
  exact hkeys.not_mem_erase

end Entries

namespace Alias

/-! ## 2. The way of a reference -/

/-- The name that a reference is, blanks around it left out. -/
def name? : Value → Option String
  | .text s => if (strip s).isEmpty then none else some (strip s)
  | _ => none

theorem name?_eq_some_iff {ref : Value} {name : String} :
    name? ref = some name ↔ ∃ s, ref = .text s ∧ (strip s).isEmpty = false ∧ strip s = name := by
  cases ref with
  | text s =>
    rw [name?]
    constructor
    · intro h
      split at h
      · cases h
      · rename_i hne
        exact ⟨s, rfl, by simpa using hne, Option.some.inj h⟩
    · rintro ⟨_, ⟨⟩, hne, rfl⟩
      exact if_neg (by simp [hne])
  | _ => simp [name?]

/-- What a reference leads to. -/
def next? (flow : Entries) (ref : Value) : Option Value := (name? ref).bind (Entries.lookup · flow)

/-- The way from one reference to another leads over these names. -/
inductive Follows (flow : Entries) : Value → List String → Value → Prop
  | here (ref : Value) : Follows flow ref [] ref
  | step {ref definition last : Value} {name : String} {names : List String} (hname : name? ref = some name)
      (hfound : Entries.lookup name flow = some definition) (rest : Follows flow definition names last) :
      Follows flow ref (name :: names) last

/-- A name is met twice. -/
def Revisits (flow : Entries) (ref : Value) : Prop := ∃ names last, Follows flow ref names last ∧ ¬ names.Nodup

variable {flow : Entries} {ref last : Value} {name : String} {names : List String}

theorem next?_eq_none_iff :
    next? flow ref = none ↔ ∀ name, name? ref = some name → Entries.lookup name flow = none := by
  simp [next?, Option.bind_eq_none_iff]

theorem Follows.defined (h : Follows flow ref names last) :
    ∀ name ∈ names, ∃ definition, Entries.lookup name flow = some definition := by
  induction h with
  | here => simp
  | step _ hfound _ ih => simpa using ⟨⟨_, hfound⟩, ih⟩

/-- One name more. -/
theorem Follows.concat {definition : Value} (h : Follows flow ref names last) (hname : name? last = some name)
    (hfound : Entries.lookup name flow = some definition) : Follows flow ref (names ++ [name]) definition := by
  induction h with
  | here => exact .step hname hfound (.here _)
  | step hfirst hdefined _ ih => exact .step hfirst hdefined (ih hname)

/-- There is only one way: where it ends, all ways have been left behind. -/
theorem Follows.prefix_of_end (h : Follows flow ref names last) (hend : next? flow last = none)
    {others : List String} {other : Value} (ho : Follows flow ref others other) : others <+: names := by
  induction h generalizing others with
  | here =>
    cases ho with
    | here => exact List.prefix_rfl
    | step hname hfound => exact absurd (next?_eq_none_iff.mp hend _ hname) (by simp [hfound])
  | step hname hfound _ ih =>
    cases ho with
    | here => exact List.nil_prefix
    | step hname' hfound' rest =>
      cases hname.symm.trans hname'
      cases hfound.symm.trans hfound'
      exact List.prefix_cons_inj _ |>.mpr (ih hend rest)

/-- No more names are met than there are. -/
theorem Follows.length_le (h : Follows flow ref names last) (hnodup : names.Nodup) : names.length ≤ flow.length := by
  have hsubset : names.map Key.text ⊆ Entries.keys flow := by
    intro k hk
    obtain ⟨name, hmem, rfl⟩ := List.mem_map.mp hk
    exact Entries.mem_keys_iff.mpr (h.defined name hmem)
  have hdistinct : (names.map Key.text).Nodup := hnodup.map fun _ _ => Key.text.inj
  simpa [Entries.keys] using (List.subperm_of_subset hdistinct hsubset).length_le

/-- The way has come to an end. -/
def Ends (flow : Entries) (ref : Value) (names : List String) (last : Value) : Prop :=
  Follows flow ref names last ∧ names.Nodup ∧ next? flow last = none

/-- The way has come back to a name. -/
def Returns (flow : Entries) (ref : Value) (names : List String) (name : String) : Prop :=
  ∃ last, Follows flow ref names last ∧ names.Nodup ∧ name? last = some name ∧ name ∈ names

/-- **Every way ends or comes back.**  As long as it does neither, each step meets a new name. -/
theorem ends_or_returns (flow : Entries) (ref : Value) :
    (∃ names last, Ends flow ref names last) ∨ ∃ names name, Returns flow ref names name := by
  by_contra hnever
  rw [not_or] at hnever
  have hlong (n : Nat) : ∃ names last, Follows flow ref names last ∧ names.Nodup ∧ names.length = n := by
    induction n with
    | zero => exact ⟨[], ref, .here ref, List.nodup_nil, rfl⟩
    | succ n ih =>
      obtain ⟨names, last, hfollows, hnodup, rfl⟩ := ih
      cases hname : name? last with
      | none => exact absurd ⟨names, last, hfollows, hnodup, by simp [next?, hname]⟩ hnever.1
      | some name =>
        cases hfound : Entries.lookup name flow with
        | none => exact absurd ⟨names, last, hfollows, hnodup, by simp [next?, hname, hfound]⟩ hnever.1
        | some definition =>
          have hnew : name ∉ names := fun hmem =>
            hnever.2 ⟨names, name, last, hfollows, hnodup, hname, hmem⟩
          have hgrown : (names ++ [name]).Nodup := by simpa using List.Nodup.concat hnew hnodup
          exact ⟨names ++ [name], definition, hfollows.concat hname hfound, hgrown, by simp⟩
  obtain ⟨names, last, hfollows, hnodup, hlength⟩ := hlong (flow.length + 1)
  have := hfollows.length_le hnodup
  omega

theorem Returns.revisits (h : Returns flow ref names name) : Revisits flow ref := by
  obtain ⟨last, hfollows, -, hname, hmem⟩ := h
  obtain ⟨definition, hfound⟩ := hfollows.defined name hmem
  refine ⟨names ++ [name], definition, hfollows.concat hname hfound, ?_⟩
  intro hnodup
  exact (List.nodup_append.mp hnodup).2.2 name hmem name (by simp) rfl

theorem Ends.not_revisits (h : Ends flow ref names last) : ¬ Revisits flow ref := by
  rintro ⟨others, other, ho, hrepeated⟩
  exact hrepeated (h.2.1.sublist (h.1.prefix_of_end h.2.2 ho).sublist)

theorem revisits_iff : Revisits flow ref ↔ ∃ names name, Returns flow ref names name := by
  constructor
  · intro hrevisits
    refine (ends_or_returns flow ref).resolve_left ?_
    rintro ⟨names, last, hend⟩
    exact hend.not_revisits hrevisits
  · rintro ⟨names, name, hreturn⟩
    exact hreturn.revisits

theorem not_revisits_iff : ¬ Revisits flow ref ↔ ∃ names last, Ends flow ref names last := by
  constructor
  · intro hnever
    refine (ends_or_returns flow ref).resolve_right ?_
    rintro ⟨names, name, hreturn⟩
    exact hnever hreturn.revisits
  · rintro ⟨names, last, hend⟩
    exact hend.not_revisits

/-! ## 3. Following -/

section Chases

variable {ε α : Type} {rename : String → α → α} {circle : String → ε}
  {resolve : Entries → Value → Except ε α} {direct : Value → Except ε α} {unused : Entries}

/-- What is done by a function that follows references and drops the entry of each name it has met: a result
gets the name that led to it, a name that has been dropped is a circle, and the last reference is resolved
by itself. -/
structure Chases (flow : Entries) (rename : String → α → α) (circle : String → ε)
    (resolve : Entries → Value → Except ε α) (direct : Value → Except ε α) : Prop where
  follow : ∀ {unused ref name definition}, name? ref = some name → Entries.lookup name unused = some definition →
    resolve unused ref = rename name <$> resolve (Entries.erase name unused) definition
  back : ∀ {unused ref name}, name? ref = some name → Entries.lookup name unused = none →
    Entries.has name flow = true → resolve unused ref = .error (circle name)
  last : ∀ {unused ref}, next? flow ref = none → next? unused ref = none → resolve unused ref = direct ref

/-- The entries that are left after some names. -/
def left (unused : Entries) (names : List String) : Entries := names.foldl (fun es name => Entries.erase name es) unused

theorem lookup_left_of_none (h : Entries.lookup name unused = none) (names : List String) :
    Entries.lookup name (left unused names) = none := by
  induction names generalizing unused with
  | nil => exact h
  | cons first names ih => exact ih (Entries.lookup_erase_of_none h first)

theorem lookup_left_of_mem (hkeys : (Entries.keys unused).Nodup) (h : name ∈ names) :
    Entries.lookup name (left unused names) = none := by
  induction names generalizing unused with
  | nil => cases h
  | cons first names ih =>
    rcases List.mem_cons.mp h with rfl | hmem
    · exact lookup_left_of_none (Entries.lookup_erase_self hkeys name) names
    · refine ih ?_ hmem
      rw [Entries.keys_erase]
      exact hkeys.erase _

/-- Along a way that meets no name twice the result is that of its last reference, named over and over. -/
theorem Chases.along (h : Chases flow rename circle resolve direct) (hfollows : Follows flow ref names last)
    (hnodup : names.Nodup) (hunused : ∀ name ∈ names, Entries.lookup name unused = Entries.lookup name flow) :
    resolve unused ref = names.foldr (fun name r => rename name <$> r) (resolve (left unused names) last) := by
  induction hfollows generalizing unused with
  | here => rfl
  | @step ref definition last name names hname hfound _ ih =>
    obtain ⟨hnew, hrest⟩ := List.nodup_cons.mp hnodup
    rw [h.follow hname ((hunused name (by simp)).trans hfound), ih hrest fun other hmem => ?_]
    · rfl
    · have hne : other ≠ name := fun heq => hnew (heq ▸ hmem)
      rw [Entries.lookup_erase_ne _ hne, hunused other (by simp [hmem])]

theorem Chases.of_end (h : Chases flow rename circle resolve direct) (hend : Ends flow ref names last) :
    resolve flow ref = names.foldr (fun name r => rename name <$> r) (direct last) := by
  obtain ⟨hfollows, hnodup, hlast⟩ := hend
  rw [h.along hfollows hnodup fun _ _ => rfl, h.last hlast]
  rw [next?_eq_none_iff] at hlast ⊢
  exact fun name hname => lookup_left_of_none (hlast name hname) names

theorem Chases.of_return (h : Chases flow rename circle resolve direct) (hkeys : (Entries.keys flow).Nodup)
    (hreturn : Returns flow ref names name) : resolve flow ref = .error (circle name) := by
  obtain ⟨last, hfollows, hnodup, hname, hmem⟩ := hreturn
  obtain ⟨definition, hfound⟩ := hfollows.defined name hmem
  rw [h.along hfollows hnodup fun _ _ => rfl,
    h.back hname (lookup_left_of_mem hkeys hmem) (by simp [Entries.has, hfound])]
  clear hfollows hnodup hmem
  induction names with
  | nil => rfl
  | cons first names ih =>
    rw [List.foldr_cons, ih]
    rfl

/-- **A circle is reported exactly where a name is met twice**, as long as the last reference is none. -/
theorem Chases.circle_iff (h : Chases flow rename circle resolve direct) (hkeys : (Entries.keys flow).Nodup)
    {isCircle : ε → Bool} (hcircle : ∀ name, isCircle (circle name) = true)
    (hdirect : ∀ last, FailsOnly (isCircle · = false) (direct last)) (ref : Value) :
    (∃ name, resolve flow ref = .error (circle name)) ↔ Revisits flow ref := by
  constructor
  · rintro ⟨name, herror⟩
    by_contra hnever
    obtain ⟨names, last, hend⟩ := not_revisits_iff.mp hnever
    rw [h.of_end hend] at herror
    have hfails : FailsOnly (isCircle · = false) (names.foldr (fun name r => rename name <$> r) (direct last)) := by
      clear hend herror
      induction names with
      | nil => exact hdirect last
      | cons first names ih => exact ih.map (rename first)
    exact Bool.false_ne_true ((hfails _ herror).symm.trans (hcircle name))
  · intro hrevisits
    obtain ⟨names, name, hreturn⟩ := revisits_iff.mp hrevisits
    exact ⟨name, h.of_return hkeys hreturn⟩

end Chases

end Alias

/-! ## 4. Guards and actions -/

open Alias

namespace Guard

/-- A guard under the name that was looked up first, if any was. -/
def named (g : Guard) (names : List String) : Guard := names.head?.elim g g.renamed

theorem renamed_renamed (g : Guard) (s t : String) : (g.renamed s).renamed t = g.renamed t := by
  cases g <;> rfl

/-- The name that was looked up first is the one that stays. -/
theorem foldr_renamed (names : List String) (r : Except GuardRefError Guard) :
    names.foldr (fun name r => (·.renamed name) <$> r) r = (·.named names) <$> r := by
  cases r with
  | error e =>
    induction names with
    | nil => rfl
    | cons name names ih =>
      rw [List.foldr_cons, ih]
      rfl
  | ok g =>
    induction names with
    | nil => rfl
    | cons name names ih =>
      rw [List.foldr_cons, ih]
      cases names with
      | nil => rfl
      | cons second names => exact congrArg Except.ok (renamed_renamed g second name)

/-- A reference that names nothing in the flow is resolved as in a flow without guards. -/
theorem resolveFrom_last {flow unused : Entries} {ref : Value} (host : String → Option HostGuard)
    (hflow : next? flow ref = none) (hunused : next? unused ref = none) :
    resolveFrom flow host unused ref = resolve [] host ref := by
  rw [next?_eq_none_iff] at hflow hunused
  cases ref with
  | text s =>
    rw [resolve, resolveFrom_text, resolveFrom_text]
    by_cases hempty : (strip s).isEmpty = true
    · rw [if_pos hempty, if_pos hempty]
    · have hname : name? (.text s) = some (strip s) := if_neg hempty
      rw [if_neg hempty, if_neg hempty, hunused _ hname, Entries.has, hflow _ hname]
      rfl
  | _ => simp only [resolve, resolveFrom]

theorem chases (flow : Entries) (host : String → Option HostGuard) :
    Chases flow (fun name g => g.renamed name) .selfReference (resolveFrom flow host) (resolve [] host) where
  follow := by
    intro unused ref name definition hname hfound
    obtain ⟨s, rfl, hne, rfl⟩ := name?_eq_some_iff.mp hname
    rw [resolveFrom_text, if_neg (by simp [hne]), hfound]
  back := by
    intro unused ref name hname hgone hhas
    obtain ⟨s, rfl, hne, rfl⟩ := name?_eq_some_iff.mp hname
    rw [resolveFrom_text, if_neg (by simp [hne]), hgone]
    simp only [hhas, if_true]
  last := resolveFrom_last host

/-- Whether a reference was found to lead back to itself. -/
def isCircle : GuardRefError → Bool
  | .selfReference _ => true
  | _ => false

/-- A result, or an error that is no circle. -/
abbrev Straight {α : Type} (r : Except GuardRefError α) : Prop := FailsOnly (isCircle · = false) r

theorem checkedPath_straight (path guard : String) : Straight (checkedPath path guard) := by
  unfold checkedPath
  split
  · exact .ok _
  · exact .error rfl

theorem ofShorthand_straight (ref : String) : Straight (ofShorthand ref) := by
  unfold ofShorthand
  dsimp only
  split
  · split
    · exact .error rfl
    · split
      · refine (checkedPath_straight _ _).bind fun _ => ?_
        split
        · exact .ok _
        · split
          · exact .error rfl
          · exact .ok _
      · exact .error rfl
  · exact .error rfl

theorem ofExpression_straight (expression : Value) (name : String) :
    Straight (ofExpression expression name) := by
  unfold ofExpression
  dsimp only
  split
  · split
    · refine .bind ?_ fun _ => .ok _
      rw [List.forIn_eq_foldlM]
      refine .map _ (.foldlM (fun step path => ?_) _)
      cases step with
      | yield => exact (checkedPath_straight path name).bind fun _ => .ok _
      | done => exact .ok _
    · exact .error rfl
  · exact .error rfl

/-- No reference to shorthand, an expression or code of the host is a circle. -/
theorem resolve_nil_straight (host : String → Option HostGuard) (ref : Value) :
    Straight (resolve [] host ref) := by
  cases ref with
  | dict es =>
    rw [resolve_dict]
    exact ofExpression_straight _ _
  | text s =>
    rw [resolve, resolveFrom_text]
    simp only [Entries.has, Entries.lookup_nil, Option.isSome_none, Bool.false_eq_true, if_false]
    split
    · exact .error rfl
    · split
      · exact .ok _
      · split
        · exact ofShorthand_straight _
        · exact .error rfl
  | _ =>
    rw [resolve, resolveFrom]
    · exact .error rfl
    · exact fun _ h => by cases h
    · exact fun _ h => by cases h

end Guard

namespace Action

theorem bindFrom_text (flow : Entries) (catalogue : String → Option ActionSpec) (unused : Entries) (s : String) :
    bindFrom flow catalogue unused (.text s) =
      if (strip s).isEmpty then .error (.invalidReference (.text s))
      else match Entries.lookup (strip s) unused with
        | some definition => bindFrom flow catalogue (Entries.erase (strip s) unused) definition
        | none =>
          if Entries.has (strip s) flow then .error (.selfReference (strip s))
          else known catalogue (cutAt ':' (strip s)).1 >>= fun spec =>
            shorthandParams (strip s) spec >>= bindSpec spec := by
  rw [bindFrom]
  generalize strip s = name
  congr 1
  cases Entries.lookup name unused <;> rfl

theorem bindFrom_last {flow unused : Entries} {ref : Value} (catalogue : String → Option ActionSpec)
    (hflow : next? flow ref = none) (hunused : next? unused ref = none) :
    bindFrom flow catalogue unused ref = bind [] catalogue ref := by
  rw [next?_eq_none_iff] at hflow hunused
  cases ref with
  | text s =>
    rw [bind, bindFrom_text, bindFrom_text]
    by_cases hempty : (strip s).isEmpty = true
    · rw [if_pos hempty, if_pos hempty]
    · have hname : name? (.text s) = some (strip s) := if_neg hempty
      rw [if_neg hempty, if_neg hempty, hunused _ hname, Entries.has, hflow _ hname]
      rfl
  | _ => simp only [bind, bindFrom]

theorem chases (flow : Entries) (catalogue : String → Option ActionSpec) :
    Chases flow (fun _ a => a) .selfReference (bindFrom flow catalogue) (bind [] catalogue) where
  follow := by
    intro unused ref name definition hname hfound
    obtain ⟨s, rfl, hne, rfl⟩ := name?_eq_some_iff.mp hname
    rw [bindFrom_text, if_neg (by simp [hne]), hfound]
    exact (id_map _).symm
  back := by
    intro unused ref name hname hgone hhas
    obtain ⟨s, rfl, hne, rfl⟩ := name?_eq_some_iff.mp hname
    rw [bindFrom_text, if_neg (by simp [hne]), hgone]
    simp only [hhas, if_true]
  last := bindFrom_last catalogue

/-- A bound action has no name of its own. -/
theorem foldr_unnamed (names : List String) (r : Except ActionError BoundAction) :
    names.foldr (fun _ r => (fun a => a) <$> r) r = r := by
  induction names with
  | nil => rfl
  | cons name names ih =>
    rw [List.foldr_cons, ih]
    exact id_map r

/-- Whether a reference was found to lead back to itself. -/
def isCircle : ActionError → Bool
  | .selfReference _ => true
  | _ => false

/-- A result, or an error that is no circle. -/
abbrev Straight {α : Type} (r : Except ActionError α) : Prop := FailsOnly (isCircle · = false) r

theorem known_straight (catalogue : String → Option ActionSpec) (name : String) :
    Straight (known catalogue name) := by
  unfold known
  split
  · exact .ok _
  · exact .error rfl

theorem shorthandParams_straight (ref : String) (spec : ActionSpec) :
    Straight (shorthandParams ref spec) := by
  unfold shorthandParams
  dsimp only
  split
  · exact .ok _
  · split
    · exact .ok _
    · split
      · exact .ok _
      · exact .error rfl
      · split
        · exact .ok _
        · exact .error rfl

theorem bindSpec_straight (spec : ActionSpec) (params : Entries) : Straight (bindSpec spec params) := by
  unfold bindSpec
  dsimp only
  split
  · split
    · exact .error rfl
    · exact .ok _
  · exact .error rfl

/-- No shorthand and no object is a circle. -/
theorem bind_nil_straight (catalogue : String → Option ActionSpec) (ref : Value) :
    Straight (bind [] catalogue ref) := by
  have hbound (params : Entries) (name : String) :
      Straight (known catalogue name >>= fun spec => bindSpec spec params) :=
    (known_straight catalogue name).bind fun spec => bindSpec_straight spec params
  unfold bind
  cases ref with
  | dict es =>
    rw [bindFrom]
    split
    · exact hbound _ _
    · exact .error rfl
  | text s =>
    rw [bindFrom_text]
    split
    · exact .error rfl
    · exact (known_straight _ _).bind fun spec => (shorthandParams_straight _ _).bind fun _ => bindSpec_straight _ _
  | _ =>
    rw [bindFrom]
    · exact .error rfl
    · exact fun _ h => by cases h
    · exact fun _ h => by cases h

end Action

namespace Alias

/-- **A name that is followed leads to an end or back to a name.**  A guard or an action refers to itself exactly
if the way of its reference meets a name again, and that takes no more steps than the flow has names.
Otherwise it is what the last reference of the way stands for in a flow without names, a guard under the name
that was looked up first. -/
theorem resolve_chain {flow : Entries} (hkeys : (Entries.keys flow).Nodup) (host : String → Option HostGuard)
    (catalogue : String → Option ActionSpec) (ref : Value) :
    ((∃ name, Guard.resolve flow host ref = .error (.selfReference name)) ↔ Revisits flow ref) ∧
      ((∃ name, Action.bind flow catalogue ref = .error (.selfReference name)) ↔ Revisits flow ref) ∧
      (Revisits flow ref → ∃ names name, Returns flow ref names name ∧ names.length ≤ flow.length ∧
        Guard.resolve flow host ref = .error (.selfReference name) ∧
        Action.bind flow catalogue ref = .error (.selfReference name)) ∧
      (¬ Revisits flow ref → ∃ names last, Ends flow ref names last ∧ names.length ≤ flow.length ∧
        Guard.resolve flow host ref = (·.named names) <$> Guard.resolve [] host last ∧
        Action.bind flow catalogue ref = Action.bind [] catalogue last) := by
  have hguard := Guard.chases flow host
  have haction := Action.chases flow catalogue
  refine ⟨hguard.circle_iff hkeys (fun _ => rfl) (Guard.resolve_nil_straight host) ref,
    haction.circle_iff hkeys (fun _ => rfl) (Action.bind_nil_straight catalogue) ref, ?_, ?_⟩
  · intro hrevisits
    obtain ⟨names, name, hreturn⟩ := revisits_iff.mp hrevisits
    obtain ⟨last, hfollows, hnodup, -⟩ := id hreturn
    exact ⟨names, name, hreturn, hfollows.length_le hnodup, hguard.of_return hkeys hreturn,
      haction.of_return hkeys hreturn⟩
  · intro hnever
    obtain ⟨names, last, hend⟩ := not_revisits_iff.mp hnever
    refine ⟨names, last, hend, hend.1.length_le hend.2.1, ?_, ?_⟩
    · exact (hguard.of_end hend).trans (Guard.foldr_renamed names _)
    · exact (haction.of_end hend).trans (Action.foldr_unnamed names _)

/-- Two guards that refer to each other, and one that refers to a check. -/
def mutualGuards : Entries :=
  [(.text "ready", .text " done "), (.text "done", .text "ready"), (.text "open", .text "isNull:context.end")]

/-- The circle is found, and the guard beside it is not touched by it. -/
theorem resolve_chain_mutual :
    (Entries.keys mutualGuards).Nodup ∧
      (∃ name, Guard.resolve mutualGuards (fun _ => none) (.text "ready ") = .error (.selfReference name)) ∧
      ¬ ∃ name, Guard.resolve mutualGuards (fun _ => none) (.text "open") = .error (.selfReference name) := by
  have hkeys : (Entries.keys mutualGuards).Nodup := by decide
  have hcircle : Returns mutualGuards (.text "ready ") ["ready", "done"] "ready" :=
    ⟨.text "ready", .step rfl rfl (.step rfl rfl (.here _)), by decide, rfl, by decide⟩
  have hopen : Ends mutualGuards (.text "open") ["open"] (.text "isNull:context.end") :=
    ⟨.step rfl rfl (.here _), by decide, rfl⟩
  refine ⟨hkeys, ?_, ?_⟩
  · exact (resolve_chain hkeys _ (fun _ => none) _).1.mpr hcircle.revisits
  · rw [(resolve_chain hkeys _ (fun _ => none) _).1]
    exact hopen.not_revisits

end Alias

end Statechart
