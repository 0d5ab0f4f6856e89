/-
# What the form says

A definition whose form is right holds values of known kinds in known places, also in the states inside
other states.  What is compiled later is read from the same places without being looked at again, so
what the form says has to be turned round: from no complaint about the whole to the kind of a value deep
inside.

* `Schema.Fits`: a value no complaint is made about, with one inversion for each shape;
* `Nest.Throughout`, `Tree.throughout_ofNests`: what holds of all nested states holds of the flattened
  ones;
* **`Definition.fits_of_not_blocked`**: every state of a definition that is not blocked fits.
-/
import Statechart.Compile
import Statechart.Proofs.Evaluation

namespace Statechart

namespace Schema

/-! ## 1. Fitting a shape -/

/-- No complaint is made about a value. -/
def Fits (shape : Shape) (v : Value) : Prop := Shape.check shape v = []

/-- No complaint is made about the known fields of a mapping. -/
def FieldsFit (fields : List (String × Bool × Shape)) (es : Entries) : Prop :=
  Shape.checkFields fields es = []

variable {v : Value} {shape : Shape}

theorem under_eq_nil {part : String} {ms : List Misfit} : ms.map (Misfit.under part) = [] ↔ ms = [] :=
  List.map_eq_nil_iff

/-- A field that is there fits its shape. -/
theorem FieldsFit.field {fields : List (String × Bool × Shape)} {es : Entries} (h : FieldsFit fields es)
    {name : String} {required : Bool} (hmem : (name, required, shape) ∈ fields) {v : Value}
    (hv : Entries.lookup name es = some v) : Fits shape v := by
  induction fields with
  | nil => cases hmem
  | cons f rest ih =>
    obtain ⟨n, r, sh⟩ := f
    rw [FieldsFit, Shape.checkFields, List.append_eq_nil_iff] at h
    rcases List.mem_cons.mp hmem with heq | hmem
    · cases heq
      rw [hv] at h
      exact under_eq_nil.mp h.1
    · exact ih h.2 hmem

/-- A field that may be null is null where it is not there. -/
theorem FieldsFit.optional {fields : List (String × Bool × Shape)} {es : Entries}
    (h : FieldsFit fields es) {name : String} {required : Bool}
    (hmem : (name, required, .nullable shape) ∈ fields) :
    Fits (.nullable shape) ((Entries.lookup name es).getD .null) := by
  cases hv : Entries.lookup name es with
  | none => exact Shape.check_nullable_null shape
  | some v => exact h.field hmem hv

theorem Fits.nullable (h : Fits (.nullable shape) v) : v = .null ∨ Fits shape v := by
  rw [Fits, Shape.check] at h
  split at h
  · rename_i hnull
    cases v with
    | null => exact .inl rfl
    | _ => cases hnull
  · exact .inr h

theorem Fits.text {nonempty : Bool} (h : Fits (.text nonempty) v) : ∃ s, v = .text s := by
  cases v with
  | text s => exact ⟨s, rfl⟩
  | _ => cases h

theorem Fits.list (h : Fits (.list shape) v) : ∃ vs, v = .list vs ∧ ∀ w ∈ vs, Fits shape w := by
  cases v with
  | list vs =>
    refine ⟨vs, rfl, fun w hw => ?_⟩
    rw [Fits, Shape.check, List.flatMap_eq_nil_iff] at h
    obtain ⟨i, hi⟩ := List.mem_iff_getElem?.mp hw
    exact under_eq_nil.mp (h (w, i) (List.mem_zipIdx_iff_getElem?.mpr hi))
  | _ => cases h

theorem Fits.model {name : String} {fields : List (String × Bool × Shape)} (h : Fits (.model name fields) v) :
    ∃ es, v = .dict es ∧ FieldsFit fields es := by
  cases v with
  | dict es =>
    rw [Fits, Shape.check, List.append_eq_nil_iff] at h
    exact ⟨es, rfl, h.1⟩
  | _ => cases h

theorem Fits.mapping {keys : KeyShape} (h : Fits (.mapping keys shape) v) :
    ∃ es, v = .dict es ∧ ∀ e ∈ es, Fits shape e.2 := by
  cases v with
  | dict es =>
    refine ⟨es, rfl, fun e he => ?_⟩
    rw [Fits, Shape.check, List.flatMap_eq_nil_iff] at h
    exact under_eq_nil.mp (List.append_eq_nil_iff.mp (h e he)).2
  | _ => cases h

/-- Where no member of a union fits, every member complains. -/
theorem fits_or_complaints (members : List (String × Shape)) (v : Value) :
    (∃ m ∈ members, Fits m.2 v) ∨ ∃ ms, Shape.checkMembers members v = some ms ∧
      (members ≠ [] → ms ≠ []) := by
  induction members with
  | nil => exact .inr ⟨[], rfl, fun h => absurd rfl h⟩
  | cons m members ih =>
    rw [Shape.checkMembers]
    split
    · rename_i hfits
      exact .inl ⟨m, List.mem_cons_self, hfits⟩
    · rename_i hm
      rcases ih with ⟨m', hm', hfits⟩ | ⟨ms, hms, -⟩
      · exact .inl ⟨m', List.mem_cons_of_mem _ hm', hfits⟩
      · rw [hms]
        refine .inr ⟨_, rfl, fun _ hnil => ?_⟩
        exact hm (under_eq_nil.mp (List.append_eq_nil_iff.mp hnil).1)

/-- A value fits a union by fitting one of its members. -/
theorem Fits.union {members : List (String × Shape)} (h : Fits (.union members) v)
    (hne : members ≠ []) : ∃ m ∈ members, Fits m.2 v := by
  refine (fits_or_complaints members v).resolve_right ?_
  rintro ⟨ms, hms, hcomplaints⟩
  rw [Fits, Shape.check, hms] at h
  exact hcomplaints hne h

theorem Fits.integer {limit : Limit} (h : Fits (.integer limit) v) :
    ∃ n, Reading.integer v = .ok n := by
  rw [Fits, Shape.check] at h
  split at h
  · rename_i n hn
    exact ⟨n, hn⟩
  · cases h

theorem Fits.number {limit : Limit} (h : Fits (.number limit) v) : ∃ n, Reading.number v = .ok n := by
  rw [Fits, Shape.check] at h
  split at h
  · rename_i n hn
    exact ⟨n, hn⟩
  · cases h

/-- The items under a field that holds a list. -/
theorem FieldsFit.items {fields : List (String × Bool × Shape)} {es : Entries} (h : FieldsFit fields es)
    {name : String} {required : Bool} (hmem : (name, required, .list shape) ∈ fields) :
    ∀ w ∈ ((Entries.lookup name es).getD .null).items, Fits shape w := by
  cases hv : Entries.lookup name es with
  | none => exact fun _ hw => nomatch hw
  | some v =>
    obtain ⟨vs, rfl, hvs⟩ := (h.field hmem hv).list
    exact hvs

/-- What may be written as one mapping or as a list of them. -/
theorem Fits.asList {name one many : String} {fields : List (String × Bool × Shape)}
    (h : Fits (.nullable (.union [(one, .model name fields), (many, .list (.model name fields))])) v) :
    ∀ w ∈ Compile.asList v, ∃ es, w = .dict es ∧ FieldsFit fields es := by
  rcases h.nullable with rfl | h
  · exact fun _ hw => nomatch hw
  · obtain ⟨m, hm, hfits⟩ := h.union (List.cons_ne_nil _ _)
    rcases List.mem_cons.mp hm with rfl | hm
    · obtain ⟨es, rfl, hes⟩ := hfits.model
      exact fun w hw => ⟨es, List.mem_singleton.mp hw, hes⟩
    · obtain rfl := List.mem_singleton.mp hm
      obtain ⟨vs, rfl, hvs⟩ := hfits.list
      exact fun w hw => (hvs w hw).model

end Schema

/-! ## 2. Nested states -/

/-- Something holds of the definition of a state and of those of all states inside. -/
inductive Nest.Throughout (P : Entries → Prop) : Nest → Prop
  | state {es : Entries} {inside : Nests} (hes : P es) (hinside : ∀ n ∈ inside, Throughout P n.2) :
    Throughout P (.state es inside)
  | selfContaining : Throughout P .selfContaining
  | malformed : Throughout P .malformed

namespace Tree

/-- Something holds of the definitions of all states. -/
def Throughout (P : Entries → Prop) (t : Tree) : Prop := ∀ s ∈ t.states, P s.definition

variable {P : Entries → Prop}

theorem Throughout.add {t : Tree} (h : t.Throughout P) {s : RawState} (hs : P s.definition) :
    (t.add s).Throughout P := by
  intro x hx
  rcases List.mem_append.mp hx with hx | hx
  · obtain ⟨y, hy, rfl⟩ := List.mem_map.mp hx
    unfold adopt
    split <;> exact h y hy
  · rw [List.mem_singleton.mp hx]
    exact hs

mutual

theorem throughout_addNest (parent : Option String) (key : String) (t : Tree) (nest : Nest)
    (h : t.Throughout P) (hnest : nest.Throughout P) : (addNest parent key t nest).Throughout P := by
  cases nest with
  | state es inside =>
    obtain ⟨hes, hinside⟩ := hnest
    rw [addNest]
    split
    · exact h
    · exact throughout_addNests _ _ inside (h.add hes) hinside
  | selfContaining => exact h
  | malformed => exact h

theorem throughout_addNests (parent : Option String) (t : Tree) (nests : Nests) (h : t.Throughout P)
    (hnests : ∀ n ∈ nests, n.2.Throughout P) : (addNests parent t nests).Throughout P := by
  cases nests with
  | nil => exact h
  | cons n ns =>
    obtain ⟨hn, hns⟩ := List.forall_mem_cons.mp hnests
    rw [addNests]
    exact throughout_addNests parent _ ns (throughout_addNest parent n.1 t n.2 h hn) hns

end

theorem throughout_ofNests {nests : Nests} (h : ∀ n ∈ nests, n.2.Throughout P) :
    (ofNests nests).Throughout P :=
  throughout_addNests none {} nests (fun _ hs => nomatch hs) h

end Tree

namespace Schema

mutual

/-- The states inside a state that has the right form have it too. -/
theorem throughout_of_stateMisfits (v : Value) (h : stateMisfits v = []) :
    (Nest.ofValue v).Throughout (FieldsFit stateFields) := by
  cases v with
  | dict es =>
    rw [stateMisfits, List.append_eq_nil_iff, List.append_eq_nil_iff] at h
    rw [Nest.ofValue]
    exact .state h.1.1 (throughout_of_childMisfits es h.1.2)
  | _ => exact .malformed

theorem throughout_of_childMisfits (es : List (Key × Value)) (h : childMisfits es = []) :
    ∀ n ∈ Nest.insideOf es, n.2.Throughout (FieldsFit stateFields) := by
  cases es with
  | nil => exact fun _ hn => nomatch hn
  | cons e es =>
    obtain ⟨k, v⟩ := e
    rw [Nest.insideOf]
    by_cases hk : k = .text "states"
    · rw [if_pos hk]
      cases v with
      | dict states =>
        rw [childMisfits, if_pos hk] at h
        exact throughout_of_entryMisfits states (under_eq_nil.mp h)
      | _ => exact fun _ hn => nomatch hn
    · rw [if_neg hk]
      refine throughout_of_childMisfits es ?_
      cases v <;> simpa only [childMisfits, if_neg hk] using h

theorem throughout_of_entryMisfits (es : List (Key × Value)) (h : entryMisfits es = []) :
    ∀ n ∈ Nest.ofEntries es, n.2.Throughout (FieldsFit stateFields) := by
  cases es with
  | nil => exact fun _ hn => nomatch hn
  | cons e es =>
    obtain ⟨k, v⟩ := e
    rw [entryMisfits, List.append_eq_nil_iff, List.append_eq_nil_iff] at h
    rw [Nest.ofEntries]
    exact List.forall_mem_cons.mpr ⟨throughout_of_stateMisfits v (under_eq_nil.mp h.1.2),
      throughout_of_entryMisfits es h.2⟩

end

/-- All nested states of a definition of the right form have the right form. -/
theorem throughout_of_misfits {es : Entries} (h : misfits es = []) :
    (Tree.ofNests (Nest.insideOf es)).Throughout (FieldsFit stateFields) := by
  refine Tree.throughout_ofNests ?_
  have hstates : statesMisfits es = [] := by
    rw [misfits, List.append_eq_nil_iff, List.append_eq_nil_iff, List.append_eq_nil_iff] at h
    exact h.1.1.2
  rw [Nest.insideOf_eq]
  rw [statesMisfits] at hstates
  split at hstates
  · cases hstates
  · cases hstates
  · rename_i states _ hlookup
    rw [hlookup]
    exact throughout_of_entryMisfits states (under_eq_nil.mp hstates)
  · cases hstates

end Schema

/-! ## 3. Numbers -/

/-- A value that is taken for an integer becomes one, or is a text that has a bad value. -/
theorem asInt_of_fits {limit : Limit} {v : Value} (h : Schema.Fits (.integer limit) v) :
    FailsOnly (fun e => e.faultClass = .value) v.asInt := by
  obtain ⟨n, hn⟩ := h.integer
  cases v with
  | bool b => exact FailsOnly.ok _
  | int n => exact FailsOnly.ok _
  | float x =>
    rw [Reading.integer] at hn
    split at hn
    · cases hn
    · rename_i b hb
      have hwhole : (Value.float x).asInt = .ok b.truncate := by
        simp only [Value.asInt, Value.number?, Number.toInt, truncate, hb, liftArith]
        rfl
      exact hwhole ▸ FailsOnly.ok _
  | text s =>
    rw [Value.asInt, Value.parseInt]
    split
    · exact FailsOnly.ok _
    · exact FailsOnly.error rfl
    · exact FailsOnly.error rfl
  | _ => cases hn

/-- A value that is taken for a number becomes a double, or is a text that has a bad value. -/
theorem asFloat_of_fits {limit : Limit} {v : Value} (h : Schema.Fits (.number limit) v) :
    FailsOnly (fun e => e.faultClass = .value) v.asFloat := by
  obtain ⟨n, hn⟩ := h.number
  have hnumber : ∀ m : Number, (if m.toFloat.isOk then .ok m else .error Complaint.notANumber) = Except.ok n →
      FailsOnly (fun e => e.faultClass = .value) (liftArith m.toFloat) := fun m hm => by
    cases hfloat : m.toFloat with
    | ok x => exact FailsOnly.ok _
    | error e =>
      rw [hfloat] at hm
      cases hm
  cases v with
  | int n => exact hnumber (.int n) hn
  | bool b => exact hnumber _ hn
  | float x => exact FailsOnly.ok _
  | text s =>
    rcases Value.asFloat_text s with ⟨x, hx⟩ | hx
    · exact hx ▸ FailsOnly.ok x
    · exact hx ▸ FailsOnly.error rfl
  | _ => cases hn

namespace Definition

/-- Nothing is wrong with the form of a definition whose references are looked at. -/
theorem misfits_of_not_blocked {es : Entries} {tree : Tree}
    (h : isBlocked (formalIssues es tree) = false) : Schema.misfits es = [] := by
  have hnone : ∀ i ∈ formalIssues es tree, i.problem.isBlocking = false := by
    simpa [isBlocked] using h
  have hacyclic : isCyclic tree.issues = false := by
    rw [isCyclic, List.any_eq_false]
    intro i hi hself
    have hblocking := hnone i (List.mem_append_left _ hi)
    split at hself
    · rename_i id hproblem
      rw [hproblem] at hblocking
      exact absurd hblocking (by simp [Problem.isBlocking, Problem.label])
    · cases hself
  rw [formalIssues, hacyclic] at hnone
  refine List.eq_nil_iff_forall_not_mem.mpr fun m hm => ?_
  have hblocking := hnone ⟨.form m, Schema.stateOf m.location⟩
    (List.mem_append_right _ (List.mem_map.mpr ⟨m, hm, rfl⟩))
  exact absurd hblocking (by simp [Problem.isBlocking, Problem.label])

/-- **Every state of a definition whose references are looked at has the right form.** -/
theorem fits_of_not_blocked {v : Value} {es : Entries} (hv : v = .dict es)
    (h : isBlocked (formalIssues es (Tree.ofNests (FlowSource.ofValue v).states)) = false) :
    ∀ s ∈ (Tree.ofNests (FlowSource.ofValue v).states).states,
      Schema.FieldsFit Schema.stateFields s.definition := by
  subst hv
  exact Schema.throughout_of_misfits (misfits_of_not_blocked h)

end Definition

end Statechart
