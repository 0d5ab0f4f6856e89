/-
# Rendering for people

A text for people is rendered from a template, and whatever goes wrong on the way is to be said in the
text itself.  What can go wrong is a failed evaluation nearly everywhere: a template that is not closed,
an unknown filter, a malformed path, an operator that is misused.  The rest goes astray, and it is
about numbers alone: an integer that is too long to be written or read, or too large for a double, and a
number that no moment of the calendar belongs to.

* `Strays`: a computation that fails beyond a failed evaluation, with a rule for each way to compose
  computations that says where the failure comes from;
* `Json.read_keepLast`: why a text is not read;
* `Renderer.strays_applyStage`, `Renderer.strays_headValue`: the filters and the heads that go astray;
* `Renderer.pathValue_eq`: the value of a path;
* **`Renderer.renders_or_strays`**: rendering gives a text, and says what went wrong in the text, exactly
  unless the template goes astray; a template of plain heads whose filters take no amounts and no
  moments never does, where context and event can be written;
* `Renderer.unrendered_amount`: an amount that is too large.
-/
import Statechart.Proofs.Verdict
import Statechart.Proofs.Writable
import Statechart.Proofs.Reads
import Statechart.Template.Render

namespace Statechart

/-! ## 1. Going astray -/

section

variable {α β : Type}

/-- A computation that fails, and not with a failed evaluation. -/
def Strays (x : Except Fault α) : Prop := ∃ f, x = .error f ∧ ∀ e, f ≠ .evaluation e

theorem not_strays_ok (a : α) : ¬ Strays (.ok a : Except Fault α) := by
  rintro ⟨f, hf, -⟩
  cases hf

theorem not_strays_evaluation (e : EvalError) : ¬ Strays (.error (.evaluation e) : Except Fault α) := by
  rintro ⟨f, hf, hne⟩
  cases hf
  exact hne e rfl

theorem strays_data (e : DataFault) : Strays (.error (.data e) : Except Fault α) :=
  ⟨.data e, rfl, nofun⟩

theorem not_strays_liftEval (r : Except EvalError α) : ¬ Strays (liftEval r) := by
  cases r with
  | ok a => exact not_strays_ok a
  | error e => exact not_strays_evaluation e

/-- A complaint strays if it cannot be put into words. -/
theorem strays_complaint {v : Value} {e : EvalError} :
    Strays (.error (complaint v e) : Except Fault α) ↔ v.writable = false := by
  unfold complaint
  cases v.writable
  · simpa using strays_data .textTooLong
  · simpa using not_strays_evaluation e

theorem strays_bind {x : Except Fault α} {f : α → Except Fault β} :
    Strays (x >>= f) ↔ Strays x ∨ ∃ a, x = .ok a ∧ Strays (f a) := by
  cases x with
  | error e => simp [Strays, bind, Except.bind]
  | ok a => simp [not_strays_ok, bind, Except.bind]

theorem strays_map {x : Except Fault α} {f : α → β} : Strays (f <$> x) ↔ Strays x := by
  cases x with
  | error e => simp [Strays, Functor.map, Except.map]
  | ok a => simp [not_strays_ok, Functor.map, Except.map]

/-- Of several steps, one strays after those before it have come to their end. -/
theorem strays_mapM {f : α → Except Fault β} {xs : List α} :
    Strays (xs.mapM f) ↔ ∃ done x rest ys, xs = done ++ x :: rest ∧ done.mapM f = .ok ys ∧
      Strays (f x) := by
  induction xs with
  | nil => exact iff_of_false (not_strays_ok []) (by simp)
  | cons x xs ih =>
    rw [List.mapM_cons, strays_bind]
    constructor
    · rintro (hx | ⟨y, hy, hrest⟩)
      · exact ⟨[], x, xs, [], rfl, rfl, hx⟩
      · rcases strays_bind.mp hrest with hxs | ⟨ys, -, hnone⟩
        · obtain ⟨done, z, rest, ys, rfl, hdone, hz⟩ := ih.mp hxs
          refine ⟨x :: done, z, rest, y :: ys, rfl, ?_, hz⟩
          rw [List.mapM_cons, hy, hdone]
          rfl
        · exact absurd hnone (not_strays_ok _)
    · rintro ⟨done, z, rest, ys, hsplit, hdone, hz⟩
      cases done with
      | nil =>
        obtain ⟨rfl, rfl⟩ := List.cons.inj hsplit
        exact .inl hz
      | cons y done =>
        obtain ⟨rfl, rfl⟩ := List.cons.inj hsplit
        rw [List.mapM_cons] at hdone
        obtain ⟨b, hb, hdone⟩ := bind_eq_ok.mp hdone
        obtain ⟨bs, hbs, -⟩ := bind_eq_ok.mp hdone
        exact .inr ⟨b, hb, strays_bind.mpr (.inl (ih.mpr ⟨done, z, rest, bs, rfl, hbs, hz⟩))⟩

/-- Of several steps that hand a value on, one strays on what those before it have made. -/
theorem strays_foldlM {f : β → α → Except Fault β} {xs : List α} {b : β} :
    Strays (xs.foldlM f b) ↔ ∃ done x rest c, xs = done ++ x :: rest ∧ done.foldlM f b = .ok c ∧
      Strays (f c x) := by
  induction xs generalizing b with
  | nil => exact iff_of_false (not_strays_ok b) (by simp)
  | cons x xs ih =>
    rw [List.foldlM_cons, strays_bind]
    constructor
    · rintro (hx | ⟨c, hc, hxs⟩)
      · exact ⟨[], x, xs, b, rfl, rfl, hx⟩
      · obtain ⟨done, z, rest, d, rfl, hdone, hz⟩ := ih.mp hxs
        refine ⟨x :: done, z, rest, d, rfl, ?_, hz⟩
        rw [List.foldlM_cons, hc]
        exact hdone
    · rintro ⟨done, z, rest, c, hsplit, hdone, hz⟩
      cases done with
      | nil =>
        obtain ⟨rfl, rfl⟩ := List.cons.inj hsplit
        cases hdone
        exact .inl hz
      | cons y done =>
        obtain ⟨rfl, rfl⟩ := List.cons.inj hsplit
        rw [List.foldlM_cons] at hdone
        obtain ⟨d, hd, hdone⟩ := bind_eq_ok.mp hdone
        exact .inr ⟨d, hd, ih.mpr ⟨done, z, rest, c, rfl, hdone, hz⟩⟩

end

/-- An evaluation strays if its complaint cannot be written, which that of a short expression can. -/
theorem not_strays_evaluate {expr : Value} (h : expr.writable = true) (context event : Value) :
    ¬ Strays (evaluate expr context event) := by
  rintro ⟨f, hf, hne⟩
  rcases evaluate_failsOnly expr context event f hf with ⟨e, rfl⟩ | ⟨-, hlong⟩
  · exact hne e rfl
  · rw [h] at hlong
    cases hlong

/-! ## 2. Texts that are not read -/

namespace Json

/-- A stop that is not about a name that occurs twice. -/
def Stop.IsUnique : Stop → Prop
  | .duplicate _ => False
  | _ => True

/-- A later entry may take the place of an earlier one: no name is refused. -/
theorem ofPairs_keepLast (pairs : List (String × Value)) :
    FailsOnly Stop.IsUnique (ofPairs .keepLast pairs) := by
  refine FailsOnly.map _ (FailsOnly.foldlM (fun es pair => ?_) [])
  dsimp only
  split
  · rename_i hrefused
    exact absurd hrefused.1 nofun
  · exact FailsOnly.ok _

theorem readText_unique (start fuel : Nat) (cs : List Char) (pos : Nat) (done : List Char) :
    FailsOnly Stop.IsUnique (readText start fuel cs pos done) := by
  fun_induction readText start fuel cs pos done
  all_goals first
    | exact FailsOnly.ok _
    | exact FailsOnly.error trivial
    | assumption

theorem readNumber_unique (c : Cursor) : FailsOnly Stop.IsUnique (readNumber c) := by
  unfold readNumber
  split
  · exact FailsOnly.error trivial
  · dsimp only
    split
    · exact FailsOnly.ok _
    · split
      · exact FailsOnly.ok _
      · exact FailsOnly.error trivial
      · exact FailsOnly.error trivial

/-- No name is refused at any place of a text. -/
theorem readFrom_unique (fuel : Nat) :
    (∀ c, FailsOnly Stop.IsUnique (readValue .keepLast fuel c)) ∧
      (∀ c done, FailsOnly Stop.IsUnique (readEntries .keepLast fuel c done)) ∧
      ∀ c done, FailsOnly Stop.IsUnique (readItems .keepLast fuel c done) := by
  induction fuel with
  | zero =>
    exact ⟨fun _ => FailsOnly.error trivial, fun _ _ => FailsOnly.error trivial,
      fun _ _ => FailsOnly.error trivial⟩
  | succ fuel ih =>
    obtain ⟨ihValue, ihEntries, ihItems⟩ := ih
    refine ⟨?_, ?_, ?_⟩
    · intro c
      rw [readValue]
      split
      · exact (readText_unique _ _ _ _ _).bind fun _ => FailsOnly.ok _
      · dsimp only
        split
        · exact FailsOnly.ok _
        · exact ihEntries _ _
      · dsimp only
        split
        · exact FailsOnly.ok _
        · exact ihItems _ _
      · split
        · exact FailsOnly.ok _
        · exact readNumber_unique _
    · intro c done
      rw [readEntries]
      split
      · refine (readText_unique _ _ _ _ _).bind fun named => ?_
        obtain ⟨name, c₁⟩ := named
        dsimp only
        split
        · refine (ihValue _).bind fun valued => ?_
          obtain ⟨w, c₂⟩ := valued
          dsimp only
          split
          · exact (ofPairs_keepLast _).bind fun _ => FailsOnly.ok _
          · exact ihEntries _ _
          · exact FailsOnly.error trivial
        · exact FailsOnly.error trivial
      · exact FailsOnly.error trivial
    · intro c done
      rw [readItems]
      refine (ihValue _).bind fun valued => ?_
      obtain ⟨w, c₁⟩ := valued
      dsimp only
      split
      · exact FailsOnly.ok _
      · exact ihItems _ _
      · exact FailsOnly.error trivial

/-- **Why a text is not read**: it is malformed, or holds an integer that is too long. -/
theorem read_keepLast (text : String) :
    FailsOnly (fun e => (∃ p, e = .malformed p) ∨ ∃ n, e = .integerTooLong n) (read text) := by
  refine FailsOnly.mapError (Q := Stop.IsUnique) ?_ fun stop hstop => ?_
  · split
    · exact FailsOnly.error trivial
    · refine ((readFrom_unique _).1 _).bind fun ⟨v, c⟩ => ?_
      dsimp only
      split
      · exact FailsOnly.ok _
      · exact FailsOnly.error trivial
  · cases stop with
    | problem p position => exact .inl ⟨_, rfl⟩
    | duplicate key => exact hstop.elim
    | tooLong n => exact .inr ⟨n, rfl⟩

end Json

/-! ## 3. Filters -/

namespace Template

/-- A number that no moment of the calendar belongs to. -/
def Undated (n : Number) : Prop := ∀ m, momentOfNumber n ≠ .ok m

/-- The values that a filter goes astray on: most write their value, an amount is a double as well, and a
number stands for a moment. -/
def StraysOn (filter : String) (v : Value) : Prop :=
  (filter ∈ ["uppercase", "lowercase", "trim", "json"] ∧ v.writable = false) ∨
    (filter = "currency" ∧ (v.Oversized ∨ v.writable = false)) ∨
    (filter = "date" ∧ ∃ n, v = .ofNumber n ∧ Undated n)

theorem strays_stringify {v : Value} : Strays (stringify v) ↔ v.writable = false := by
  unfold stringify
  cases v.writable
  · simpa using strays_data .textTooLong
  · simpa using not_strays_ok _

theorem strays_onText {f : String → String} {v : Value} :
    Strays (onText f v) ↔ v.writable = false := by
  unfold onText
  by_cases hnull : v.isNull
  · rw [if_pos hnull]
    cases v with
    | null => exact iff_of_false (not_strays_ok _) (by simp [Value.writable, Value.writable.go])
    | _ => cases hnull
  · rw [if_neg hnull, strays_map, strays_stringify]

/-- An integer that is too long to be written is too large for a double. -/
theorem oversized_of_unwritable {n : Int} (h : (Value.int n).writable = false) :
    (Value.int n).Oversized := by
  have hbound : Binary.edge ≤ Value.writable.bound := by decide +kernel
  have hlong : Value.writable.bound ≤ n.natAbs := by
    by_contra hshort
    rw [Value.writable_int.mpr (by omega)] at h
    cases h
  exact ⟨n, rfl, hbound.trans hlong⟩

/-- An amount that is an integer has to be within the doubles. -/
theorem strays_currency_integer {v : Value} {n : Int} {arg : Option String}
    (hblank : isBlankValue v = false) (hv : v.asFloat = liftArith (intToFloat n)) :
    Strays (currency v arg) ↔ Binary.edge ≤ n.natAbs := by
  rw [← Binary.ofInt?_eq_none_iff]
  simp only [currency, hblank, hv, intToFloat]
  cases Binary.ofInt? n with
  | some x => exact iff_of_false (not_strays_ok _) (Option.some_ne_none x)
  | none => exact iff_of_true (strays_data _) rfl

theorem strays_currency {v : Value} {arg : Option String} :
    Strays (currency v arg) ↔ v.Oversized ∨ v.writable = false := by
  have hsmall : (∀ n, v ≠ .int n) → ¬ v.Oversized := by
    rintro hv ⟨n, rfl, -⟩
    exact hv n rfl
  cases v with
  | int n =>
    refine (strays_currency_integer rfl rfl).trans ⟨fun h => .inl ⟨n, rfl, h⟩, ?_⟩
    rintro (⟨m, hm, hedge⟩ | hlong)
    · cases hm
      exact hedge
    · obtain ⟨m, hm, hedge⟩ := oversized_of_unwritable hlong
      cases hm
      exact hedge
  | bool b =>
    refine (strays_currency_integer rfl rfl).trans
      (iff_of_false ?_ (by simp [hsmall, Value.writable, Value.writable.go]))
    have hone : 1 < Binary.edge := by decide +kernel
    cases b <;> simp <;> omega
  | text s =>
    refine iff_of_false ?_ (by simp [hsmall, Value.writable, Value.writable.go])
    unfold currency
    split
    · exact not_strays_ok _
    · rcases Value.asFloat_text s with ⟨x, hx⟩ | hx
      · rw [hx]
        exact not_strays_ok _
      · rw [hx]
        exact strays_complaint.not.mpr (by simp [Value.writable, Value.writable.go])
  | list vs => exact strays_complaint.trans (by simp [hsmall])
  | dict es => exact strays_complaint.trans (by simp [hsmall])
  | null | float x =>
    exact iff_of_false (not_strays_ok _) (by simp [hsmall, Value.writable, Value.writable.go])

/-- A number without a moment fails beyond a failed evaluation. -/
theorem strays_momentOfNumber {n : Number} : Strays (momentOfNumber n) ↔ Undated n := by
  have hat : ∀ s us, FailsOnly (fun f => ∃ e, f = .data e) (momentAt s us) := by
    intro s us
    unfold momentAt
    dsimp only
    split_ifs <;> first | exact FailsOnly.ok _ | exact FailsOnly.error ⟨_, rfl⟩
  have hfloat : ∀ x, FailsOnly (fun f => ∃ e, f = .data e) (momentOfFloat x) := by
    intro x
    unfold momentOfFloat
    split
    · split_ifs <;> exact FailsOnly.error ⟨_, rfl⟩
    · exact hat _ _
  have hdata : FailsOnly (fun f => ∃ e, f = .data e) (momentOfNumber n) := by
    have hlift : ∀ r : Except ArithFault Number,
        FailsOnly (fun f => ∃ e, f = .data e) (liftData (liftArith r)) := fun r =>
      FailsOnly.mapError (Q := fun _ => True) (fun _ _ => trivial) fun e _ => ⟨e, rfl⟩
    unfold momentOfNumber
    dsimp only
    generalize (if n.isNegative then n.neg else n) = magnitude
    split
    · refine (hlift _).bind fun k => ?_
      cases k with
      | int s => exact hat s 0
      | float x => exact hfloat x
    · cases n with
      | int s => exact hat s 0
      | float x => exact hfloat x
  cases h : momentOfNumber n with
  | ok m => exact iff_of_false (not_strays_ok m) fun hnone => hnone m h
  | error f =>
    obtain ⟨e, rfl⟩ := hdata f h
    exact iff_of_true (strays_data e) fun m hm => by
      rw [h] at hm
      cases hm

theorem strays_date {v : Value} {arg : Option String} :
    Strays (date v arg) ↔ ∃ n, v = .ofNumber n ∧ Undated n := by
  have hother : (∀ n, v ≠ .ofNumber n) → ¬ ∃ n, v = .ofNumber n ∧ Undated n := by
    rintro hv ⟨n, rfl, -⟩
    exact hv n rfl
  have hnumber : ∀ n : Number,
      (∃ write : Moment → Value,
        date (.ofNumber n) arg = momentOfNumber n >>= fun m => .ok (write m)) →
      (Strays (date (.ofNumber n) arg) ↔ ∃ k, Value.ofNumber n = .ofNumber k ∧ Undated k) := by
    rintro n ⟨write, hdate⟩
    rw [hdate, strays_bind, strays_momentOfNumber]
    constructor
    · rintro (hn | ⟨m, -, hm⟩)
      · exact ⟨n, rfl, hn⟩
      · exact absurd hm (not_strays_ok _)
    · rintro ⟨k, hk, hundated⟩
      have hsame : k = n := by cases k <;> cases n <;> cases hk <;> rfl
      exact .inl (hsame ▸ hundated)
  cases v with
  | int n => exact hnumber (.int n) ⟨_, rfl⟩
  | float x => exact hnumber (.float x) ⟨_, rfl⟩
  | text s =>
    refine iff_of_false ?_ (hother fun n => by cases n <;> nofun)
    unfold date
    split
    · exact not_strays_ok _
    · dsimp only
      cases Moment.read? (strip s) with
      | some m => exact not_strays_ok _
      | none => exact not_strays_evaluation _
  | null => exact iff_of_false (not_strays_ok _) (hother fun n => by cases n <;> nofun)
  | bool b | list vs | dict es =>
    exact iff_of_false (not_strays_evaluation _) (hother fun n => by cases n <;> nofun)

end Template

namespace Renderer

open Template

/-! ## 4. Expressions -/

theorem mem_of_lookup {β : Type} {name : String} {b : β} {table : List (String × β)}
    (h : table.lookup name = some b) : (name, b) ∈ table := by
  obtain ⟨before, after, rfl, -⟩ := List.lookup_eq_some_iff.mp h
  simp

theorem strays_filter {name : String} {f : FilterFn} (h : (name, f) ∈ defaultFilters) (v : Value)
    (arg : Option String) : Strays (f v arg) ↔ StraysOn name v := by
  simp only [defaultFilters, List.mem_cons, Prod.mk.injEq, List.not_mem_nil, or_false] at h
  rcases h with ⟨rfl, rfl⟩ | ⟨rfl, rfl⟩ | ⟨rfl, rfl⟩ | ⟨rfl, rfl⟩ | ⟨rfl, rfl⟩ | ⟨rfl, rfl⟩ | ⟨rfl, rfl⟩
  · exact strays_onText.trans (by simp [StraysOn])
  · exact strays_onText.trans (by simp [StraysOn])
  · exact strays_onText.trans (by simp [StraysOn])
  · exact strays_currency.trans (by simp [StraysOn])
  · exact strays_date.trans (by simp [StraysOn])
  · have hjson : Strays (if v.writable then .ok (Value.text (Json.compact v))
        else .error (.data .textTooLong)) ↔ v.writable = false := by
      cases v.writable
      · simpa using strays_data .textTooLong
      · simpa using not_strays_ok _
    exact hjson.trans (by simp [StraysOn])
  · exact iff_of_false (not_strays_ok _) (by simp [StraysOn])

/-- **A stage strays on a value as its filter does**; a filter that is unknown is complained about. -/
theorem strays_applyStage {v : Value} {stage : String} :
    Strays (standard.applyStage v stage) ↔ StraysOn (stageParts stage).1 v := by
  have hfilters : standard.filters = defaultFilters := rfl
  unfold applyStage
  rw [hfilters]
  rcases stageParts stage with ⟨name, arg⟩
  dsimp only
  cases hlookup : defaultFilters.lookup name with
  | some f => exact strays_filter (mem_of_lookup hlookup) v arg
  | none =>
    refine iff_of_false (not_strays_evaluation _) fun h => ?_
    have hall := List.lookup_eq_none_iff.mp hlookup
    simp only [defaultFilters, List.forall_mem_cons, bne_iff_ne] at hall
    simp [StraysOn, hall] at h

/-- A head that is an inline expression with an integer that is too long to be read. -/
def HeadStrays (head : String) : Prop :=
  isInline head = true ∧ ∃ n, Json.read head = .error (.integerTooLong n)

theorem strays_readInline {head : String} :
    Strays (readInline head) ↔ ∃ n, Json.read head = .error (.integerTooLong n) := by
  unfold readInline
  cases h : Json.read head with
  | ok v => exact iff_of_false (not_strays_ok v) nofun
  | error e =>
    rcases Json.read_keepLast head e h with ⟨p, rfl⟩ | ⟨n, rfl⟩
    · exact iff_of_false (not_strays_evaluation _) nofun
    · exact iff_of_true (strays_data _) ⟨n, rfl⟩

theorem not_strays_pathValue (path : String) (context event : Value) :
    ¬ Strays (pathValue path context event) := by
  unfold pathValue
  split
  · refine not_strays_evaluate ?_ context event
    simp [Value.writable, Value.writable.go, Value.writable.goEntries, Value.writable.goKey]
  · exact not_strays_evaluation _

/-- **A head strays if it is an inline expression that cannot be read**: what can be read from a text can
be written in a complaint. -/
theorem strays_headValue {head : String} (context event : Value) :
    Strays (headValue head context event) ↔ HeadStrays head := by
  unfold headValue HeadStrays
  cases hinline : isInline head with
  | true =>
    have hvalue : ∀ v, readInline head = .ok v → ¬ Strays (Statechart.evaluate v context event) := by
      intro v hv
      unfold readInline at hv
      split at hv
      · rename_i hread
        cases hv
        exact not_strays_evaluate (Json.writable_of_read hread) context event
      · cases hv
      · cases hv
    simp only [if_true, true_and]
    rw [strays_bind, strays_readInline]
    constructor
    · rintro (h | ⟨v, hv, hstrays⟩)
      · exact h
      · exact absurd hstrays (hvalue v hv)
    · exact .inl
  | false =>
    simp only [Bool.false_eq_true, if_false, false_and, iff_false]
    split
    · exact not_strays_ok _
    · split
      · split
        · exact strays_map.not.mpr (not_strays_pathValue _ context event)
        · exact not_strays_evaluation _
      · exact not_strays_pathValue _ context event

/-- An expression that goes astray: at its head, or at a stage that is handed a value by those before. -/
def ExpressionStrays (context event : Value) (e : String) : Prop :=
  e ≠ "" ∧ (HeadStrays (pipeline e).1 ∨
    ∃ v done stage rest w, headValue (pipeline e).1 context event = .ok v ∧
      (pipeline e).2 = done ++ stage :: rest ∧ done.foldlM standard.applyStage v = .ok w ∧
      StraysOn (stageParts stage).1 w)

theorem strays_expressionValue {e : String} (context event : Value) :
    Strays (standard.expressionValue e context event) ↔ ExpressionStrays context event e := by
  unfold expressionValue ExpressionStrays
  by_cases hempty : e = ""
  · subst hempty
    exact iff_of_false (not_strays_evaluation _) fun h => h.1 rfl
  · have hnot : e.isEmpty = false := by simpa [String.isEmpty_iff] using hempty
    simp only [hnot, Bool.false_eq_true, if_false, ne_eq, hempty, not_false_eq_true, true_and]
    rw [strays_bind, strays_headValue]
    simp only [strays_foldlM, strays_applyStage]
    constructor
    · rintro (h | ⟨v, hv, done, stage, rest, w, h⟩)
      · exact .inl h
      · exact .inr ⟨v, done, stage, rest, w, hv, h⟩
    · rintro (h | ⟨v, done, stage, rest, w, hv, h⟩)
      · exact .inl h
      · exact .inr ⟨v, hv, done, stage, rest, w, h⟩

/-! ## 5. Templates -/

/-- A template that goes astray: the pieces before an expression have their texts, and the expression
goes astray itself or comes to a value that cannot be written. -/
def TemplateStrays (template : String) (context event : Value) : Prop :=
  ∃ done e rest texts, scan template = .ok (done ++ .expression e :: rest) ∧
    done.mapM (standard.pieceText context event) = .ok texts ∧
    (ExpressionStrays context event e ∨
      ∃ v, standard.expressionValue e context event = .ok v ∧ v.writable = false)

theorem strays_pieceText {e : String} (context event : Value) :
    Strays (standard.pieceText context event (.expression e)) ↔
      ExpressionStrays context event e ∨
        ∃ v, standard.expressionValue e context event = .ok v ∧ v.writable = false := by
  have hpiece : standard.pieceText context event (.expression e) =
      standard.expressionValue e context event >>= fun v => stringify v := rfl
  rw [hpiece, strays_bind, strays_expressionValue]
  simp only [strays_stringify]

theorem strays_evaluateText {template : String} {context event : Value} :
    Strays (standard.evaluateText template context event) ↔ TemplateStrays template context event := by
  unfold evaluateText TemplateStrays
  rw [strays_bind]
  cases hscan : scan template with
  | error e =>
    refine iff_of_false ?_ nofun
    rintro (h | ⟨ps, hps, -⟩)
    · exact not_strays_liftEval _ h
    · cases hps
  | ok ps =>
    have hfirst : liftEval (.ok ps : Except EvalError (List Piece)) = .ok ps := rfl
    simp only [hfirst, not_strays_ok, false_or, Except.ok.injEq, exists_eq_left']
    unfold piecesText
    rw [strays_map, strays_mapM]
    constructor
    · rintro ⟨done, p, rest, texts, hps, hdone, hp⟩
      cases p with
      | text s => exact absurd hp (not_strays_ok s)
      | expression e => exact ⟨done, e, rest, texts, hps, hdone, (strays_pieceText _ _).mp hp⟩
    · rintro ⟨done, e, rest, texts, hps, hdone, he⟩
      exact ⟨done, .expression e, rest, texts, hps, hdone, (strays_pieceText _ _).mpr he⟩

/-! ## 6. Templates that do not stray -/

end Renderer

namespace Value

theorem writable_of_lookup {s : String} {v : Value} {es : Entries} (hes : (dict es).writable = true)
    (h : Entries.lookup s es = some v) : v.writable = true := by
  induction es with
  | nil => cases h
  | cons e es ih =>
    obtain ⟨k, w⟩ := e
    have hall := writable_dict.mp hes
    rw [Entries.lookup_cons] at h
    split at h
    · cases h
      exact (hall (k, v) (by simp)).2
    · exact ih (writable_dict.mpr fun x hx => hall x (by simp [hx])) h

/-- What is in a value that can be written can be written. -/
theorem writable_of_at? {p : Path} {v w : Value} (hv : v.writable = true) (h : v.at? p = some w) :
    w.writable = true := by
  induction p generalizing v with
  | nil =>
    cases h
    exact hv
  | cons s p ih =>
    obtain ⟨u, hu, h⟩ := Option.bind_eq_some_iff.mp h
    refine ih ?_ h
    unfold step? at hu
    split at hu
    · exact writable_of_lookup hv hu
    · obtain ⟨i, -, hu⟩ := Option.bind_eq_some_iff.mp hu
      obtain ⟨k, -, hu⟩ := Option.bind_eq_some_iff.mp hu
      exact writable_list.mp hv u (List.mem_of_getElem? hu)
    · cases hu

theorem writable_of_atTextD {v w : Value} {path : String} (hv : v.writable = true)
    (h : v.atTextD path = .ok w) : w.writable = true := by
  obtain ⟨found?, hfound, rfl⟩ := map_eq_ok.mp h
  obtain ⟨p, -, rfl⟩ := map_eq_ok.mp hfound
  cases hp : v.at? p with
  | none => rfl
  | some u => exact writable_of_at? hv hp

end Value

namespace Renderer

open Template

variable {context event : Value}

/-- **A path has the value that is found there**, unless it is malformed. -/
theorem pathValue_eq (path : String) (context event : Value) :
    pathValue path context event =
      if isPathText path then
        (lookupScoped path context event).mapError fun e => .evaluation (.badVariable path e)
      else .error (.evaluation (.malformedExpression path)) := by
  unfold pathValue
  split
  · rename_i hform
    have hpath : path ≠ "" := by
      rintro rfl
      cases hform
    have hvar : Meaning.applyNamed (.text "var") ((Value.text path).operands.map meaning) =
        Meaning.var [fun _ => .ok (.text path)] := by
      simp [Value.operands, Meaning.applyNamed, Operator.ofKey?]
      rfl
    have hnull (v : Value) : (if v.isNull then .null else v) = v := by
      cases v <;> rfl
    have hmeaning : meaning (.dict [(.text "var", .text path)]) (.flow context event) =
        (lookupScoped path context event).mapError fun e => .evaluation (.badVariable path e) := by
      rw [meaning_apply, hvar, Meaning.var_written hpath, Data.lookup]
      cases lookupScoped path context event with
      | error e => rfl
      | ok v => exact congrArg Except.ok (hnull v)
    rw [Statechart.evaluate, hmeaning]
    cases lookupScoped path context event <;> rfl
  · rfl

theorem writable_of_pathValue (hcontext : context.writable = true) (hevent : event.writable = true)
    {path : String} {v : Value} (h : pathValue path context event = .ok v) : v.writable = true := by
  rw [pathValue_eq] at h
  split at h
  · have hlookup := mapError_eq_ok.mp h
    unfold lookupScoped at hlookup
    dsimp only at hlookup
    split at hlookup
    · exact Value.writable_of_atTextD hcontext hlookup
    · exact Value.writable_of_atTextD hevent hlookup
  · cases h

/-- A head that is neither an inline expression nor a length. -/
def PlainHead (head : String) : Prop :=
  isInline head = false ∧ ∀ argument, helperCall? head ≠ some ("length", argument)

theorem writable_of_headValue (hcontext : context.writable = true) (hevent : event.writable = true)
    {head : String} (hhead : PlainHead head) {v : Value} (h : headValue head context event = .ok v) :
    v.writable = true := by
  unfold headValue at h
  rw [hhead.1] at h
  simp only [Bool.false_eq_true, if_false] at h
  split at h
  · cases h
    rfl
  · split at h
    · rename_i name argument hcall
      split at h
      · rename_i f hf
        obtain ⟨w, -, rfl⟩ := map_eq_ok.mp h
        have hmem := mem_of_lookup hf
        simp only [helpers, List.mem_cons, Prod.mk.injEq, List.not_mem_nil, or_false] at hmem
        rcases hmem with ⟨rfl, rfl⟩ | ⟨rfl, rfl⟩ | ⟨rfl, rfl⟩
        · rfl
        · rfl
        · exact absurd hcall (hhead.2 argument)
      · cases h
    · exact writable_of_pathValue hcontext hevent h

/-- A stage that takes no amount and no moment. -/
def PlainStage (stage : String) : Prop :=
  (stageParts stage).1 ≠ "currency" ∧ (stageParts stage).1 ≠ "date"

theorem writable_of_applyStage {stage : String} (hstage : PlainStage stage) {v w : Value}
    (hv : v.writable = true) (h : standard.applyStage v stage = .ok w) : w.writable = true := by
  have hfilters : standard.filters = defaultFilters := rfl
  unfold PlainStage at hstage
  unfold applyStage at h
  rw [hfilters] at h
  rcases hparts : stageParts stage with ⟨name, arg⟩
  rw [hparts] at h hstage
  dsimp only at h hstage
  split at h
  · rename_i f hf
    have hmem := mem_of_lookup hf
    have htext : ∀ g : String → String, onText g v = .ok w → w.writable = true := by
      intro g hg
      unfold onText at hg
      split at hg
      · cases hg
        rfl
      · obtain ⟨s, -, rfl⟩ := map_eq_ok.mp hg
        rfl
    simp only [defaultFilters, List.mem_cons, Prod.mk.injEq, List.not_mem_nil, or_false] at hmem
    rcases hmem with ⟨rfl, rfl⟩ | ⟨rfl, rfl⟩ | ⟨rfl, rfl⟩ | ⟨rfl, -⟩ | ⟨rfl, -⟩ | ⟨rfl, rfl⟩ | ⟨rfl, rfl⟩
    · exact htext _ h
    · exact htext _ h
    · exact htext _ h
    · exact absurd rfl hstage.1
    · exact absurd rfl hstage.2
    · dsimp only at h
      rw [if_pos hv] at h
      cases h
      rfl
    · cases h
      split
      · rfl
      · exact hv
  · cases h

theorem writable_of_stages {stages : List String} (hstages : ∀ stage ∈ stages, PlainStage stage)
    {v w : Value} (hv : v.writable = true) (h : stages.foldlM standard.applyStage v = .ok w) :
    w.writable = true :=
  Json.holds_of_foldlM (P := fun u => u.writable = true)
    (fun _ stage _ hmem hu => writable_of_applyStage (hstages stage hmem) hu) hv h

/-- A template of plain heads and plain stages. -/
def IsModest (template : String) : Prop :=
  ∀ ps, scan template = .ok ps → ∀ e, Piece.expression e ∈ ps →
    PlainHead (pipeline e).1 ∧ ∀ stage ∈ (pipeline e).2, PlainStage stage

theorem not_templateStrays {template : String} (h : IsModest template)
    (hcontext : context.writable = true) (hevent : event.writable = true) :
    ¬ TemplateStrays template context event := by
  rintro ⟨done, e, rest, texts, hscan, -, hstrays⟩
  obtain ⟨hhead, hstages⟩ := h _ hscan e (by simp)
  rcases hstrays with ⟨-, ⟨hinline, -⟩ | ⟨v, before, stage, after, w, hv, hsplit, hw, hon⟩⟩ | ⟨v, hv, hlong⟩
  · rw [hhead.1] at hinline
    cases hinline
  · have hplain : PlainStage stage := hstages stage (by simp [hsplit])
    have hwritable : w.writable = true :=
      writable_of_stages (fun s hs => hstages s (by simp [hsplit, hs]))
        (writable_of_headValue hcontext hevent hhead hv) hw
    rcases hon with ⟨-, hlong⟩ | ⟨hcurrency, -⟩ | ⟨hdate, -⟩
    · rw [hwritable] at hlong
      cases hlong
    · exact hplain.1 hcurrency
    · exact hplain.2 hdate
  · unfold expressionValue at hv
    split at hv
    · cases hv
    · obtain ⟨u, hu, hv⟩ := bind_eq_ok.mp hv
      rw [writable_of_stages hstages (writable_of_headValue hcontext hevent hhead hu) hv] at hlong
      cases hlong

/-! ## 7. What rendering comes to -/

/-- What the log is told about a template that has no value. -/
def failureEntry (template : String) (e : EvalError) : LogEntry :=
  ⟨.warning, .templates, "Template render failed for " ++ quoted template ++ ": " ++ e.message⟩

/-- Rendering gives the text, or logs the failure of an evaluation, or stops at what strays. -/
theorem render_cases (template : String) (context event : Value) (fx : Effects) :
    (∃ s, standard.evaluateText template context event = .ok s ∧
        (standard.render template context event).exec fx = (.ok s, fx)) ∨
      (∃ e, standard.evaluateText template context event = .error (.evaluation e) ∧
        (standard.render template context event).exec fx =
          (.ok ("ERROR: " ++ e.message), { fx with log := fx.log ++ [failureEntry template e] })) ∨
      ∃ f, Strays (standard.evaluateText template context event) ∧
        (standard.render template context event).exec fx = (.error f, fx) := by
  cases h : standard.evaluateText template context event with
  | ok s =>
    refine .inl ⟨s, rfl, Act.catchEval_of_ok ?_⟩
    rw [h, Act.exec_lift]
  | error f =>
    by_cases heval : ∃ e, f = .evaluation e
    · obtain ⟨e, rfl⟩ := heval
      refine .inr (.inl ⟨e, rfl, ?_⟩)
      unfold render
      rw [Act.catchEval_of_eval (by rw [h, Act.exec_lift]), Act.exec_bind, Act.exec_say]
      rfl
    · have hexec : (standard.render template context event).exec fx = (.error f, fx) := by
        unfold render
        rw [h]
        cases f with
        | evaluation e => exact absurd ⟨e, rfl⟩ heval
        | _ => rfl
      exact .inr (.inr ⟨f, ⟨f, rfl, fun e he => heval ⟨e, he⟩⟩, hexec⟩)

/-- **Rendering gives a text**: that of the template, or what went wrong, which the log is told as well.
It fails exactly if the template goes astray, and a modest one never does where context and event can
be written. -/
theorem renders_or_strays (template : String) (context event : Value) (fx : Effects) :
    ((∃ s, standard.evaluateText template context event = .ok s ∧
          (standard.render template context event).exec fx = (.ok s, fx)) ∨
        (∃ e, standard.evaluateText template context event = .error (.evaluation e) ∧
          (standard.render template context event).exec fx =
            (.ok ("ERROR: " ++ e.message), { fx with log := fx.log ++ [failureEntry template e] })) ∨
        ∃ f, (standard.render template context event).exec fx = (.error f, fx)) ∧
      ((∃ f, ((standard.render template context event).exec fx).1 = .error f) ↔
        TemplateStrays template context event) ∧
      (IsModest template → context.writable = true → event.writable = true →
        ∃ s, ((standard.render template context event).exec fx).1 = .ok s) := by
  have hrender := render_cases template context event fx
  have hiff : (∃ f, ((standard.render template context event).exec fx).1 = .error f) ↔
      TemplateStrays template context event := by
    rw [← strays_evaluateText]
    rcases hrender with ⟨s, hs, hexec⟩ | ⟨e, he, hexec⟩ | ⟨f, hf, hexec⟩
    · rw [hexec, hs]
      exact iff_of_false nofun (not_strays_ok s)
    · rw [hexec, he]
      exact iff_of_false nofun (not_strays_evaluation e)
    · rw [hexec]
      exact iff_of_true ⟨f, rfl⟩ hf
  refine ⟨?_, hiff, fun hmodest hcontext hevent => ?_⟩
  · rcases hrender with hs | he | ⟨f, -, hexec⟩
    · exact .inl hs
    · exact .inr (.inl he)
    · exact .inr (.inr ⟨f, hexec⟩)
  · have hnot := hiff.not.mpr (not_templateStrays hmodest hcontext hevent)
    cases h : ((standard.render template context event).exec fx).1 with
    | ok s => exact ⟨s, rfl⟩
    | error f => exact absurd ⟨f, h⟩ hnot

/-- A greeting, whose context and template are as they should be. -/
theorem renders_or_strays_greeting :
    IsModest "Dear \x7b\x7b context.name | trim \x7d\x7d" ∧
      (Value.record [("name", .text " Ana ")]).writable = true ∧ Value.null.writable = true ∧
      ∃ s, ((standard.render "Dear \x7b\x7b context.name | trim \x7d\x7d"
        (.record [("name", .text " Ana ")]) .null).exec {}).1 = .ok s := by
  have hscan : (scan "Dear \x7b\x7b context.name | trim \x7d\x7d").toOption =
      some [.text "Dear ", .expression "context.name | trim"] := by decide +kernel
  have hpipeline : pipeline "context.name | trim" = ("context.name", ["trim"]) := by decide +kernel
  have hcall : helperCall? "context.name" = none := by decide +kernel
  have hstage : stageParts "trim" = ("trim", none) := by decide +kernel
  have hmodest : IsModest "Dear \x7b\x7b context.name | trim \x7d\x7d" := by
    intro ps hps e he
    rw [hps] at hscan
    cases hscan
    obtain rfl : e = "context.name | trim" := by simpa using he
    rw [hpipeline]
    refine ⟨⟨by decide +kernel, fun argument h => ?_⟩, fun stage hmem => ?_⟩
    · rw [hcall] at h
      cases h
    · obtain rfl : stage = "trim" := by simpa using hmem
      unfold PlainStage
      rw [hstage]
      exact ⟨by decide, by decide⟩
  have hcontext : (Value.record [("name", .text " Ana ")]).writable = true := by decide +kernel
  exact ⟨hmodest, hcontext, rfl, (renders_or_strays _ _ _ _).2.2 hmodest hcontext rfl⟩

/-- An amount that is too large for a double is not said in the text: nothing is rendered. -/
theorem unrendered_amount :
    ¬ ∀ (template : String) (context event : Value) (fx : Effects),
      ∃ s, ((standard.render template context event).exec fx).1 = .ok s := by
  intro h
  obtain ⟨s, hs⟩ := h "\x7b\x7b context.n | currency \x7d\x7d" (.record [("n", .int (Int.pow 10 400))])
    .null {}
  have hnone : ((standard.render "\x7b\x7b context.n | currency \x7d\x7d"
      (.record [("n", .int (Int.pow 10 400))]) .null).exec {}).1.toOption.isNone = true := by
    decide +kernel
  rw [hs] at hnone
  cases hnone

end Renderer

end Statechart
