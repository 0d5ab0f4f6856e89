/-
# How an evaluation fails

An expression is built by its host and evaluated on data of any kind, so every operator has to say
what it makes of operands it is not meant for.  It says so in one of two ways: it complains, which is a
failed evaluation, or an operation on the operands fails, and the whole expression is then called
invalid.  Nothing else can come out of an evaluation (`Fault.OfEvaluation`), a complaint about an
unknown operator names one that is written in the expression, and what is left of the second kind is a
single case, that the complaint cannot be put into words:

* `FailsOnly`: what a computation fails with, with rules for composed computations;
* `Eager.apply_failsOnly`, `Meaning.apply_failsOnly`: the operators;
* `meaning_failsOnly`: every expression on every data;
* **`evaluate_failsOnly`**: an evaluation fails with a failed evaluation, unless the expression holds
  an integer too long to be written (`evaluate_eq_tooLong_iff`: exactly when).
-/
import Statechart.Proofs.Expression

namespace Statechart

/-! ## 1. What a computation fails with -/

/-- A step that comes to its end: the steps it is made of do. -/
theorem bind_eq_ok {ε α β : Type} {x : Except ε α} {f : α → Except ε β} {b : β} :
    x >>= f = .ok b ↔ ∃ a, x = .ok a ∧ f a = .ok b := by
  cases x with
  | error e => simp [bind, Except.bind]
  | ok a => simp [bind, Except.bind]

theorem map_eq_ok {ε α β : Type} {x : Except ε α} {f : α → β} {b : β} :
    f <$> x = .ok b ↔ ∃ a, x = .ok a ∧ f a = b := by
  cases x with
  | error e => simp [Functor.map, Except.map]
  | ok a => simp [Functor.map, Except.map]

theorem mapError_eq_ok {ε δ α : Type} {x : Except ε α} {f : ε → δ} {a : α} :
    x.mapError f = .ok a ↔ x = .ok a := by
  cases x with
  | error e => exact iff_of_false (by rintro ⟨⟩) (by rintro ⟨⟩)
  | ok b =>
    constructor <;> rintro ⟨⟩
    all_goals rfl

theorem mapError_map {ε δ α β : Type} (f : α → β) (g : ε → δ) (x : Except ε α) :
    (f <$> x).mapError g = f <$> x.mapError g := by
  cases x <;> rfl

theorem exists_ok_of_any {ε α : Type} {x : Except ε α} {f : α → Bool}
    (h : x.toOption.any f = true) : ∃ a, x = .ok a ∧ f a = true := by
  cases x with
  | error e => cases h
  | ok a => exact ⟨a, rfl, h⟩

section

variable {ε α β : Type} {P : ε → Prop}

/-- A computation that fails, if at all, with a failure of the given kind. -/
def FailsOnly (P : ε → Prop) (x : Except ε α) : Prop := ∀ e, x = .error e → P e

theorem FailsOnly.ok (a : α) : FailsOnly P (.ok a : Except ε α) := fun _ h => by cases h

theorem FailsOnly.error {e : ε} (h : P e) : FailsOnly P (.error e : Except ε α) := fun _ he => by
  cases he
  exact h

theorem FailsOnly.mono {Q : ε → Prop} {x : Except ε α} (h : FailsOnly P x) (hPQ : ∀ e, P e → Q e) :
    FailsOnly Q x := fun e he => hPQ e (h e he)

theorem FailsOnly.bind {x : Except ε α} {f : α → Except ε β} (hx : FailsOnly P x)
    (hf : ∀ a, FailsOnly P (f a)) : FailsOnly P (x >>= f) := by
  cases x with
  | error e => exact fun e' he => hx e' (by cases he; rfl)
  | ok a => exact hf a

theorem FailsOnly.map {x : Except ε α} (f : α → β) (hx : FailsOnly P x) : FailsOnly P (f <$> x) := by
  cases x with
  | error e => exact fun e' he => hx e' (by cases he; rfl)
  | ok a => exact FailsOnly.ok _

theorem FailsOnly.mapError {δ : Type} {x : Except δ α} {Q : δ → Prop} {f : δ → ε}
    (hx : FailsOnly Q x) (hf : ∀ e, Q e → P (f e)) : FailsOnly P (x.mapError f) := by
  cases x with
  | error e => exact FailsOnly.error (hf e (hx e rfl))
  | ok a => exact FailsOnly.ok _

theorem FailsOnly.mapM {f : α → Except ε β} {xs : List α} (h : ∀ x ∈ xs, FailsOnly P (f x)) :
    FailsOnly P (xs.mapM f) := by
  induction xs with
  | nil => exact FailsOnly.ok _
  | cons x xs ih =>
    rw [List.mapM_cons]
    exact (h x (by simp)).bind fun _ => (ih fun y hy => h y (by simp [hy])).bind fun _ =>
      FailsOnly.ok _

theorem FailsOnly.foldlM {f : β → α → Except ε β} {xs : List α} (h : ∀ b, ∀ x, FailsOnly P (f b x))
    (b : β) : FailsOnly P (xs.foldlM f b) := by
  induction xs generalizing b with
  | nil => exact FailsOnly.ok _
  | cons x xs ih =>
    rw [List.foldlM_cons]
    exact (h b x).bind fun b' => ih b'

end

/-! ## 2. Failures of operations -/

/-- What an expression may fail with: a failed evaluation, or an operation on operands.  An operator
that is unknown is one of those named. -/
def Fault.OfEvaluation (names : List String) : Fault → Prop
  | .evaluation (.unknownOperator k) => k.display ∈ names
  | .evaluation _ => True
  | .data e => isOperandFault e = true
  | _ => False

/-- Failures of operations on operands. -/
abbrev OperandOnly {α : Type} (x : Except DataFault α) : Prop := FailsOnly (isOperandFault · = true) x

/-- Failures of expressions that use no unknown operators but those named. -/
abbrev EvaluationOnly (names : List String) {α : Type} (x : Except Fault α) : Prop :=
  FailsOnly (Fault.OfEvaluation names) x

variable {names : List String}

theorem isOperandFault_arith (e : ArithFault) : isOperandFault (.arith e) = true := by
  cases e <;> rfl

theorem liftArith_operandOnly {α : Type} (r : Except ArithFault α) : OperandOnly (liftArith r) :=
  FailsOnly.mapError (Q := fun _ => True) (fun _ _ => trivial) fun e _ => isOperandFault_arith e

theorem liftData_evaluationOnly {α : Type} {r : Except DataFault α} (h : OperandOnly r) :
    EvaluationOnly names (liftData r) :=
  h.mapError fun _ he => he

/-- A text is read as a double or is said not to be one. -/
theorem Value.asFloat_text (s : String) :
    (∃ x, (text s).asFloat = .ok x) ∨ (text s).asFloat = .error (.notAFloat s) := by
  change (∃ x, parseFloat s = .ok x) ∨ parseFloat s = .error (.notAFloat s)
  delta parseFloat
  cases Numeral.float? s with
  | none => exact .inr rfl
  | some x => exact .inl ⟨x, rfl⟩

theorem shown_operandOnly (v : Value) : OperandOnly v.shown := by
  unfold Value.shown
  split
  · exact FailsOnly.ok _
  · exact FailsOnly.error rfl

/-- A complaint is a failed evaluation, or the failure to put it into words. -/
theorem complaint_ofEvaluation (v : Value) {e : EvalError}
    (he : Fault.OfEvaluation names (.evaluation e)) : (complaint v e).OfEvaluation names := by
  unfold complaint
  split
  · exact he
  · exact rfl

namespace Operand

theorem toNumber_evaluationOnly (v : Value) : EvaluationOnly names (toNumber v) := by
  unfold toNumber
  split
  · exact FailsOnly.ok _
  · exact FailsOnly.error (complaint_ofEvaluation v trivial)

theorem number?_operandOnly (v : Value) : OperandOnly (number? v) := by
  unfold number?
  split
  · exact FailsOnly.ok _
  · split
    · exact FailsOnly.ok _
    · exact FailsOnly.error rfl

theorem looseEq_operandOnly (a b : Value) : OperandOnly (looseEq a b) := by
  unfold looseEq
  split
  · exact FailsOnly.ok _
  · split
    · refine (number?_operandOnly a).bind fun m => (number?_operandOnly b).bind fun n => ?_
      cases m <;> cases n <;> exact FailsOnly.ok _
    · exact FailsOnly.ok _

theorem compare_operandOnly (onText : String → String → Bool) (onNumber : Number → Number → Bool)
    (a b : Value) : OperandOnly (compare onText onNumber a b) := by
  unfold compare
  split
  · exact FailsOnly.ok _
  · refine (number?_operandOnly a).bind fun m => (number?_operandOnly b).bind fun n => ?_
    cases m <;> cases n <;> exact FailsOnly.ok _

theorem catText_operandOnly (v : Value) : OperandOnly (catText v) := by
  unfold catText
  split
  · exact FailsOnly.ok _
  · exact FailsOnly.ok _
  · exact shown_operandOnly v

end Operand

/-! ## 3. Operators on values -/

namespace Eager

variable {p : Value → Value → Except DataFault Bool}

theorem pair_evaluationOnly (vs : List Value) : EvaluationOnly names (pair vs) := by
  unfold pair
  split
  · exact FailsOnly.ok _
  · exact FailsOnly.error trivial

theorem test_evaluationOnly (hp : ∀ a b, OperandOnly (p a b)) (vs : List Value) :
    EvaluationOnly names (test p vs) :=
  (pair_evaluationOnly vs).bind fun _ => (liftData_evaluationOnly (hp _ _)).bind fun _ =>
    FailsOnly.ok _

theorem chain_evaluationOnly (hp : ∀ a b, OperandOnly (p a b)) (vs : List Value) :
    EvaluationOnly names (chain p vs) := by
  unfold chain
  split
  · refine (liftData_evaluationOnly (hp _ _)).bind fun passed => ?_
    split
    · exact (liftData_evaluationOnly (hp _ _)).bind fun _ => FailsOnly.ok _
    · exact FailsOnly.ok _
  · exact test_evaluationOnly hp vs

theorem number_evaluationOnly (r : Except ArithFault Number) : EvaluationOnly names (number r) := by
  unfold number
  split
  · exact FailsOnly.ok _
  · exact FailsOnly.error (isOperandFault_arith _)

theorem fold_evaluationOnly (op : Number → Number → Except ArithFault Number) (start : Number)
    (vs : List Value) : EvaluationOnly names (fold op start vs) := by
  refine FailsOnly.bind (FailsOnly.foldlM (fun acc v => ?_) start) fun _ => number_evaluationOnly _
  exact (Operand.toNumber_evaluationOnly v).bind fun _ =>
    liftData_evaluationOnly (liftArith_operandOnly _)

theorem divide_evaluationOnly (op : Number → Number → Except ArithFault Number) (zero : EvalError)
    (hz : Fault.OfEvaluation names (.evaluation zero)) (vs : List Value) :
    EvaluationOnly names (divide op zero vs) := by
  refine (pair_evaluationOnly vs).bind fun ⟨a, b⟩ =>
    (Operand.toNumber_evaluationOnly b).bind fun divisor => ?_
  have hquotient : EvaluationOnly names (do number (op (← Operand.toNumber a) divisor)) :=
    (Operand.toNumber_evaluationOnly a).bind fun _ => number_evaluationOnly _
  dsimp only
  split
  · exact FailsOnly.bind (FailsOnly.error hz) fun _ => hquotient
  · exact hquotient

theorem anyLoose_operandOnly (needle : Value) (vs : List Value) :
    OperandOnly (anyLoose needle vs) := by
  induction vs with
  | nil => exact FailsOnly.ok _
  | cons v vs ih =>
    refine (Operand.looseEq_operandOnly needle v).bind fun found => ?_
    cases found
    · exact ih
    · exact FailsOnly.ok _

theorem membership_evaluationOnly (needle haystack : Value) :
    EvaluationOnly names (membership needle haystack) := by
  unfold membership
  split
  · exact (liftData_evaluationOnly (shown_operandOnly needle)).bind fun _ => FailsOnly.ok _
  · exact (liftData_evaluationOnly (anyLoose_operandOnly _ _)).bind fun _ => FailsOnly.ok _
  · split
    · exact FailsOnly.error rfl
    · exact FailsOnly.error rfl
    · exact FailsOnly.ok _
  · exact FailsOnly.ok _

theorem extent_evaluationOnly (vs : List Value) : EvaluationOnly names (extent vs) := by
  unfold extent
  split
  case h_5 | h_6 => exact FailsOnly.error trivial
  all_goals exact FailsOnly.ok _

theorem extreme_evaluationOnly (pick : Number → List Number → Number) (vs : List Value) :
    EvaluationOnly names (extreme pick vs) := by
  refine (FailsOnly.mapM fun v _ => Operand.toNumber_evaluationOnly v).bind fun ns => ?_
  cases ns <;> exact FailsOnly.ok _

theorem mul_evaluationOnly (vs : List Value) : EvaluationOnly names (mul.apply vs) := by
  simp only [apply]
  split
  · exact FailsOnly.error trivial
  · exact fold_evaluationOnly _ _ _

theorem sub_evaluationOnly (vs : List Value) : EvaluationOnly names (sub.apply vs) := by
  simp only [apply]
  split
  · exact (Operand.toNumber_evaluationOnly _).bind fun _ => number_evaluationOnly _
  · exact (pair_evaluationOnly _).bind fun _ => (Operand.toNumber_evaluationOnly _).bind fun _ =>
      (Operand.toNumber_evaluationOnly _).bind fun _ => number_evaluationOnly _

/-- **An eager operator complains, or an operation on its operands fails.** -/
theorem apply_failsOnly (op : Eager) (vs : List Value) : EvaluationOnly names (op.apply vs) := by
  cases op with
  | looseEq => exact test_evaluationOnly Operand.looseEq_operandOnly vs
  | looseNe => exact test_evaluationOnly (fun a b => (Operand.looseEq_operandOnly a b).map _) vs
  | strictEq => exact test_evaluationOnly (fun _ _ => FailsOnly.ok _) vs
  | strictNe =>
    exact test_evaluationOnly (p := fun a b => .ok (!Operand.strictEq a b))
      (fun _ _ => FailsOnly.ok _) vs
  | gt => exact test_evaluationOnly (Operand.compare_operandOnly _ _) vs
  | ge => exact test_evaluationOnly (Operand.compare_operandOnly _ _) vs
  | lt => exact chain_evaluationOnly (Operand.compare_operandOnly _ _) vs
  | le => exact chain_evaluationOnly (Operand.compare_operandOnly _ _) vs
  | not => exact FailsOnly.ok _
  | truth => exact FailsOnly.ok _
  | add => exact fold_evaluationOnly _ _ vs
  | sub => exact sub_evaluationOnly vs
  | mul => exact mul_evaluationOnly vs
  | div => exact divide_evaluationOnly _ .divisionByZero trivial vs
  | mod => exact divide_evaluationOnly _ .moduloByZero trivial vs
  | isIn => exact (pair_evaluationOnly vs).bind fun _ => membership_evaluationOnly _ _
  | length => exact extent_evaluationOnly vs
  | cat =>
    exact (liftData_evaluationOnly
      (FailsOnly.mapM fun v _ => Operand.catText_operandOnly v)).bind fun _ => FailsOnly.ok _
  | min => exact extreme_evaluationOnly _ vs
  | max => exact extreme_evaluationOnly _ vs
  | merge => exact FailsOnly.ok _

end Eager

/-! ## 4. Operators on meanings -/

namespace Meaning

/-- A meaning that fails as evaluations may fail, on any data. -/
def Tame (names : List String) (m : Meaning) : Prop := ∀ d, EvaluationOnly names (m d)

variable {ms : List Meaning} {body : Meaning}

theorem lookup_evaluationOnly (d : Data) (path : String) : EvaluationOnly names (d.lookup path) :=
  FailsOnly.mapError (Q := fun _ => True) (fun _ _ => trivial) fun _ _ => trivial

theorem values_evaluationOnly (h : ∀ m ∈ ms, Tame names m) (d : Data) :
    EvaluationOnly names (values ms d) :=
  FailsOnly.mapM fun m hm => h m hm d

theorem variablePath?_evaluationOnly (v : Value) : EvaluationOnly names (variablePath? v) := by
  unfold variablePath?
  split
  · exact FailsOnly.ok _
  · exact FailsOnly.ok _
  · exact (liftData_evaluationOnly (shown_operandOnly _)).bind fun _ => FailsOnly.ok _
  · exact (liftData_evaluationOnly (liftArith_operandOnly _)).bind fun _ =>
      (liftData_evaluationOnly (shown_operandOnly _)).bind fun _ => FailsOnly.ok _
  · exact FailsOnly.error trivial

/-- A variable whose path and default are known. -/
theorem found_evaluationOnly (d : Data) (p default : Value) : EvaluationOnly names (do
    match ← variablePath? p with
    | none => return d.whole
    | some s =>
      let v ← d.lookup s
      return if v.isNull then default else v) := by
  refine (variablePath?_evaluationOnly p).bind fun name => ?_
  cases name with
  | none => exact FailsOnly.ok _
  | some s => exact (lookup_evaluationOnly d s).bind fun _ => FailsOnly.ok _

theorem var_tame (h : ∀ m ∈ ms, Tame names m) : Tame names (var ms) := by
  intro d
  unfold var
  split
  · exact FailsOnly.ok _
  · rename_i path rest
    refine (h path (by simp) d).bind fun p => ?_
    cases rest with
    | nil => exact (FailsOnly.ok _).bind fun default => found_evaluationOnly d p default
    | cons m ms => exact (h m (by simp) d).bind fun default => found_evaluationOnly d p default

theorem missingOf_evaluationOnly (d : Data) (ps : List Value) :
    EvaluationOnly names (missingOf d ps) := by
  induction ps with
  | nil => exact FailsOnly.ok _
  | cons p ps ih =>
    exact (liftData_evaluationOnly (shown_operandOnly p)).bind fun s =>
      (lookup_evaluationOnly d s).bind fun _ => ih.bind fun _ => FailsOnly.ok _

theorem missing_tame (h : ∀ m ∈ ms, Tame names m) : Tame names (missing ms) := fun d =>
  (values_evaluationOnly h d).bind fun _ => (missingOf_evaluationOnly d _).bind fun _ =>
    FailsOnly.ok _

theorem cond_tame : (ms : List Meaning) → (∀ m ∈ ms, Tame names m) → Tame names (cond ms)
  | [], _, _ => FailsOnly.ok _
  | [m], h, d => h m (by simp) d
  | c :: t :: rest, h, d => by
    refine (h c (by simp) d).bind fun v => ?_
    split
    · exact h t (by simp) d
    · exact cond_tame rest (fun m hm => h m (by simp [hm])) d

theorem andFrom_evaluationOnly (h : ∀ m ∈ ms, Tame names m) (v : Value) (d : Data) :
    EvaluationOnly names (andFrom v ms d) := by
  induction ms generalizing v with
  | nil => exact FailsOnly.ok _
  | cons m ms ih =>
    refine (h m (by simp) d).bind fun w => ?_
    split
    · exact ih (fun m hm => h m (by simp [hm])) w
    · exact FailsOnly.ok _

theorem orFrom_evaluationOnly (h : ∀ m ∈ ms, Tame names m) (v : Value) (d : Data) :
    EvaluationOnly names (orFrom v ms d) := by
  induction ms generalizing v with
  | nil => exact FailsOnly.ok _
  | cons m ms ih =>
    refine (h m (by simp) d).bind fun w => ?_
    split
    · exact FailsOnly.ok _
    · exact ih (fun m hm => h m (by simp [hm])) w

theorem mapItems_evaluationOnly (h : Tame names body) (vs : List Value) :
    EvaluationOnly names (mapItems body vs) := by
  induction vs with
  | nil => exact FailsOnly.ok _
  | cons v vs ih => exact (h _).bind fun _ => ih.bind fun _ => FailsOnly.ok _

theorem filterItems_evaluationOnly (h : Tame names body) (vs : List Value) :
    EvaluationOnly names (filterItems body vs) := by
  induction vs with
  | nil => exact FailsOnly.ok _
  | cons v vs ih => exact (h _).bind fun _ => ih.bind fun _ => FailsOnly.ok _

theorem someItem_evaluationOnly (h : Tame names body) (vs : List Value) :
    EvaluationOnly names (someItem body vs) := by
  induction vs with
  | nil => exact FailsOnly.ok _
  | cons v vs ih =>
    refine (h _).bind fun w => ?_
    split
    · exact FailsOnly.ok _
    · exact ih

theorem everyItem_evaluationOnly (h : Tame names body) (vs : List Value) :
    EvaluationOnly names (everyItem body vs) := by
  induction vs with
  | nil => exact FailsOnly.ok _
  | cons v vs ih =>
    refine (h _).bind fun w => ?_
    split
    · exact ih
    · exact FailsOnly.ok _

theorem overItems_evaluationOnly (q : Quantifier) (h : Tame names body) (vs : List Value) :
    EvaluationOnly names (overItems q body vs) := by
  cases q with
  | map => exact (mapItems_evaluationOnly h vs).bind fun _ => FailsOnly.ok _
  | filter => exact (filterItems_evaluationOnly h vs).bind fun _ => FailsOnly.ok _
  | some => exact (someItem_evaluationOnly h vs).bind fun _ => FailsOnly.ok _
  | all =>
    simp only [overItems]
    split
    · exact FailsOnly.ok _
    · exact (everyItem_evaluationOnly h vs).bind fun _ => FailsOnly.ok _

theorem itemsOf_evaluationOnly (q : Quantifier) (v : Value) : EvaluationOnly names (itemsOf q v) := by
  unfold itemsOf
  split
  · exact FailsOnly.ok _
  · exact FailsOnly.ok _
  · exact FailsOnly.error trivial

theorem each_tame (q : Quantifier) (h : ∀ m ∈ ms, Tame names m) : Tame names (each q ms) := by
  intro d
  unfold each
  split
  · rename_i items body
    exact (h items (by simp) d).bind fun v => (itemsOf_evaluationOnly q v).bind fun vs =>
      overItems_evaluationOnly q (h body (by simp)) vs
  · exact FailsOnly.error trivial

/-- **An operator fails as its operands do, or as evaluations may fail.** -/
theorem apply_failsOnly (op : Operator) (h : ∀ m ∈ ms, Tame names m) :
    Tame names (apply op ms) := by
  cases op with
  | eager e => exact fun d => (values_evaluationOnly h d).bind fun vs => e.apply_failsOnly vs
  | var => exact var_tame h
  | missing => exact missing_tame h
  | cond => exact cond_tame ms h
  | and =>
    intro d
    unfold apply Meaning.and
    split
    · exact FailsOnly.error trivial
    · exact andFrom_evaluationOnly h _ d
  | or =>
    intro d
    unfold apply Meaning.or
    split
    · exact FailsOnly.error trivial
    · exact orFrom_evaluationOnly h _ d
  | each q => exact each_tame q h

theorem applyNamed_tame (k : Key) (hk : Operator.ofKey? k = none → k.display ∈ names)
    (h : ∀ m ∈ ms, Tame names m) : Tame names (applyNamed k ms) := by
  unfold applyNamed
  split
  · exact apply_failsOnly _ h
  · rename_i hnone
    exact fun _ => FailsOnly.error (complaint_ofEvaluation _ (hk hnone))

end Meaning

/-! ## 5. Expressions -/

open Meaning

theorem ordered_operandOnly {α : Type} (key : α → Key) (xs : List α) :
    OperandOnly (Key.ordered key xs) := by
  unfold Key.ordered
  dsimp only
  split
  · exact FailsOnly.ok _
  · split
    · exact FailsOnly.error rfl
    · exact FailsOnly.ok _

theorem malformed_tame (es : Entries) : Tame names (malformed es) := by
  intro d
  unfold malformed
  split
  · exact FailsOnly.error (complaint_ofEvaluation _ trivial)
  · rename_i e he
    exact FailsOnly.error (ordered_operandOnly id es.keys e he)

/-- **Every expression fails as evaluations may fail**, whatever it is evaluated on, and with an
unknown operator only if it is one of its own. -/
theorem meaning_failsOnly (v : Value) : unknownOperators v ⊆ names → Tame names (meaning v) := by
  induction v using Value.induction_on_operands with
  | literal v hv =>
    intro _ d
    rw [meaning_literal hv]
    exact FailsOnly.ok _
  | list vs ih =>
    intro h d
    rw [meaning_list]
    refine FailsOnly.bind (values_evaluationOnly (fun m hm => ?_) d) fun _ => FailsOnly.ok _
    obtain ⟨v, hv, rfl⟩ := List.mem_map.mp hm
    exact ih v hv fun s hs => h (mem_unknownOperators_list.mpr ⟨v, hv, hs⟩)
  | apply k v ih =>
    intro h
    rw [meaning_apply]
    refine applyNamed_tame k (fun hk => h (mem_unknownOperators_apply.mpr (.inl ⟨hk, rfl⟩))) ?_
    intro m hm
    obtain ⟨w, hw, rfl⟩ := List.mem_map.mp hm
    exact ih w hw fun s hs => h (mem_unknownOperators_apply.mpr (.inr ⟨w, hw, hs⟩))
  | malformed es hes =>
    intro _
    rw [meaning_malformed hes]
    exact malformed_tame es

/-- What an evaluation comes to is what the expression means. -/
theorem evaluate_eq_ok_iff {expr context event v : Value} :
    evaluate expr context event = .ok v ↔ meaning expr (.flow context event) = .ok v := by
  unfold evaluate
  cases meaning expr (.flow context event) with
  | ok w => rfl
  | error f => cases f <;> simp

/-- An evaluation fails beyond a failed evaluation exactly when an operation fails in an expression
that cannot be written out. -/
theorem evaluate_eq_tooLong_iff {expr context event : Value} {e : DataFault} :
    evaluate expr context event = .error (.data e) ↔
      e = .textTooLong ∧ expr.writable = false ∧
        ∃ e', meaning expr (.flow context event) = .error (.data e') := by
  unfold evaluate complaint
  cases h : meaning expr (.flow context event) with
  | ok v => simp
  | error f =>
    have hf := meaning_failsOnly expr (List.Subset.refl _) _ f h
    cases f with
    | data e' =>
      have he' : isOperandFault e' = true := hf
      cases hw : expr.writable <;> simp [he', eq_comm]
    | evaluation e' => simp
    | _ => cases hf

/-- **An evaluation fails with a failed evaluation**, or its complaint cannot be put into words. -/
theorem evaluate_failsOnly (expr context event : Value) :
    FailsOnly (fun f => (∃ e, f = .evaluation e) ∨ (f = .data .textTooLong ∧ expr.writable = false))
      (evaluate expr context event) := by
  intro f hf
  cases f with
  | evaluation e => exact .inl ⟨e, rfl⟩
  | data e =>
    obtain ⟨rfl, hw, -⟩ := evaluate_eq_tooLong_iff.mp hf
    exact .inr ⟨rfl, hw⟩
  | _ =>
    -- no other failure passes the evaluation
    unfold evaluate at hf
    split at hf
    · simp only [Except.error.injEq] at hf
      unfold complaint at hf
      split at hf
      · split at hf <;> cases hf
      · cases hf
    · exact absurd (meaning_failsOnly expr (List.Subset.refl _) _ _ hf) id

end Statechart
