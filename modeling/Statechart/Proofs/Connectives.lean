/-
# Conditions and connectives

A condition, a conjunction and a disjunction evaluate their operands from the left and stop as soon as one of
them decides.  So a long condition is a short one with the rest in its last place, and the negation of a
conjunction is the disjunction of the negations.  Both laws are equations of meanings, on all data and for
operands that fail as well:

* `Meaning.cond_cons_cons`, `Meaning.negated_and`: the two laws;
* `Meaning.and_append_cons`, `Meaning.or_append_cons`, `Meaning.cond_append_cons`: what stands behind the
  operand that decides does not matter;
* `concur_of_meaning_eq`: expressions of one meaning come to one value, or both fail;
* **`lazily_compositional`**: the laws for evaluations in a flow.

A failed evaluation may quote its expression, so the two sides of a law do not fail in the same words.  And
this is where an integer too long to be written comes in: where an operation fails on its operands in an
expression that holds one, neither side has words for a complaint (`unsaid_of_condition`).
-/
import Statechart.Proofs.Writable

namespace Statechart

namespace Meaning

variable {m c t : Meaning} {ms before after rest : List Meaning} {d : Data}

/-- A meaning comes to a value that holds, or to one that does not. -/
def Comes (m : Meaning) (d : Data) (b : Bool) : Prop := ∃ v, m d = .ok v ∧ v.holds = b

theorem holds_of_not_comes {b : Bool} {v : Value} (hm : ¬ m.Comes d b) (hv : m d = .ok v) :
    v.holds = !b := by
  have hne : v.holds ≠ b := fun hholds => hm ⟨v, hv, hholds⟩
  cases hholds : v.holds <;> cases b <;> simp_all

/-! ## 1. Conditions -/

/-- **A long condition is a short one** with the rest in its last place. -/
theorem cond_cons_cons (c t : Meaning) (rest : List Meaning) :
    cond (c :: t :: rest) = cond [c, t, cond rest] := rfl

theorem cond_of_comes {b : Bool} (h : c.Comes d b) :
    cond (c :: t :: rest) d = if b then t d else cond rest d := by
  obtain ⟨w, hw, rfl⟩ := h
  rw [cond, hw]
  rfl

/-- **The first condition that does not come to something false decides**: what it leads to is evaluated if
it holds, and the whole fails if it fails. -/
theorem cond_append_cons {ps : List (Meaning × Meaning)} (hps : ∀ p ∈ ps, p.1.Comes d false)
    (hc : ¬ c.Comes d false) (t : Meaning) (rest : List Meaning) :
    cond (ps.flatMap (fun p => [p.1, p.2]) ++ c :: t :: rest) d = (c d >>= fun _ => t d) := by
  induction ps with
  | nil =>
    rw [List.flatMap_nil, List.nil_append, cond]
    cases hv : c d with
    | error f => rfl
    | ok w => simp [bind, Except.bind, holds_of_not_comes hc hv]
  | cons p ps ih =>
    obtain ⟨hp, hps⟩ := List.forall_mem_cons.mp hps
    rw [List.flatMap_cons]
    change cond (p.1 :: p.2 :: (ps.flatMap (fun p => [p.1, p.2]) ++ c :: t :: rest)) d = _
    rw [cond_of_comes hp]
    exact ih hps

/-! ## 2. Connectives -/

/-- The value of the first operand that does not come to one like those before, or of the last. -/
def firstUnlike (b : Bool) (value : Value) : List Meaning → Meaning
  | [], _ => .ok value
  | m :: ms, d => do
    let v ← m d
    if v.holds = b then firstUnlike b v ms d else return v

theorem andFrom_eq_firstUnlike (v : Value) (ms : List Meaning) :
    andFrom v ms = firstUnlike true v ms := by
  induction ms generalizing v with
  | nil => rfl
  | cons m ms ih =>
    funext d
    simp only [andFrom, firstUnlike, ih]

theorem orFrom_eq_firstUnlike (v : Value) (ms : List Meaning) :
    orFrom v ms = firstUnlike false v ms := by
  induction ms generalizing v with
  | nil => rfl
  | cons m ms ih =>
    funext d
    rw [orFrom, firstUnlike]
    congr 1
    funext w
    rw [ih]
    cases w.holds <;> rfl

theorem firstUnlike_append_cons {b : Bool} (hbefore : ∀ m ∈ before, m.Comes d b) (hm : ¬ m.Comes d b)
    (v : Value) (after : List Meaning) : firstUnlike b v (before ++ m :: after) d = m d := by
  induction before generalizing v with
  | nil =>
    rw [List.nil_append, firstUnlike]
    cases hv : m d with
    | error f => rfl
    | ok w => simp [bind, Except.bind, pure, Except.pure, holds_of_not_comes hm hv]
  | cons k before ih =>
    obtain ⟨⟨w, hw, hholds⟩, hbefore⟩ := List.forall_mem_cons.mp hbefore
    rw [List.cons_append, firstUnlike, hw]
    simpa only [bind, Except.bind, hholds, if_true] using ih hbefore w

/-- **The first operand that does not come to something that holds decides** a conjunction. -/
theorem and_append_cons (hbefore : ∀ m ∈ before, m.Comes d true) (hm : ¬ m.Comes d true)
    (after : List Meaning) : and (before ++ m :: after) d = m d := by
  rw [and, if_neg (by simp), andFrom_eq_firstUnlike]
  exact firstUnlike_append_cons hbefore hm .null after

/-- **The first operand that does not come to something false decides** a disjunction. -/
theorem or_append_cons (hbefore : ∀ m ∈ before, m.Comes d false) (hm : ¬ m.Comes d false)
    (after : List Meaning) : or (before ++ m :: after) d = m d := by
  rw [or, if_neg (by simp), orFrom_eq_firstUnlike]
  exact firstUnlike_append_cons hbefore hm .null after

/-- The negation of what a meaning comes to. -/
def negated (m : Meaning) : Meaning := fun d => do return .bool !(← m d).holds

/-- Negations are unlike those before them where what they negate is. -/
theorem firstUnlike_map_negated (b : Bool) (v : Value) (ms : List Meaning) (d : Data) :
    firstUnlike (!b) (.bool !v.holds) (ms.map negated) d = do
      return .bool !(← firstUnlike b v ms d).holds := by
  induction ms generalizing v with
  | nil => rfl
  | cons m ms ih =>
    rw [List.map_cons, firstUnlike, firstUnlike, negated]
    cases m d with
    | error f => rfl
    | ok w =>
      have hholds : (Value.bool !w.holds).holds = !w.holds := rfl
      simp only [bind, Except.bind, pure, Except.pure, hholds, Bool.not_inj_iff]
      split
      · exact ih w
      · rfl

/-- **The negation of a conjunction is the disjunction of the negations.** -/
theorem negated_and (h : ms ≠ []) : negated (and ms) = or (ms.map negated) := by
  obtain ⟨m, ms, rfl⟩ := List.exists_cons_of_ne_nil h
  funext d
  rw [or, if_neg (by simp), negated, and, if_neg (by simp), andFrom_eq_firstUnlike,
    orFrom_eq_firstUnlike]
  -- with operands it does not matter what the search begins with
  exact (firstUnlike_map_negated true .null (m :: ms) d).symm

end Meaning

/-! ## 3. Expressions -/

open Meaning

section

variable {x y context event : Value}

/-- An expression comes to a value in a flow that holds, or to one that does not. -/
def Value.Comes (x context event : Value) (b : Bool) : Prop :=
  ∃ v, evaluate x context event = .ok v ∧ v.holds = b

theorem comes_iff {b : Bool} :
    x.Comes context event b ↔ (meaning x).Comes (.flow context event) b := by
  simp only [Value.Comes, Meaning.Comes, evaluate_eq_ok_iff]

def conditional (operands : List Value) : Value := .application "if" operands
def conjunction (operands : List Value) : Value := .application "and" operands
def disjunction (operands : List Value) : Value := .application "or" operands
def negation (operand : Value) : Value := .application "!" [operand]

theorem meaning_conditional (vs : List Value) : meaning (conditional vs) = cond (vs.map meaning) := by
  rw [conditional, meaning_application]
  rfl

theorem meaning_conjunction (vs : List Value) : meaning (conjunction vs) = and (vs.map meaning) := by
  rw [conjunction, meaning_application]
  rfl

theorem meaning_disjunction (vs : List Value) : meaning (disjunction vs) = or (vs.map meaning) := by
  rw [disjunction, meaning_application]
  rfl

theorem meaning_negation (v : Value) : meaning (negation v) = negated (meaning v) := by
  funext d
  rw [negation, meaning_application]
  change (values [meaning v] d >>= _) = _
  rw [values, List.mapM_cons, List.mapM_nil, negated]
  cases meaning v d <;> rfl

/-- An application can be written if its operands can. -/
theorem writable_application (operator : String) (vs : List Value) :
    (Value.application operator vs).writable = vs.all (·.writable) := by
  rw [Bool.eq_iff_iff, Value.application, Value.writable_dict]
  simp [Value.writable_list, Value.writable.goKey]

/-- Two expressions come to the same value in a flow, or the evaluation of both fails; or an operation fails
on its operands in both, and neither can be written into a complaint. -/
inductive Concur (context event x y : Value) : Prop
  | value (v : Value) (hx : evaluate x context event = .ok v) (hy : evaluate y context event = .ok v)
  | failed (e e' : EvalError) (hx : evaluate x context event = .error (.evaluation e))
      (hy : evaluate y context event = .error (.evaluation e'))
  | unsaid (hx : evaluate x context event = .error (.data .textTooLong))
      (hy : evaluate y context event = .error (.data .textTooLong))
      (hwritable : x.writable = false ∧ y.writable = false)

/-- **Expressions of one meaning concur**, if both can be written or neither can. -/
theorem concur_of_meaning_eq (hmeaning : meaning x = meaning y) (hwritable : x.writable = y.writable) :
    Concur context event x y := by
  have hlong : evaluate x context event = .error (.data .textTooLong) ↔
      evaluate y context event = .error (.data .textTooLong) := by
    rw [evaluate_eq_tooLong_iff, evaluate_eq_tooLong_iff, hmeaning, hwritable]
  have hvalue (v : Value) : evaluate x context event = .ok v ↔ evaluate y context event = .ok v := by
    rw [evaluate_eq_ok_iff, evaluate_eq_ok_iff, hmeaning]
  cases hx : evaluate x context event with
  | ok v => exact .value v hx ((hvalue v).mp hx)
  | error f =>
    rcases evaluate_failsOnly x context event f hx with ⟨e, rfl⟩ | ⟨rfl, hw⟩
    · cases hy : evaluate y context event with
      | ok v => cases hx.symm.trans ((hvalue v).mpr hy)
      | error f' =>
        rcases evaluate_failsOnly y context event f' hy with ⟨e', rfl⟩ | ⟨rfl, -⟩
        · exact .failed e e' hx hy
        · cases hx.symm.trans (hlong.mpr hy)
    · exact .unsaid hx (hlong.mp hx) ⟨hw, hwritable ▸ hw⟩

/-- A long condition concurs with the short one that has the rest in its last place. -/
theorem concur_conditional (c t : Value) (rest : List Value) : Concur context event
    (conditional (c :: t :: rest)) (conditional [c, t, conditional rest]) := by
  refine concur_of_meaning_eq ?_ ?_
  · simp only [meaning_conditional, List.map_cons, List.map_nil]
    exact cond_cons_cons _ _ _
  · simp [conditional, writable_application]

/-- The negation of a conjunction concurs with the disjunction of the negations. -/
theorem concur_negation {xs : List Value} (h : xs ≠ []) : Concur context event
    (negation (conjunction xs)) (disjunction (xs.map negation)) := by
  refine concur_of_meaning_eq ?_ ?_
  · rw [meaning_negation, meaning_conjunction, meaning_disjunction, List.map_map,
      negated_and (by simpa using h), List.map_map]
    exact congrArg Meaning.or (List.map_congr_left fun x _ => (meaning_negation x).symm)
  · simp [negation, conjunction, disjunction, writable_application, Function.comp_def]

section Deciding

variable {before : List Value} (after : List Value) (v : Value)

theorem evaluate_conjunction_eq_ok_iff (hbefore : ∀ y ∈ before, y.Comes context event true)
    (hx : ¬ x.Comes context event true) :
    evaluate (conjunction (before ++ x :: after)) context event = .ok v ↔
      evaluate x context event = .ok v := by
  simp only [comes_iff] at hbefore hx
  rw [evaluate_eq_ok_iff, evaluate_eq_ok_iff, meaning_conjunction, List.map_append, List.map_cons,
    and_append_cons (List.forall_mem_map.mpr hbefore) hx]

theorem evaluate_disjunction_eq_ok_iff (hbefore : ∀ y ∈ before, y.Comes context event false)
    (hx : ¬ x.Comes context event false) :
    evaluate (disjunction (before ++ x :: after)) context event = .ok v ↔
      evaluate x context event = .ok v := by
  simp only [comes_iff] at hbefore hx
  rw [evaluate_eq_ok_iff, evaluate_eq_ok_iff, meaning_disjunction, List.map_append, List.map_cons,
    or_append_cons (List.forall_mem_map.mpr hbefore) hx]

theorem evaluate_conditional_eq_ok_iff {pairs : List (Value × Value)} {c t : Value}
    (hpairs : ∀ p ∈ pairs, p.1.Comes context event false) (hc : ¬ c.Comes context event false) :
    evaluate (conditional (pairs.flatMap (fun p => [p.1, p.2]) ++ c :: t :: after)) context event =
        .ok v ↔ c.Comes context event true ∧ evaluate t context event = .ok v := by
  simp only [comes_iff] at hpairs hc ⊢
  have hoperands : (pairs.flatMap (fun p => [p.1, p.2]) ++ c :: t :: after).map meaning =
      (pairs.map fun p => (meaning p.1, meaning p.2)).flatMap (fun p => [p.1, p.2]) ++
        meaning c :: meaning t :: after.map meaning := by
    simp [List.map_flatMap, List.flatMap_map]
  rw [evaluate_eq_ok_iff, evaluate_eq_ok_iff, meaning_conditional, hoperands,
    cond_append_cons (List.forall_mem_map.mpr hpairs) hc, bind_eq_ok]
  constructor
  · rintro ⟨w, hw, ht⟩
    exact ⟨⟨w, hw, holds_of_not_comes hc hw⟩, ht⟩
  · rintro ⟨⟨w, hw, -⟩, ht⟩
    exact ⟨w, hw, ht⟩

end Deciding

/-- **Conditions and connectives are made of their parts, and stop where they are decided.**  In every flow
and for operands of all kinds, a condition concurs with the short one that has the rest of its operands in the
last place, and the negation of a conjunction with the disjunction of the negations.  The first operand that
does not come to something that holds decides a conjunction, the first that does not come to something false a
disjunction or, with what it leads to, a condition, whatever stands behind. -/
theorem lazily_compositional (context event : Value) :
    (∀ c t rest, Concur context event (conditional (c :: t :: rest))
        (conditional [c, t, conditional rest])) ∧
      (∀ xs, xs ≠ [] → Concur context event (negation (conjunction xs))
        (disjunction (xs.map negation))) ∧
      (∀ (before : List Value) (x : Value), (∀ y ∈ before, y.Comes context event true) →
        ¬ x.Comes context event true → ∀ after v,
          evaluate (conjunction (before ++ x :: after)) context event = .ok v ↔
            evaluate x context event = .ok v) ∧
      (∀ (before : List Value) (x : Value), (∀ y ∈ before, y.Comes context event false) →
        ¬ x.Comes context event false → ∀ after v,
          evaluate (disjunction (before ++ x :: after)) context event = .ok v ↔
            evaluate x context event = .ok v) ∧
      ∀ (before : List (Value × Value)) (c t : Value), (∀ p ∈ before, p.1.Comes context event false) →
        ¬ c.Comes context event false → ∀ after v,
          evaluate (conditional (before.flatMap (fun p => [p.1, p.2]) ++ c :: t :: after)) context event =
              .ok v ↔
            c.Comes context event true ∧ evaluate t context event = .ok v :=
  ⟨concur_conditional, fun _ hxs => concur_negation hxs,
    fun _ _ hbefore hx after v => evaluate_conjunction_eq_ok_iff after v hbefore hx,
    fun _ _ hbefore hx after v => evaluate_disjunction_eq_ok_iff after v hbefore hx,
    fun _ _ _ hbefore hc after v => evaluate_conditional_eq_ok_iff after v hbefore hc⟩

end

/-- An operand whose evaluation fails. -/
def lacking : Value := .application "nowhere" []

/-- In each of three expressions the operand that fails is not reached. -/
theorem lazily_compositional_unreached :
    Concur .null .null (negation (conjunction [.int 2, .int 0, lacking]))
        (disjunction [negation (.int 2), negation (.int 0), negation lacking]) ∧
      (Value.Comes (.int 2) .null .null true ∧ ¬ Value.Comes (.int 0) .null .null true) ∧
      (Value.Comes (.int 0) .null .null false ∧ ¬ Value.Comes (.int 2) .null .null false) ∧
      evaluate (conjunction ([.int 2] ++ .int 0 :: [lacking])) .null .null = .ok (.int 0) ∧
      evaluate (disjunction ([.int 0] ++ .int 2 :: [lacking])) .null .null = .ok (.int 2) ∧
      evaluate (conditional ([(.int 0, lacking)].flatMap (fun p => [p.1, p.2]) ++
        .int 2 :: .text "yes" :: [lacking])) .null .null = .ok (.text "yes") := by
  obtain ⟨-, hnegation, hconjunction, hdisjunction, hconditional⟩ := lazily_compositional .null .null
  have htwo : Value.Comes (.int 2) .null .null true := ⟨.int 2, rfl, rfl⟩
  have hzero : Value.Comes (.int 0) .null .null false := ⟨.int 0, rfl, rfl⟩
  have hnot {x : Value} {b : Bool} (h : x.Comes .null .null b) : ¬ x.Comes .null .null !b := by
    rintro ⟨v, hv, hholds⟩
    obtain ⟨w, hw, rfl⟩ := h
    obtain rfl : v = w := Except.ok.inj (hv.symm.trans hw)
    cases hv : v.holds <;> simp_all
  refine ⟨hnegation _ (by simp), ⟨htwo, hnot hzero⟩, ⟨hzero, hnot htwo⟩, ?_, ?_, ?_⟩
  · exact (hconjunction [.int 2] (.int 0) (by simpa using htwo) (hnot hzero) _ _).mpr rfl
  · exact (hdisjunction [.int 0] (.int 2) (by simpa using hzero) (hnot htwo) _ _).mpr rfl
  · exact (hconditional [(.int 0, lacking)] (.int 2) (.text "yes") (by simpa using hzero) (hnot htwo) _
      _).mpr ⟨htwo, rfl⟩

/-- A condition with a quotient that is too large, in an expression that cannot be written: neither side of
the law has a value, and neither complains. -/
theorem unsaid_of_condition : ∃ c t rest,
    evaluate (conditional (c :: t :: rest)) .null .null = .error (.data .textTooLong) ∧
      evaluate (conditional [c, t, conditional rest]) .null .null = .error (.data .textTooLong) ∧
      ¬ ((∃ v, evaluate (conditional (c :: t :: rest)) .null .null = .ok v ∧
          evaluate (conditional [c, t, conditional rest]) .null .null = .ok v) ∨
        (∃ e, evaluate (conditional (c :: t :: rest)) .null .null = .error (.evaluation e)) ∧
          ∃ e, evaluate (conditional [c, t, conditional rest]) .null .null = .error (.evaluation e)) := by
  have hlong : evaluate (conditional [oversizedQuotient, .bool true]) .null .null =
      .error (.data .textTooLong) := eq_of_isUnsaid (by decide +kernel)
  have hnested : evaluate (conditional [oversizedQuotient, .bool true, conditional []]) .null .null =
      .error (.data .textTooLong) := eq_of_isUnsaid (by decide +kernel)
  refine ⟨oversizedQuotient, .bool true, [], hlong, hnested, ?_⟩
  rw [hlong]
  rintro (⟨v, hv, -⟩ | ⟨⟨e, he⟩, -⟩)
  · cases hv
  · cases he

end Statechart
