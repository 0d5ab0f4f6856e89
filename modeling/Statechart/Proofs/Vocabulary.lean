/-
# The operators of an expression

Which operators an expression uses can be read off it, and the check that does so before a flow runs
(`unknownOperators`) visits lists, operands and even mappings that apply nothing.  An evaluation visits
less: it stops at a failure, leaves out operands, and goes through a body once for each item.  What it
visits is always written in the expression, though, and never found in the context or event, however
much a value there looks like an operator at work.  So an expression that passes the check finds all
its operators, and no other operator has a say in what it means:

* `Value.HasPart`, `unknownOperators_subset_of_part`: the check covers every part;
* `meaningBy`, `meaningBy_congr`: the meaning over a table of operators depends on those entries alone
  whose keys are written in operator position (`Value.operatorKeys`), on any data;
* **`recognized_of_known`**: an expression without unknown operators never meets one;
* `Guard.recognized_of_resolve`: neither does a guard, however it was referred to.
-/
import Statechart.Proofs.Verdict

namespace Statechart

/-! ## 1. Parts at any depth -/

/-- A part of an expression: itself, and the parts of its items and entries. -/
inductive Value.HasPart : Value → Value → Prop
  | self (e : Value) : HasPart e e
  | item {v w : Value} {vs : List Value} (mem : v ∈ vs) (part : HasPart v w) : HasPart (.list vs) w
  | entry {k : Key} {v w : Value} {es : Entries} (mem : (k, v) ∈ es) (part : HasPart v w) :
    HasPart (.dict es) w

/-- **The check visits every part of an expression.** -/
theorem unknownOperators_subset_of_part {e w : Value} (h : e.HasPart w) :
    unknownOperators w ⊆ unknownOperators e := by
  induction h with
  | self e => exact List.Subset.refl _
  | item mem _ ih => exact fun s hs => mem_unknownOperators_list.mpr ⟨_, mem, ih hs⟩
  | @entry k v w es mem _ ih =>
    intro s hs
    by_cases hes : es.length = 1
    · obtain ⟨x, rfl⟩ := List.length_eq_one_iff.mp hes
      obtain rfl := List.mem_singleton.mp mem
      exact mem_unknownOperators_apply.mpr (.inr (mem_unknownOperators_operands.mp (ih hs)))
    · exact (mem_unknownOperators_malformed hes).mpr ⟨_, mem, ih hs⟩

/-! ## 2. Meanings over a table of operators -/

/-- A table of operators, as `Operator.ofKey?` is one. -/
abbrev Vocabulary := Key → Option Operator

/-- What the operator that a table has under a key makes of its operands. -/
def Meaning.applyBy (t : Vocabulary) (k : Key) (ms : List Meaning) : Meaning :=
  match t k with
  | some op => apply op ms
  | none => fun _ => .error (complaint k.toValue (.unknownOperator k))

mutual

/-- The meaning of an expression over a table of operators. -/
def meaningBy (t : Vocabulary) : Value → Meaning
  | .list vs => fun d => do return .list (← Meaning.values (meaningsBy t vs) d)
  | .dict [(k, .list vs)] => Meaning.applyBy t k (meaningsBy t vs)
  | .dict [(k, v)] => Meaning.applyBy t k [meaningBy t v]
  | .dict es => malformed es
  | v => fun _ => .ok v

def meaningsBy (t : Vocabulary) : List Value → List Meaning
  | [] => []
  | v :: vs => meaningBy t v :: meaningsBy t vs

end

mutual

/-- The keys in operator position, in an expression and in its operands. -/
def Value.operatorKeys : Value → List Key
  | .list vs => operatorKeysIn vs
  | .dict [(k, v)] => k :: v.operatorKeys
  | _ => []

def Value.operatorKeysIn : List Value → List Key
  | [] => []
  | v :: vs => v.operatorKeys ++ operatorKeysIn vs

end

variable {t t' : Vocabulary}

theorem meaningsBy_eq_map (vs : List Value) : meaningsBy t vs = vs.map (meaningBy t) := by
  induction vs with
  | nil => rw [meaningsBy, List.map_nil]
  | cons v vs ih => rw [meaningsBy, ih, List.map_cons]

theorem meaningBy_literal {v : Value} (h : v.IsLiteral) : meaningBy t v = fun _ => .ok v := by
  cases v <;> first | exact absurd h id | rw [meaningBy] <;> simp

theorem meaningBy_list (vs : List Value) :
    meaningBy t (.list vs) = fun d => do return .list (← Meaning.values (vs.map (meaningBy t)) d) := by
  rw [meaningBy, meaningsBy_eq_map]

theorem meaningBy_apply (k : Key) (v : Value) :
    meaningBy t (.dict [(k, v)]) = Meaning.applyBy t k (v.operands.map (meaningBy t)) := by
  cases v <;> simp [meaningBy, meaningsBy_eq_map, Value.operands]

theorem meaningBy_malformed {es : Entries} (h : es.length ≠ 1) :
    meaningBy t (.dict es) = malformed es := by
  match es, h with
  | [], _ => rw [meaningBy] <;> simp
  | _ :: _ :: _, _ => rw [meaningBy] <;> simp

theorem mem_operatorKeysIn {k : Key} {vs : List Value} :
    k ∈ Value.operatorKeysIn vs ↔ ∃ v ∈ vs, k ∈ v.operatorKeys := by
  induction vs with
  | nil => simp [Value.operatorKeysIn]
  | cons v vs ih => simp [Value.operatorKeysIn, ih]

theorem mem_operatorKeys_operands {k : Key} {v : Value} :
    k ∈ v.operatorKeys ↔ ∃ w ∈ v.operands, k ∈ w.operatorKeys := by
  cases v with
  | list vs => rw [Value.operatorKeys, mem_operatorKeysIn, Value.operands]
  | _ => simp [Value.operands]

/-- The table that expressions are evaluated with. -/
theorem meaningBy_ofKey? (e : Value) : meaningBy Operator.ofKey? e = meaning e := by
  induction e using Value.induction_on_operands with
  | literal v hv => rw [meaningBy_literal hv, meaning_literal hv]
  | list vs ih => rw [meaningBy_list, meaning_list, List.map_congr_left ih]
  | apply k v ih =>
    rw [meaningBy_apply, meaning_apply, List.map_congr_left ih]
    rfl
  | malformed es hes => rw [meaningBy_malformed hes, meaning_malformed hes]

/-- **No operator has a say but those that are written**: two tables that agree on the keys in operator
position give an expression one meaning, and so one outcome on any data. -/
theorem meaningBy_congr {e : Value} (h : ∀ k ∈ e.operatorKeys, t k = t' k) :
    meaningBy t e = meaningBy t' e := by
  induction e using Value.induction_on_operands with
  | literal v hv => rw [meaningBy_literal hv, meaningBy_literal hv]
  | list vs ih =>
    have hall : ∀ v ∈ vs, meaningBy t v = meaningBy t' v := fun v hv => ih v hv fun k hk =>
      h k (mem_operatorKeys_operands.mpr ⟨v, hv, hk⟩)
    rw [meaningBy_list, meaningBy_list, List.map_congr_left hall]
  | apply k v ih =>
    have hall : ∀ w ∈ v.operands, meaningBy t w = meaningBy t' w := fun w hw => ih w hw fun j hj =>
      h j (List.mem_cons_of_mem _ (mem_operatorKeys_operands.mpr ⟨w, hw, hj⟩))
    have hk : t k = t' k := h k List.mem_cons_self
    rw [meaningBy_apply, meaningBy_apply, List.map_congr_left hall, Meaning.applyBy, Meaning.applyBy,
      hk]
  | malformed es hes => rw [meaningBy_malformed hes, meaningBy_malformed hes]

/-! ## 3. Expressions without unknown operators -/

/-- An operator that an evaluation does not know is one that the check has found. -/
theorem mem_unknownOperators_of_meaning {e : Value} {d : Data} {k : Key}
    (h : meaning e d = .error (.evaluation (.unknownOperator k))) : k.display ∈ unknownOperators e :=
  meaning_failsOnly e (List.Subset.refl _) d _ h

theorem meaning_of_evaluate {e context event : Value} {k : Key}
    (h : evaluate e context event = .error (.evaluation (.unknownOperator k))) :
    meaning e (.flow context event) = .error (.evaluation (.unknownOperator k)) := by
  unfold evaluate at h
  split at h
  · -- a failed operation is quoted with the whole expression
    simp only [Except.error.injEq] at h
    unfold complaint at h
    split at h
    · split at h <;> cases h
    · cases h
  · exact h

theorem evaluate_ne_unknown {e : Value} (h : unknownOperators e = []) (context event : Value)
    (k : Key) : evaluate e context event ≠ .error (.evaluation (.unknownOperator k)) := by
  intro hfail
  have hmem := mem_unknownOperators_of_meaning (meaning_of_evaluate hfail)
  rw [h] at hmem
  exact absurd hmem List.not_mem_nil

/-- **An expression without unknown operators finds all its operators**: in every context and for every
event, whatever these look like; and so does every part of it on all data it may be evaluated on, be
it a flow or an item; and what operators that are not written in it would do makes no difference. -/
theorem recognized_of_known {e : Value} (h : unknownOperators e = []) :
    (∀ context event k, evaluate e context event ≠ .error (.evaluation (.unknownOperator k))) ∧
      (∀ w, e.HasPart w → ∀ d k, meaning w d ≠ .error (.evaluation (.unknownOperator k))) ∧
      ∀ t : Vocabulary, (∀ k ∈ e.operatorKeys, t k = Operator.ofKey? k) →
        meaningBy t e = meaning e := by
  refine ⟨evaluate_ne_unknown h, fun w hw d k hfail => ?_, fun t ht => ?_⟩
  · have hmem := unknownOperators_subset_of_part hw (mem_unknownOperators_of_meaning hfail)
    rw [h] at hmem
    exact absurd hmem List.not_mem_nil
  · rw [← meaningBy_ofKey? e]
    exact meaningBy_congr ht

/-- Whether the lines of an order, or those kept for the case that there are none, ask for what they
ask for. -/
def linesCheck : Value :=
  .record [("all", .list [
    .record [("var", .list [.text "lines", .record [("var", .text "kept")]])],
    .record [("==", .list [.record [("var", .text "wish")],
      .record [("var", .list [.text "other", .record [("var", .text "wish")]])]])]])]

/-- A context in which a line asks for what looks like an unknown operator at work. -/
def disguised : Value :=
  .record [("kept", .list [.record [("wish", .record [("frobnicate", .list [.int 1])])]])]

/-- What looks like an operator passes through a default and the body of a quantifier. -/
theorem recognized_of_known_disguised :
    unknownOperators linesCheck = [] ∧ evaluate linesCheck disguised .null = .ok (.bool true) ∧
      ((∀ context event k, evaluate linesCheck context event ≠
          .error (.evaluation (.unknownOperator k))) ∧
        (∀ w, linesCheck.HasPart w → ∀ d k, meaning w d ≠ .error (.evaluation (.unknownOperator k))) ∧
        ∀ t : Vocabulary, (∀ k ∈ linesCheck.operatorKeys, t k = Operator.ofKey? k) →
          meaningBy t linesCheck = meaning linesCheck) := by
  have hknown : unknownOperators linesCheck = [] := by decide +kernel
  exact ⟨hknown, rfl, recognized_of_known hknown⟩

/-! ## 4. Guards -/

namespace Guard

/-- A guard that is an expression uses no unknown operator. -/
def Known : Guard → Prop
  | logic _ e => Statechart.unknownOperators e = []
  | _ => True

theorem Known.renamed {g : Guard} (h : g.Known) (name : String) : (g.renamed name).Known := by
  cases g <;> exact h

theorem known_of_ofShorthand {ref : String} {g : Guard} (h : ofShorthand ref = .ok g) : g.Known := by
  obtain ⟨_, _, _, rfl, -⟩ := exists_field_of_ofShorthand h
  trivial

theorem known_of_ofExpression {expression : Value} {name : String} {g : Guard}
    (h : ofExpression expression name = .ok g) : g.Known := by
  unfold ofExpression at h
  dsimp only at h
  split at h
  · split at h
    · rename_i hnone
      obtain ⟨_, -, h⟩ := bind_eq_ok.mp h
      cases h
      refine List.eq_nil_iff_forall_not_mem.mpr fun s hs => ?_
      have hmem := mem_distinctSorted.mpr hs
      rw [hnone] at hmem
      exact absurd hmem List.not_mem_nil
    · cases h
  · cases h

theorem liftData_ne_evaluation {α : Type} (r : Except DataFault α) (e : EvalError) :
    liftData r ≠ .error (.evaluation e) := by
  cases r <;> exact fun h => by cases h

theorem Known.recognized {g : Guard} (h : g.Known) (context event : Value) (k : Key) :
    g.test context event ≠ .error (.evaluation (.unknownOperator k)) := by
  cases g with
  | field name check path literal => exact liftData_ne_evaluation _ _
  | logic name e =>
    intro hfail
    simp only [test, evaluateBool] at hfail
    cases he : evaluate e context event with
    | ok v =>
      rw [he] at hfail
      cases hfail
    | error f =>
      rw [he] at hfail
      cases hfail
      exact evaluate_ne_unknown h context event k he
  | host name code =>
    simp only [test]
    cases code.decide context event <;> simp

/-- **A guard that comes of a reference never meets an unknown operator.** -/
theorem recognized_of_resolve {flow : Entries} {host : String → Option HostGuard} {ref : Value}
    {g : Guard} (h : resolve flow host ref = .ok g) (context event : Value) (k : Key) :
    g.test context event ≠ .error (.evaluation (.unknownOperator k)) := by
  have hknown : g.Known := of_resolveFrom (fun _ _ => known_of_ofShorthand)
    (fun _ _ _ => known_of_ofExpression) (fun _ _ => trivial) (fun _ name hg => hg.renamed name) h
  exact hknown.recognized context event k

end Guard

end Statechart
