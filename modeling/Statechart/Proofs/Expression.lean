/-
# The parts of an expression

An expression is a literal, a list of expressions, an operator applied to operands, or a mapping that
applies none.  The operands of an operator are written as a list, or singly when there is one, and
what is said of an expression is said of its operands in the same way for both spellings:

* `Value.operands`, `Value.application`, `Value.induction_on_operands`: the operands, an operator applied to
  some, and induction on the parts;
* `meaning_apply`, `mem_unknownOperators_apply`, `pathsRead_apply`: what an expression means, which
  operators it uses and which paths it reads, in terms of its operands.
-/
import Statechart.Expr.Inspect

namespace Statechart

/-! ## 1. Parts -/

namespace Value

/-- The operands that are written for an operator. -/
def operands : Value → List Value
  | .list vs => vs
  | v => [v]

/-- An operator by its name, applied to operands. -/
def application (operator : String) (operands : List Value) : Value :=
  .dict [(.text operator, .list operands)]

/-- A value that stands for itself in an expression. -/
def IsLiteral : Value → Prop
  | .list _ | .dict _ => False
  | _ => True

theorem firstOperand?_eq (v : Value) : v.firstOperand? = v.operands.head? := by
  cases v <;> rfl

theorem sizeOf_operands_lt {v w : Value} (h : w ∈ v.operands) : sizeOf w < 1 + sizeOf v := by
  cases v with
  | list vs =>
    have hw : sizeOf w < sizeOf vs := List.sizeOf_lt_of_mem h
    simp only [list.sizeOf_spec]
    omega
  | _ =>
    obtain rfl := List.mem_singleton.mp h
    omega

/-- Induction on the parts of an expression. -/
theorem induction_on_operands {P : Value → Prop} (literal : ∀ v, v.IsLiteral → P v)
    (list : ∀ vs, (∀ v ∈ vs, P v) → P (.list vs))
    (apply : ∀ k v, (∀ w ∈ v.operands, P w) → P (.dict [(k, v)]))
    (malformed : ∀ es, es.length ≠ 1 → P (.dict es)) : (v : Value) → P v
  | .list vs => list vs fun v hv => by
    have hless : sizeOf v < sizeOf vs := List.sizeOf_lt_of_mem hv
    exact induction_on_operands literal list apply malformed v
  | .dict [(k, v)] => apply k v fun w hw => by
    have hless := sizeOf_operands_lt hw
    exact induction_on_operands literal list apply malformed w
  | .dict [] => malformed _ (by simp)
  | .dict (_ :: _ :: _) => malformed _ (by simp)
  | .null | .bool _ | .int _ | .float _ | .text _ => literal _ trivial
termination_by v => sizeOf v
decreasing_by
  · simp only [Value.list.sizeOf_spec]
    omega
  · simp only [Value.dict.sizeOf_spec, List.cons.sizeOf_spec, Prod.mk.sizeOf_spec]
    omega

end Value

/-! ## 2. Meanings -/

theorem meanings_eq_map (vs : List Value) : meanings vs = vs.map meaning := by
  induction vs with
  | nil => rw [meanings, List.map_nil]
  | cons v vs ih => rw [meanings, ih, List.map_cons]

theorem meaning_literal {v : Value} (h : v.IsLiteral) : meaning v = fun _ => .ok v := by
  cases v <;> first | exact absurd h id | rw [meaning] <;> simp

theorem meaning_list (vs : List Value) :
    meaning (.list vs) = fun d => do return .list (← Meaning.values (vs.map meaning) d) := by
  rw [meaning, meanings_eq_map]

/-- An operator is applied to the meanings of its operands. -/
theorem meaning_apply (k : Key) (v : Value) :
    meaning (.dict [(k, v)]) = Meaning.applyNamed k (v.operands.map meaning) := by
  cases v <;> simp [meaning, meanings_eq_map, Value.operands]

theorem meaning_application (operator : String) (vs : List Value) :
    meaning (.application operator vs) = Meaning.applyNamed (.text operator) (vs.map meaning) :=
  meaning_apply _ _

theorem meaning_malformed {es : Entries} (h : es.length ≠ 1) : meaning (.dict es) = malformed es := by
  match es, h with
  | [], _ => rw [meaning] <;> simp
  | _ :: _ :: _, _ => rw [meaning] <;> simp

/-! ## 3. Operators that are used -/

theorem mem_unknownOf {s : String} {vs : List Value} :
    s ∈ unknownOf vs ↔ ∃ v ∈ vs, s ∈ unknownOperators v := by
  induction vs with
  | nil => simp [unknownOf]
  | cons v vs ih => simp [unknownOf, ih]

theorem mem_unknownIn {s : String} {es : Entries} :
    s ∈ unknownIn es ↔ ∃ e ∈ es, s ∈ unknownOperators e.2 := by
  induction es with
  | nil => simp [unknownIn]
  | cons e es ih =>
    obtain ⟨k, v⟩ := e
    simp [unknownIn, ih]

theorem mem_unknownOperators_list {s : String} {vs : List Value} :
    s ∈ unknownOperators (.list vs) ↔ ∃ v ∈ vs, s ∈ unknownOperators v := by
  rw [unknownOperators, mem_unknownOf]

theorem mem_unknownOperators_operands {s : String} {v : Value} :
    s ∈ unknownOperators v ↔ ∃ w ∈ v.operands, s ∈ unknownOperators w := by
  cases v with
  | list vs => exact mem_unknownOperators_list
  | _ => simp [Value.operands]

/-- The unknown operators of an application are those of its operands, and its own. -/
theorem mem_unknownOperators_apply {s : String} {k : Key} {v : Value} :
    s ∈ unknownOperators (.dict [(k, v)]) ↔
      (Operator.ofKey? k = none ∧ s = k.display) ∨ ∃ w ∈ v.operands, s ∈ unknownOperators w := by
  rw [unknownOperators, List.mem_append, ← mem_unknownOperators_operands]
  cases Operator.ofKey? k <;> simp

theorem mem_unknownOperators_malformed {s : String} {es : Entries} (h : es.length ≠ 1) :
    s ∈ unknownOperators (.dict es) ↔ ∃ e ∈ es, s ∈ unknownOperators e.2 := by
  rw [← mem_unknownIn]
  match es, h with
  | [], _ => rw [unknownOperators] <;> simp
  | _ :: _ :: _, _ => rw [unknownOperators] <;> simp

/-! ## 4. Paths that are read -/

theorem pathsReadIn_eq (vs : List Value) : pathsReadIn vs = vs.flatMap pathsRead := by
  induction vs with
  | nil => rw [pathsReadIn, List.flatMap_nil]
  | cons v vs ih => rw [pathsReadIn, ih, List.flatMap_cons]

theorem pathsReadInFirst_eq (vs : List Value) :
    pathsReadInFirst vs = vs.head?.toList.flatMap pathsRead := by
  cases vs <;> simp [pathsReadInFirst]

/-- The path of a variable, the texts among paths that may be missing, what the items are taken from,
and otherwise all operands. -/
theorem pathsRead_apply (k : Key) (v : Value) :
    pathsRead (.dict [(k, v)]) = match Operator.ofKey? k with
      | some .var => literalVariable v
      | some .missing => v.operands.filterMap Value.text?
      | some (.each _) => v.operands.head?.toList.flatMap pathsRead
      | _ => v.operands.flatMap pathsRead := by
  cases v with
  | list vs =>
    rw [pathsRead]
    cases Operator.ofKey? k with
    | none => simp [Value.operands, pathsReadIn_eq]
    | some op => cases op <;> simp [Value.operands, pathsReadIn_eq, pathsReadInFirst_eq]
  | _ =>
    -- a single operand
    rw [pathsRead]
    · cases Operator.ofKey? k with
      | none => simp [Value.operands]
      | some op => cases op <;> simp [Value.operands, Value.text?]
    · exact fun _ h => by cases h

end Statechart
