/-
# Operators of expressions

An expression is a value; a mapping with one entry applies the operator named by its key. This
module lists the operators. The eager ones act on the values of their operands, the others decide
themselves which operands are evaluated.

* `Operator.ofName?`, `Operator.names`;
* `ofName?_isSome_iff`: the names are exactly those of the operators.
-/
import Statechart.Fault

namespace Statechart

/-- Operators on the values of their operands. -/
inductive Eager where
  | looseEq | looseNe | strictEq | strictNe
  | gt | ge | lt | le
  | not | truth
  | add | sub | mul | div | mod
  | isIn | length | cat | min | max | merge
deriving DecidableEq, Repr, Inhabited

/-- Operators over the items of a list, whose second operand is evaluated for each item. -/
inductive Quantifier where
  | map | filter | some | all
deriving DecidableEq, Repr, Inhabited

/-- An operator. -/
inductive Operator where
  | eager (e : Eager)
  | var
  | missing
  | cond
  | and
  | or
  | each (q : Quantifier)
deriving DecidableEq, Repr, Inhabited

def Quantifier.label : Quantifier → String
  | map => "map"
  | filter => "filter"
  | some => "some"
  | all => "all"

namespace Operator

/-- Every name of an operator with the operator it names. -/
def table : List (String × Operator) :=
  [("==", .eager .looseEq), ("!=", .eager .looseNe), ("===", .eager .strictEq),
   ("!==", .eager .strictNe), (">", .eager .gt), (">=", .eager .ge), ("<", .eager .lt),
   ("<=", .eager .le), ("!", .eager .not), ("not", .eager .not), ("!!", .eager .truth),
   ("+", .eager .add), ("-", .eager .sub), ("*", .eager .mul), ("/", .eager .div),
   ("%", .eager .mod), ("in", .eager .isIn), ("length", .eager .length), ("cat", .eager .cat),
   ("min", .eager .min), ("max", .eager .max), ("merge", .eager .merge),
   ("var", .var), ("missing", .missing), ("if", .cond), ("?:", .cond), ("and", .and), ("or", .or),
   ("map", .each .map), ("filter", .each .filter), ("some", .each .some), ("all", .each .all)]

/-- The names of operators. -/
def names : List String := table.map (·.1)

/-- The operator of a name. -/
def ofName? (s : String) : Option Operator := table.lookup s

/-- The operator named by a key of a mapping. -/
def ofKey? : Key → Option Operator
  | .text s => ofName? s
  | _ => none

theorem lookup_isSome_iff {β : Type} (s : String) (t : List (String × β)) :
    (t.lookup s).isSome ↔ s ∈ t.map (·.1) := by
  induction t with
  | nil => simp
  | cons e t ih =>
    obtain ⟨k, v⟩ := e
    by_cases h : s = k
    · simp [h]
    · have hb : (s == k) = false := by simpa using h
      simp only [List.lookup_cons, hb, ih, List.map_cons, List.mem_cons, h, false_or]

/-- A name has an operator when it is one of the names. -/
theorem ofName?_isSome_iff (s : String) : (ofName? s).isSome ↔ s ∈ names :=
  lookup_isSome_iff s table

end Operator

/-- Whether a value applies an operator: a mapping whose one key names it. -/
def Value.isOperation : Value → Bool
  | .dict [(k, _)] => (Operator.ofKey? k).isSome
  | _ => false

end Statechart
