/-
# What an expression mentions

Without evaluating an expression one can list the variables it reads from the flow and the
operators it uses that do not exist. Variables inside the body of an operator over a list belong to
the item and are not listed; neither are variables whose path is itself computed.

* `pathsRead`, `unknownOperators`;
* `distinctSorted`: the members of a list in order, each once.
-/
import Statechart.Expr.Eval

namespace Statechart

/-- The members of a list in order, each once. -/
def distinctSorted (ss : List String) : List String := (ss.mergeSort (· ≤ ·)).eraseDups

theorem mem_distinctSorted {s : String} {ss : List String} : s ∈ distinctSorted ss ↔ s ∈ ss := by
  simp [distinctSorted]

/-- The first operand, of operands given as a list or singly. -/
def Value.firstOperand? : Value → Option Value
  | .list vs => vs.head?
  | v => some v

/-- The path a variable names literally. -/
def literalVariable (operands : Value) : List String :=
  match operands.firstOperand? with
  | some (.text s) => if s.isEmpty then [] else [s]
  | _ => []

mutual

/-- The literal variable paths an expression reads from the flow. -/
def pathsRead : Value → List String
  | .list vs => pathsReadIn vs
  | .dict [(k, .list vs)] =>
    match Operator.ofKey? k with
    | some .var => literalVariable (.list vs)
    | some .missing => vs.filterMap Value.text?
    | some (.each _) => pathsReadInFirst vs
    | _ => pathsReadIn vs
  | .dict [(k, v)] =>
    match Operator.ofKey? k with
    | some .var => literalVariable v
    | some .missing => v.text?.toList
    | _ => pathsRead v
  | _ => []

def pathsReadIn : List Value → List String
  | [] => []
  | v :: vs => pathsRead v ++ pathsReadIn vs

def pathsReadInFirst : List Value → List String
  | [] => []
  | v :: _ => pathsRead v

end

mutual

/-- The operator names in an expression that name no operator. -/
def unknownOperators : Value → List String
  | .list vs => unknownOf vs
  | .dict [(k, v)] =>
    (if (Operator.ofKey? k).isSome then [] else [k.display]) ++ unknownOperators v
  | .dict es => unknownIn es
  | _ => []

def unknownOf : List Value → List String
  | [] => []
  | v :: vs => unknownOperators v ++ unknownOf vs

def unknownIn : List (Key × Value) → List String
  | [] => []
  | (_, v) :: es => unknownOperators v ++ unknownIn es

end

end Statechart
