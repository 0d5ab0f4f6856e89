/-
# Eager operators

What an eager operator makes of the values of its operands. Sums and products are taken from the
left, each operand being read when its turn comes.

* `Eager.apply`.
-/
import Statechart.Expr.Operator
import Statechart.Expr.Coerce

namespace Statechart

namespace Eager

open Operand

/-- A truth value. -/
def bool (b : Bool) : Except Fault Value := .ok (.bool b)

/-- A number, whole doubles below `2^53` as integers. -/
def number (r : Except ArithFault Number) : Except Fault Value :=
  match r with
  | .ok n => .ok (Value.ofNumber n.normalize)
  | .error e => .error (.data (.arith e))

/-- Exactly two operands. -/
def pair : List Value → Except Fault (Value × Value)
  | [a, b] => .ok (a, b)
  | vs => .error (.evaluation (.comparisonArity vs.length))

/-- A test on exactly two operands. -/
def test (p : Value → Value → Except DataFault Bool) (vs : List Value) : Except Fault Value := do
  let (a, b) ← pair vs
  bool (← liftData (p a b))

/-- A test on two operands, or on both neighbouring pairs of three; the second pair is looked at
only when the first one passes. -/
def chain (p : Value → Value → Except DataFault Bool) : List Value → Except Fault Value
  | [a, b, c] => do if ← liftData (p a b) then bool (← liftData (p b c)) else bool false
  | vs => test p vs

/-- The first operand, null when there is none. -/
def first (vs : List Value) : Value := vs.head?.getD .null

/-- Combine the operands from the left. -/
def fold (op : Number → Number → Except ArithFault Number) (start : Number) (vs : List Value) :
    Except Fault Value := do
  let n ← vs.foldlM (fun acc v => do
    let n ← toNumber v
    liftData (liftArith (op acc n))) start
  number (.ok n)

/-- A division by an operand that must not be zero. -/
def divide (op : Number → Number → Except ArithFault Number) (zero : EvalError) (vs : List Value) :
    Except Fault Value := do
  let (a, b) ← pair vs
  let divisor ← toNumber b
  if divisor.isZero then throw (.evaluation zero)
  number (op (← toNumber a) divisor)

/-- Whether some item equals a value loosely; items after that one are not looked at. -/
def anyLoose (needle : Value) : List Value → Except DataFault Bool
  | [] => .ok false
  | v :: vs => do if ← Operand.looseEq needle v then return true else anyLoose needle vs

/-- Membership: a part of a text, an item of a list, a key of a mapping. -/
def membership (needle haystack : Value) : Except Fault Value :=
  match haystack with
  | .text s => do
    let part ← liftData needle.shown
    bool (occurs part s)
  | .list vs => do bool (← liftData (anyLoose needle vs))
  | .dict es =>
    match needle with
    | .list _ | .dict _ => .error (.data (.unhashable needle.kind))
    | v => bool (es.any fun (k, _) => k.toValue.same v)
  | _ => bool false

/-- The extent of an operand; null counts as empty. -/
def extent : List Value → Except Fault Value
  | [.null] => .ok (.int 0)
  | [.text s] => .ok (.int s.length)
  | [.list vs] => .ok (.int vs.length)
  | [.dict es] => .ok (.int es.length)
  | [v] => .error (.evaluation (.noLength v.kind))
  | vs => .error (.evaluation (.lengthArity vs.length))

/-- The extreme of the operands, null when there are none. -/
def extreme (pick : Number → List Number → Number) (vs : List Value) : Except Fault Value := do
  match ← vs.mapM toNumber with
  | [] => return .null
  | n :: ns => return Value.ofNumber (pick n ns)

/-- All items in one list; an operand that is no list counts as one item. -/
def merged (vs : List Value) : Value :=
  .list <| vs.flatMap fun
    | .list ws => ws
    | v => [v]

/-- What an eager operator makes of its operands. -/
def apply (op : Eager) (vs : List Value) : Except Fault Value :=
  match op with
  | looseEq => test Operand.looseEq vs
  | looseNe => test (fun a b => (!·) <$> Operand.looseEq a b) vs
  | strictEq => test (fun a b => .ok (Operand.strictEq a b)) vs
  | strictNe => test (fun a b => .ok (!Operand.strictEq a b)) vs
  | gt => test Operand.gt vs
  | ge => test Operand.ge vs
  | lt => chain Operand.lt vs
  | le => chain Operand.le vs
  | not => bool !(first vs).holds
  | truth => bool (first vs).holds
  | add => fold Number.add (.int 0) vs
  | sub =>
    match vs with
    | [a] => do number (.ok (← toNumber a).neg)
    | vs => do
      let (a, b) ← pair vs
      let m ← toNumber a
      number (m.sub (← toNumber b))
  | mul => if vs.isEmpty then .error (.evaluation .noFactors) else fold Number.mul (.int 1) vs
  | div => divide Number.div .divisionByZero vs
  | mod => divide Number.fmod .moduloByZero vs
  | isIn => do
    let (a, b) ← pair vs
    membership a b
  | length => extent vs
  | cat => do
    let parts ← liftData (vs.mapM catText)
    return .text (String.join parts)
  | min => extreme Number.least vs
  | max => extreme Number.greatest vs
  | merge => .ok (merged vs)

end Eager

end Statechart
