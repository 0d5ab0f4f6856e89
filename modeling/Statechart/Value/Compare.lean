/-
# Equality, order and truth

Numbers are equal when they denote the same number, whatever their kind, and truth values count as
0 and 1; mappings are equal when they have equal entries in any order. Two notions of truth occur:
for `isTruthy` a value is false when it is null, false, zero or empty; `holds` is the same except
that every mapping holds.

* `Value.same`: equality;
* `Key.ordered`: things in the order of their keys;
* `Value.isTruthy`, `Value.holds`.
-/
import Statechart.Fault.Data

namespace Statechart

/-- Equality of keys. -/
def Key.same (a b : Key) : Bool :=
  match a, b with
  | .text s, .text t => s = t
  | .null, .null => true
  | a, b =>
    match a.toValue.number?, b.toValue.number? with
    | some m, some n => m.eq n
    | _, _ => false

/-- Whether a key may stand before another: texts in the order of their characters, numbers in theirs. -/
def Key.precedes (a b : Key) : Bool :=
  match a.toValue.number?, b.toValue.number? with
  | some m, some n => m.le n
  | _, _ => a.display ≤ b.display

/-- Things in the order of their keys, which must be all text or all numbers. -/
def Key.ordered {α : Type} (key : α → Key) (xs : List α) : Except DataFault (List α) :=
  let ks := xs.map key
  let sorted := xs.mergeSort fun a b => (key a).precedes (key b)
  if ks.all (·.kind = .text) || ks.all (·.toValue.number?.isSome) then .ok sorted
  else
    let clash := (ks.zip ks.tail).find? fun (a, b) =>
      !(a.kind = .text ∧ b.kind = .text) ∧
        !(a.toValue.number?.isSome ∧ b.toValue.number?.isSome)
    match clash with
    | some (a, b) => .error (.unordered "<" b.kind a.kind)
    | none => .ok xs

/-- The value under an equal key. -/
def Entries.lookupKey (k : Key) : Entries → Option Value
  | [] => none
  | (j, v) :: es => if j.same k then some v else lookupKey k es

namespace Value

/-- Equality of a number and a value. -/
def sameNumber (m : Number) (b : Value) : Bool :=
  match b.number? with
  | some n => m.eq n
  | none => false

mutual

/-- Equality of values. -/
def same : Value → Value → Bool
  | .null, b => b.isNull
  | .text s, b => match b with
    | .text t => s = t
    | _ => false
  | .list vs, b => match b with
    | .list ws => sameItems vs ws
    | _ => false
  | .dict es, b => match b with
    | .dict fs => es.length = fs.length && sameEntries es fs
    | _ => false
  | .bool x, b => sameNumber (.int (if x then 1 else 0)) b
  | .int n, b => sameNumber (.int n) b
  | .float x, b => sameNumber (.float x) b

def sameItems : List Value → List Value → Bool
  | [], ws => ws.isEmpty
  | v :: vs, ws => match ws with
    | [] => false
    | w :: ws => same v w && sameItems vs ws

def sameEntries : List (Key × Value) → Entries → Bool
  | [], _ => true
  | (k, v) :: es, fs =>
    (match Entries.lookupKey k fs with
      | some w => same v w
      | none => false) && sameEntries es fs

end

/-- Whether a number counts as true. -/
def numberHolds (n : Number) : Bool := !n.isZero

/-- False for null, false, zero and everything empty. -/
def isTruthy : Value → Bool
  | null => false
  | bool b => b
  | int n => n ≠ 0
  | float x => numberHolds (.float x)
  | text s => s ≠ ""
  | list vs => !vs.isEmpty
  | dict es => !es.isEmpty

/-- Truth inside expressions: every mapping holds, even the empty one. -/
def holds : Value → Bool
  | dict _ => true
  | v => v.isTruthy

end Value

end Statechart
