/-
# Evaluation

The meaning of an expression is a function of the data it is evaluated on: the context and event of
a flow, or one item of a list inside the operators that range over lists. A list means the list of
its items' meanings, a mapping applies the operator its one key names, and everything else means
itself. Data is never evaluated: only the expression's own parts are.

* `meaning`: the meaning of an expression, by recursion on its parts;
* `evaluate`, `evaluateBool`: the value of an expression in a flow.
-/
import Statechart.Expr.Apply

namespace Statechart

/-! ## 1. What expressions are evaluated on -/

/-- The data that variables refer to. -/
inductive Data where
  | flow (context event : Value)
  | item (v : Value)
deriving Inhabited

/-- What an expression yields on data. -/
abbrev Meaning := Data → Except Fault Value

namespace Data

/-- What a variable without a path refers to. -/
def whole : Data → Value
  | flow context _ => context
  | item v => v

/-- The value at a path, null when nothing is there. -/
def lookup (d : Data) (path : String) : Except Fault Value :=
  let found := match d with
    | flow context event => lookupScoped path context event
    | item v => v.atTextD path
  found.mapError fun e => .evaluation (.badVariable path e)

end Data

/-! ## 2. Operators on meanings -/

namespace Meaning

/-- The meanings' values, from the left. -/
def values (ms : List Meaning) (d : Data) : Except Fault (List Value) := ms.mapM (· d)

/-- The path a variable names, none for the data as a whole. -/
def variablePath? : Value → Except Fault (Option String)
  | .null => .ok none
  | .text s => .ok (if s.isEmpty then none else some s)
  | .int n => do return some (← liftData (Value.int n).shown)
  | .float x => do
    let n ← liftData (liftArith (truncate x))
    return some (← liftData (Value.int n).shown)
  | v => .error (.evaluation (.variableKind v.kind))

/-- A variable: the value at a path, or a default in place of null. -/
def var : List Meaning → Meaning
  | [], d => .ok d.whole
  | path :: rest, d => do
    let path ← path d
    let default ← match rest with
      | [] => .ok .null
      | m :: _ => m d
    match ← variablePath? path with
    | none => return d.whole
    | some s =>
      let v ← d.lookup s
      return if v.isNull then default else v

/-- Whether a value counts as missing. -/
def isMissing (v : Value) : Bool := v.isNull || v.same (.text "")

/-- Those of some paths whose value is missing. -/
def missingOf (d : Data) : List Value → Except Fault (List Value)
  | [] => .ok []
  | p :: ps => do
    let v ← d.lookup (← liftData p.shown)
    let rest ← missingOf d ps
    return if isMissing v then p :: rest else rest

/-- The paths among the operands whose value is missing; one list stands for its items. -/
def missing (ms : List Meaning) : Meaning := fun d => do
  let paths ← values ms d
  let paths := match paths with
    | [.list ps] => ps
    | ps => ps
  return .list (← missingOf d paths)

/-- The operand after the first condition that holds, or a last operand without condition. -/
def cond : List Meaning → Meaning
  | [], _ => .ok .null
  | [m], d => m d
  | c :: t :: rest, d => do if (← c d).holds then t d else cond rest d

/-- The first operand that does not hold, or else the last, after `value`. -/
def andFrom (value : Value) : List Meaning → Meaning
  | [], _ => .ok value
  | m :: ms, d => do
    let v ← m d
    if v.holds then andFrom v ms d else return v

/-- The first operand that holds, or else the last, after `value`. -/
def orFrom (value : Value) : List Meaning → Meaning
  | [], _ => .ok value
  | m :: ms, d => do
    let v ← m d
    if v.holds then return v else orFrom v ms d

def and (ms : List Meaning) : Meaning := fun d =>
  if ms.isEmpty then .error (.evaluation (.emptyConnective "and")) else andFrom .null ms d

def or (ms : List Meaning) : Meaning := fun d =>
  if ms.isEmpty then .error (.evaluation (.emptyConnective "or")) else orFrom .null ms d

/-- The body's values on the items. -/
def mapItems (body : Meaning) : List Value → Except Fault (List Value)
  | [] => .ok []
  | v :: vs => do
    let w ← body (.item v)
    return w :: (← mapItems body vs)

/-- The items on which the body holds. -/
def filterItems (body : Meaning) : List Value → Except Fault (List Value)
  | [] => .ok []
  | v :: vs => do
    let w ← body (.item v)
    let rest ← filterItems body vs
    return if w.holds then v :: rest else rest

/-- Whether the body holds on some item; items after that one are not looked at. -/
def someItem (body : Meaning) : List Value → Except Fault Bool
  | [] => .ok false
  | v :: vs => do if (← body (.item v)).holds then return true else someItem body vs

/-- Whether the body holds on every item; items after a failing one are not looked at. -/
def everyItem (body : Meaning) : List Value → Except Fault Bool
  | [] => .ok true
  | v :: vs => do if (← body (.item v)).holds then everyItem body vs else return false

/-- What an operator over a list makes of the items. -/
def overItems (q : Quantifier) (body : Meaning) (vs : List Value) : Except Fault Value :=
  match q with
  | .map => do return .list (← mapItems body vs)
  | .filter => do return .list (← filterItems body vs)
  | .some => do return .bool (← someItem body vs)
  | .all => if vs.isEmpty then .ok (.bool false) else do return .bool (← everyItem body vs)

/-- The items an operand yields; null counts as no items. -/
def itemsOf (q : Quantifier) : Value → Except Fault (List Value)
  | .null => .ok []
  | .list vs => .ok vs
  | v => .error (.evaluation (.notACollection q.label v.kind))

/-- An operator over the items of its first operand. -/
def each (q : Quantifier) : List Meaning → Meaning
  | [items, body], d => do overItems q body (← itemsOf q (← items d))
  | ms, _ => .error (.evaluation (.collectionArity q.label ms.length))

/-- What an operator makes of the meanings of its operands. -/
def apply (op : Operator) (ms : List Meaning) : Meaning :=
  match op with
  | .eager e => fun d => do e.apply (← values ms d)
  | .var => var ms
  | .missing => missing ms
  | .cond => cond ms
  | .and => and ms
  | .or => or ms
  | .each q => each q ms

/-- What the operator named by a key makes of its operands. -/
def applyNamed (k : Key) (ms : List Meaning) : Meaning :=
  match Operator.ofKey? k with
  | some op => apply op ms
  | none => fun _ => .error (complaint k.toValue (.unknownOperator k))

end Meaning

/-! ## 3. Meanings of expressions -/

/-- A mapping that applies no operator because it has not exactly one entry. -/
def malformed (es : Entries) : Meaning := fun _ =>
  match Key.ordered id es.keys with
  | .ok ks => .error (complaint (.list (ks.map Key.toValue)) (.malformed ks))
  | .error e => .error (.data e)

mutual

/-- The meaning of an expression. -/
def meaning : Value → Meaning
  | .list vs => fun d => do return .list (← Meaning.values (meanings vs) d)
  | .dict [(k, .list vs)] => Meaning.applyNamed k (meanings vs)
  | .dict [(k, v)] => Meaning.applyNamed k [meaning v]
  | .dict es => malformed es
  | v => fun _ => .ok v

def meanings : List Value → List Meaning
  | [] => []
  | v :: vs => meaning v :: meanings vs

end

/-- The classes of failures of operations that count as a failed evaluation. -/
def isOperandFault (e : DataFault) : Bool :=
  match e.faultClass with
  | .type | .value | .overflow | .json => true
  | _ => false

/-- The value of an expression in a flow; a failed operation makes the whole expression invalid, and
the complaint quotes it. -/
def evaluate (expr context event : Value) : Except Fault Value :=
  match meaning expr (.flow context event) with
  | .error (.data e) =>
    .error (if isOperandFault e then complaint expr (.invalid expr e) else .data e)
  | r => r

/-- The truth of an expression in a flow. -/
def evaluateBool (expr context event : Value) : Except Fault Bool :=
  (·.holds) <$> evaluate expr context event

end Statechart
