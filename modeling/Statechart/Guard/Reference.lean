/-
# References to guards

A flow refers to a guard by name, by shorthand such as `greaterThan:context.score:50`, or writes an
expression in its place. A name is looked up among the guards of the flow, then among those of the
host; only then is it read as shorthand. Guards of a flow may refer to each other, not in a circle.

* `Guard.ofShorthand`: the guard of a shorthand;
* `Guard.ofExpression`: the guard of an expression;
* `Guard.resolve`: the guard of a reference.
-/
import Statechart.Guard

namespace Statechart

/-! ## 1. What can be wrong with a reference -/

/-- Why a reference stands for no guard. -/
inductive GuardRefError where
  | invalid (ref : Value)
  | selfReference (name : String)
  | unknown (name : String)
  | unknownCheck (label ref : String)
  | noField (ref : String)
  | unscopedField (path ref : String)
  | badPath (path guard : String) (e : PathError)
  | noLiteral (label ref : String)
  | notAnExpression (v : Value)
  | unknownOperators (names : List String)
deriving Repr, Inhabited

namespace GuardRefError

def message : GuardRefError → String
  | invalid ref => "Invalid guard reference: " ++ ref.literal
  | selfReference name => "Guard '" ++ name ++ "' refers to itself"
  | unknown name => "Unknown guard '" ++ name ++ "'"
  | unknownCheck label ref => "Unknown guard kind '" ++ label ++ "' in '" ++ ref ++ "'"
  | noField ref => "Guard '" ++ ref ++ "' is missing a field"
  | unscopedField path ref =>
    "Guard field '" ++ path ++ "' must start with 'context.' or 'event.': '" ++ ref ++ "'"
  | badPath path guard e =>
    "Invalid field path '" ++ path ++ "' in guard '" ++ guard ++ "': " ++ e.message
  | noLiteral label ref => "Guard kind '" ++ label ++ "' requires a literal: '" ++ ref ++ "'"
  | notAnExpression v => "Invalid guard expression: " ++ v.literal
  | unknownOperators names =>
    "Guard expression uses unknown operator(s): " ++ ", ".intercalate names

/-- Whether a name is at fault, rather than the form of the reference. -/
def isUnknown : GuardRefError → Bool
  | unknown _ | unknownCheck .. => true
  | _ => false

end GuardRefError

namespace Guard

/-! ## 2. Shorthand and expressions -/

/-- A path that is well formed. -/
def checkedPath (path guard : String) : Except GuardRefError Unit :=
  match Path.parse path with
  | .ok _ => .ok ()
  | .error e => .error (.badPath path guard e)

/-- The guard of a shorthand: a check, a field and, where the check needs one, a literal. All
after the second colon is the literal. -/
def ofShorthand (ref : String) : Except GuardRefError Guard := do
  let (label, rest) := cutAt ':' ref
  let some check := FieldCheck.ofLabel? (strip label) | .error (.unknownCheck label ref)
  let (path, literal) := cutAt ':' (rest.getD "")
  let path := strip path
  if path.isEmpty then .error (.noField ref)
  unless beginsWith "context." path || beginsWith "event." path do
    .error (.unscopedField path ref)
  checkedPath path ref
  match literal with
  | some text => return .field ref check path (parseLiteral text)
  | none =>
    if check.needsLiteral then .error (.noLiteral check.label ref)
    else return .field ref check path .null

/-- The guard of an expression, which must use known operators and well-formed paths only. -/
def ofExpression (expression : Value) (name : String) : Except GuardRefError Guard := do
  unless expression.isOperation do .error (.notAnExpression expression)
  match distinctSorted (Statechart.unknownOperators expression) with
  | [] =>
    for path in distinctSorted (pathsRead expression) do checkedPath path name
    return .logic name expression
  | unknown => .error (.unknownOperators unknown)

/-! ## 3. Any reference -/

theorem length_erase_lt {s : String} {es : Entries} {v : Value} (h : Entries.lookup s es = some v) :
    (Entries.erase s es).length < es.length := by
  induction es with
  | nil => simp at h
  | cons e es ih =>
    obtain ⟨k, w⟩ := e
    by_cases hk : k = .text s
    · simp [Entries.erase, hk]
    · simp only [Entries.lookup_cons, hk, if_false] at h
      simpa [Entries.erase, hk] using ih h

/-- The guard of a reference; `unused` holds the guards of the flow that have not been looked up on
the way to it. -/
def resolveFrom (flow : Entries) (host : String → Option HostGuard) (unused : Entries) (ref : Value) :
    Except GuardRefError Guard :=
  match ref with
  | .dict _ => ofExpression ref "<inline>"
  | .text s =>
    let name := strip s
    if name.isEmpty then .error (.invalid ref)
    else match _h : Entries.lookup name unused with
      | some definition =>
        (·.renamed name) <$> resolveFrom flow host (Entries.erase name unused) definition
      | none =>
        if Entries.has name flow then .error (.selfReference name)
        else match host name with
          | some code => .ok (.host name code)
          | none => if name.toList.contains ':' then ofShorthand name else .error (.unknown name)
  | _ => .error (.invalid ref)
termination_by unused.length
decreasing_by exact length_erase_lt (by assumption)

/-- The guard of a reference inside a flow with guards of its own. -/
def resolve (flow : Entries) (host : String → Option HostGuard) (ref : Value) :
    Except GuardRefError Guard :=
  resolveFrom flow host flow ref

/-- An expression in the place of a reference stands for itself. -/
theorem resolve_dict (flow : Entries) (host : String → Option HostGuard) (es : Entries) :
    resolve flow host (.dict es) = ofExpression (.dict es) "<inline>" := by
  simp [resolve, resolveFrom]

end Guard

end Statechart
