/-
# Guards

A guard decides whether a transition may be taken. It is a check on one field, an expression, or
code of the host. Where a guard gates a transition a failed evaluation counts as false and is
logged.

* `Guard.test`: the verdict of a guard;
* `Guard.check`: the verdict with failed evaluations counted as false;
* `Guard.reads`: the paths a guard reads.
-/
import Statechart.Guard.Check
import Statechart.Effect
import Statechart.Expr.Inspect

namespace Statechart

/-- Code of the host that decides a guard; its answer is taken for its truth. -/
structure HostGuard where
  decide : Value → Value → Except DataFault Value
  /-- The paths it says it reads. -/
  reads : List String
deriving Inhabited

/-- A guard that is ready to be tested. -/
inductive Guard where
  | field (name : String) (check : FieldCheck) (path : String) (literal : Value)
  | logic (name : String) (expression : Value)
  | host (name : String) (code : HostGuard)
deriving Inhabited

namespace Guard

def name : Guard → String
  | field n .. | logic n _ | host n _ => n

/-- The same guard under another name; code of the host keeps its own. -/
def renamed (g : Guard) (name : String) : Guard :=
  match g with
  | field _ check path literal => field name check path literal
  | logic _ expression => logic name expression
  | host n code => host n code

/-- The verdict of a guard. -/
def test (g : Guard) (context event : Value) : Except Fault Bool :=
  match g with
  | field _ check path literal => liftData do
    check.holds (← liftPath (lookupScoped path context event)) literal
  | logic _ expression => evaluateBool expression context event
  | host name code =>
    match code.decide context event with
    | .ok v => .ok v.isTruthy
    | .error e => .error (.evaluation (.hostGuard name e.faultClass e.message))

/-- The verdict of a guard, a failed evaluation counting as false. -/
def check (g : Guard) (context event : Value) : Act Bool :=
  Act.catchEval (Act.lift (g.test context event)) fun e => do
    Act.say .warning .guards
      ("Guard '" ++ g.name ++ "' failed to evaluate, treating as false: " ++ e.message)
    return false

/-- The scoped paths a guard reads, in order. -/
def reads : Guard → List String
  | field _ _ path _ => [fullyScoped path]
  | logic _ expression => distinctSorted ((pathsRead expression).map fullyScoped)
  | host _ code => distinctSorted code.reads

/-- A guard that has a verdict passes the check with it, and nothing is logged. -/
theorem check_of_test {g : Guard} {context event : Value} {b : Bool} (fx : Effects)
    (h : g.test context event = .ok b) : (g.check context event).exec fx = (.ok b, fx) :=
  Act.catchEval_of_ok (by simp [h])

end Guard

end Statechart
