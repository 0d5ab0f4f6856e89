/-
# The world around a flow

What lies outside of a flow and is changed by it: the effects of its steps, the time that passes, the
kept results of calls, and the calls and requests made so far. The network is a function from the
number of a request to what comes back.

* `World.perform`: a step with effects, in the world;
* `World.instant`: the microsecond some seconds from now.
-/
import Statechart.Actor
import Statechart.Actor.Cache

namespace Statechart

/-- What comes back on a request, and after how many milliseconds; none is at once. -/
structure Exchange where
  delay : Option Number := none
  reply : Reply
deriving Inhabited

/-- A call of the host's code, or the news that one was given up while it was waited for. -/
inductive Visit where
  | called (actor : String) (input event : Value)
  | abandoned (actor : String)
deriving Inhabited, Repr

/-- The world around a flow. -/
structure World where
  effects : Effects := {}
  /-- The time that has passed, in microseconds. -/
  now : Int := 0
  cache : Cache := []
  /-- Calls of the host's code so far, in order. -/
  visits : List Visit := []
  /-- Requests sent so far, in order. -/
  requests : List SentRequest := []
  network : Nat → Exchange := fun _ => { reply := .failure "no network" }
deriving Inhabited

namespace World

/-- The time that has passed, in seconds. -/
def seconds (w : World) : Float := Float.ofInt w.now / 1000000.0

/-- The microsecond nearest to some seconds from now, a tie going to the even one. -/
def instant (w : World) (delay : Float) : Except DataFault Int :=
  let x := (w.seconds + delay) * 1000000.0
  match Binary.ofFloat? x with
  | some b => .ok b.nearest
  | none => .error (.arith (if x != x then .nanToInt else .infinityToInt))

/-- How often an actor of the host has been called. -/
def callsOf (w : World) (actor : String) : Nat :=
  w.visits.countP fun
    | .called name _ _ => name = actor
    | .abandoned _ => false

/-- Note a call of the host's code. -/
def visit (v : Visit) : StateM World Unit := modify fun w => { w with visits := w.visits ++ [v] }

/-- Run a step with effects. -/
def perform (m : Act α) : StateM World (Except Fault α) := fun w =>
  let (r, effects) := m.exec w.effects
  (r, { w with effects })

/-- Let time pass until an instant, if it lies ahead. -/
def passTo (w : World) (instant : Int) : World := { w with now := max w.now instant }

/-- Time never runs backwards. -/
theorem le_now_passTo (w : World) (instant : Int) :
    w.now ≤ (w.passTo instant).now ∧ instant ≤ (w.passTo instant).now := by
  simp only [passTo]
  omega

/-- A call of an actor is counted for that actor alone. -/
theorem callsOf_visit (w : World) (actor other : String) (input event : Value) :
    ((visit (.called actor input event)).run w).2.callsOf other =
      w.callsOf other + if actor = other then 1 else 0 := by
  have hv : ((visit (.called actor input event)).run w).2.visits =
      w.visits ++ [.called actor input event] := rfl
  rw [callsOf, hv, List.countP_append]
  by_cases h : actor = other <;> simp [callsOf, h]

end World

end Statechart
