/-
# Retry policies

A call that fails may be repeated: at most so many times, after a delay that grows by a factor from
one attempt to the next.

* `RetryPolicy.ofDefinition`: the policy a definition asks for;
* `RetryPolicy.delay`: the delay after a failed attempt;
* `ofDefinition_valid`: what every policy of a definition satisfies.
-/
import Statechart.Config

namespace Statechart

/-- What can be wrong with a policy. -/
inductive RetryError where
  | maxNegative
  | backoffNegative
  | multiplierNotPositive
  | bad (e : DataFault)
deriving Repr, Inhabited

def RetryError.message : RetryError → String
  | maxNegative => "retry.max must be non-negative"
  | backoffNegative => "retry.backoffMs must be non-negative"
  | multiplierNotPositive => "retry.multiplier must be positive"
  | bad e => e.message

/-- When and how often a failed call is repeated. -/
structure RetryPolicy where
  /-- How many times, after the first attempt. -/
  max : Quantity := .int 0
  /-- The delay before the first repetition, in milliseconds. -/
  backoffMs : Quantity := .int 1000
  /-- The growth of the delay from one repetition to the next. -/
  multiplier : Quantity := .float 2.0
deriving Inhabited, Repr

namespace RetryPolicy

/-- Whether every number of a policy lies in its range. -/
def isValid (p : RetryPolicy) : Bool :=
  !p.max.isNegative && !p.backoffMs.isNegative && !p.multiplier.isAtMostZero

/-- A policy whose numbers lie in their ranges. -/
def checked (p : RetryPolicy) : Except RetryError RetryPolicy :=
  if p.max.isNegative then .error .maxNegative
  else if p.backoffMs.isNegative then .error .backoffNegative
  else if p.multiplier.isAtMostZero then .error .multiplierNotPositive
  else .ok p

/-- The delay after a failed attempt, counted from one, in milliseconds. -/
def delay (p : RetryPolicy) (attempt : Int) : Except DataFault Number :=
  liftArith do Number.mul p.backoffMs.toNumber (← p.multiplier.toNumber.pow (attempt - 1))

/-- Whether a failed attempt may be followed by another. -/
def allows (p : RetryPolicy) (attempt : Nat) : Bool := !Number.gt (.int attempt) p.max.toNumber

/-- The policy for calls that declare none. -/
def ofConfig (c : Config) : RetryPolicy :=
  ⟨c.defaultRetryMax, c.defaultBackoffMs, c.defaultBackoffMultiplier⟩

/-- The policy a definition asks for; settings it leaves out come from the base. -/
def ofDefinition (definition : Value) (base : RetryPolicy) : Except RetryError RetryPolicy :=
  if !definition.isTruthy then .ok base
  else match definition with
    | .dict es => do
      let setting := fun (name : String) (default : Quantity) =>
        (Entries.lookup name es).getD default.toValue
      let max ← (setting "max" base.max).asInt.mapError .bad
      let backoff ← (setting "backoffMs" base.backoffMs).asFloat.mapError .bad
      let multiplier ← (setting "multiplier" base.multiplier).asFloat.mapError .bad
      checked ⟨.int max, .float backoff, .float multiplier⟩
    | v => .error (.bad (.noAttribute v.kind "get"))

theorem checked_valid {p q : RetryPolicy} (h : checked p = .ok q) : q = p ∧ q.isValid := by
  unfold checked at h
  split at h
  · simp at h
  · split at h
    · simp at h
    · split at h
      · simp at h
      · simp only [Except.ok.injEq] at h
        subst h
        simp_all [isValid]

/-- Every policy of a definition is the base or has its numbers in range. -/
theorem ofDefinition_valid {definition : Value} {base p : RetryPolicy}
    (h : ofDefinition definition base = .ok p) : p = base ∨ p.isValid := by
  unfold ofDefinition at h
  split at h
  · simp_all
  · split at h
    · simp only [bind, Except.bind] at h
      repeat' split at h
      all_goals first
        | exact Or.inr (checked_valid h).2
        | simp at h
    · simp at h

end RetryPolicy

end Statechart
