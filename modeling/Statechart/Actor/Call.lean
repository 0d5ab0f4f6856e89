/-
# Calls of actors

A call is dispatched once: its input and the key of its result are settled then. A kept result ends
it. Otherwise the actor is called, within the time limit of an attempt; a failure that another
attempt may mend is followed by a rest and another attempt, as long as the policy allows. A result
is kept under the key.

A call never waits by itself: it says what it waits for, and is resumed.

* `CallState.resume`, `CallState.expire`: going on after a wait, or at the end of an attempt's time;
* `CallState.run`: a call by itself, from its start to its end;
* `conclude_ok_uncached`: a result without a key ends the call.
-/
import Statechart.World
import Statechart.Graph

namespace Statechart

/-! ## 1. Dispatch -/

/-- A call as it was dispatched. -/
structure Dispatch where
  invocation : Invocation
  input : Value
  /-- The key of the result, if it is to be kept. -/
  key : Option String
  context : Value
  event : Value
deriving Inhabited

namespace Invocation

/-- The input of a call, its templates rendered. -/
def renderedInput (r : Renderer) (i : Invocation) (context event : Value) : Except Fault Value :=
  match r.renderValue context event i.input with
  | .error (.evaluation e) => .error (.invocation {
      message := "Invalid input for invoke '" ++ i.id ++ "': " ++ e.message
      actor := .text i.src, retryable := .bool false })
  | other => other

/-- The text of a template, which only a text is. -/
def templateText (v : Value) : Except DataFault String :=
  match v with
  | .text s => .ok s
  | .list _ | .dict _ => .error (.noAttribute v.kind "startswith")
  | _ => .error (.unsized v.kind)

/-- The key under which the result of a call is kept; without a time to live it is not. -/
def key? (r : Renderer) (i : Invocation) (input context event : Value) : Act (Option String) := do
  if !i.cacheTtlMs.isTruthy then return none
  if i.cacheKey.isTruthy then
    let template ← Act.lift (liftData (templateText i.cacheKey))
    return some (i.src ++ ":" ++ (← r.render template context event))
  match i.actor with
  | .http a => return some (← Act.lift (a.cacheKey r input context event))
  | _ => return some (i.src ++ ":" ++ (← Act.lift (liftData (Json.canonical input))))

/-- Settle all that a call depends on. -/
def dispatch (r : Renderer) (i : Invocation) (context event : Value) : Act Dispatch := do
  let input ← Act.lift (i.renderedInput r context event)
  return { invocation := i, input, key := ← i.key? r input context event, context, event }

/-- The failure of an attempt that ran out of time. -/
def timedOut (i : Invocation) : InvocationError where
  message := "Invoke '" ++ i.id ++ "' timed out after " ++ i.timeoutMs.display ++ "ms"
  actor := .text i.src
  timedOut := true

/-- The failure of an attempt: one of the call, or another put into its terms. -/
def failure (i : Invocation) (f : Fault) : InvocationError :=
  match f with
  | .invocation e => e
  | f =>
    if f.label = FaultClass.timeout.label then i.timedOut
    else {
      message := "Invoke '" ++ i.id ++ "' failed: " ++ f.label ++ ": " ++ f.message
      actor := .text i.src }

end Invocation

/-! ## 2. Attempts -/

/-- What an attempt waits for. -/
inductive Work where
  /-- Code of the host, and how it will end. -/
  | host (actor : String) (outcome : Except Fault Value)
  | timer (ms : Value)
  /-- The reply to a request. -/
  | reply (actor : HttpActor) (spec : RequestSpec) (sent : SentRequest) (reply : Reply)

instance : Inhabited Work := ⟨.timer .null⟩

/-- An actor that has been called: it has ended, or ends after some seconds. -/
inductive Started where
  | ended (r : Except Fault Value)
  | waits (seconds : Float) (work : Work)

namespace Work

/-- The end of what was waited for. -/
def result : Work → StateM World (Except Fault Value)
  | host _ r => return r
  | timer ms => return .ok (.record [("delay", ms)])
  | reply a spec sent r => World.perform (a.concluded spec sent r)

/-- Give up waiting; only code of the host takes notice. -/
def abandon : Work → StateM World Unit
  | host actor _ => World.visit (.abandoned actor)
  | _ => return

/-- Wait some milliseconds for the end of something, or not at all. -/
def after (delay : Option Number) (work : Work) : StateM World Started := do
  match delay with
  | none => return .ended (← work.result)
  | some ms =>
    match liftArith (do (← ms.thousandth).toFloat) with
    | .ok x => return .waits x work
    | .error e => return .ended (.error (.data e))

end Work

namespace Dispatch

/-- Send the request of an HTTP actor. -/
def send (r : Renderer) (d : Dispatch) (a : HttpActor) : StateM World Started := do
  match a.request r d.input d.context d.event with
  | .error f => return .ended (.error f)
  | .ok spec =>
    match SentRequest.build a.baseUrl spec.method spec.url spec.headers spec.params spec.body with
    | .error e => return .ended (.error (.data e))
    | .ok sent =>
      let w ← get
      let exchange := w.network w.requests.length
      set { w with requests := w.requests ++ [sent] }
      Work.after exchange.delay (.reply a spec sent exchange.reply)

/-- Call the actor. -/
def start (r : Renderer) (d : Dispatch) : StateM World Started := do
  match d.invocation.actor with
  | .host a =>
    let plan := a.plan ((← get).callsOf a.name) d.input d.context d.event
    World.visit (.called a.name d.input d.event)
    Work.after plan.delay (.host a.name plan.outcome)
  | .timer ms =>
    let ms := (d.input.get? "ms").getD ms
    match ms.asFloat with
    | .ok x => return .waits (x / 1000.0) (.timer ms)
    | .error e => return .ended (.error (.data e))
  | .randomNumber => return .ended (liftData (drawnNumber d.input))
  | .http a => d.send r a

end Dispatch

/-! ## 3. The course of a call -/

/-- The result of a call. -/
structure CallResult where
  value : Value
  /-- How often the actor was called. -/
  attempts : Nat
  /-- Whether it is one that had been kept. -/
  cached : Bool := false
deriving Inhabited, Repr

/-- Where a call stands that has not ended. -/
inductive CallState where
  | fresh (i : Invocation) (context event : Value)
  /-- An attempt, counted from one, is being waited for. -/
  | working (d : Dispatch) (attempt : Nat) (work : Work)
  /-- The rest after a failed attempt. -/
  | resting (d : Dispatch) (attempt : Nat)
deriving Inhabited

/-- What becomes of a call when it goes on: it ends, or it waits until an instant, or for its next
turn if there is none. Until then the attempt may run out of time at another instant. -/
inductive CallStep where
  | finished (r : Except Fault CallResult)
  | waiting (s : CallState) (limit : Option Int) (wake : Option Int)

/-- The time an attempt has. -/
inductive TimeLimit where
  | unlimited
  | passed
  | until (instant : Int)

def TimeLimit.instant? : TimeLimit → Option Int
  | .until t => some t
  | _ => none

/-- The time an attempt has that starts now. -/
def Invocation.limit (i : Invocation) (w : World) : Except DataFault TimeLimit := do
  if !i.timeoutMs.isTruthy then return .unlimited
  let seconds ← liftArith (← i.timeoutMs.seconds).toFloat
  if seconds ≤ 0.0 then return .passed
  return .until (← w.instant seconds)

/-- The instant after some seconds; none, the next turn, if no time passes. -/
def wakeAfter (w : World) (seconds : Float) : Except DataFault (Option Int) :=
  if seconds ≤ 0.0 then .ok none else some <$> w.instant seconds

namespace Dispatch

/-- A result ends a call; it is kept if there is a key for it. -/
def succeed (d : Dispatch) (attempt : Nat) (v : Value) : StateM World CallStep := do
  match d.key with
  | none => return .finished (.ok { value := v, attempts := attempt })
  | some key =>
    let w ← get
    match w.cache.put (.float w.seconds) key v d.invocation.cacheTtlMs with
    | .error e => return .finished (.error (.data e))
    | .ok (_, cache) =>
      set { w with cache }
      return .finished (.ok { value := v, attempts := attempt })

/-- Say that an attempt failed and rest before the next one. -/
def rest (d : Dispatch) (attempt : Nat) (e : InvocationError) : Act Float := do
  let delay ← Act.lift (liftData (d.invocation.retry.delay attempt))
  let shown ← Act.lift (liftData (liftArith (delay.fixed 0)))
  Act.say .warning .actors ("Invoke '" ++ d.invocation.id ++ "' attempt " ++ toString attempt ++
    " failed (" ++ e.message ++ "); retrying in " ++ shown ++ "ms")
  Act.lift (liftData (liftArith (do (← delay.thousandth).toFloat)))

/-- A failed attempt ends a call, unless another may mend it and is allowed. -/
def fail (d : Dispatch) (attempt : Nat) (e : InvocationError) : StateM World CallStep := do
  let e := { e with attempts := attempt }
  if !e.retryable.isTruthy || !d.invocation.retry.allows attempt then
    return .finished (.error (.invocation e))
  match ← World.perform (d.rest attempt e) with
  | .error f => return .finished (.error f)
  | .ok seconds =>
    match wakeAfter (← get) seconds with
    | .error e => return .finished (.error (.data e))
    | .ok wake => return .waiting (.resting d attempt) none wake

/-- The end of an attempt. -/
def conclude (d : Dispatch) (attempt : Nat) : Except Fault Value → StateM World CallStep
  | .ok v => d.succeed attempt v
  | .error f => d.fail attempt (d.invocation.failure f)

/-- An attempt, counted from one. -/
def attempt (r : Renderer) (d : Dispatch) (n : Nat) : StateM World CallStep := do
  match d.invocation.limit (← get) with
  | .error e => d.conclude n (.error (.data e))
  | .ok .passed => d.fail n d.invocation.timedOut
  | .ok limit =>
    match ← d.start r with
    | .ended result => d.conclude n result
    | .waits seconds work =>
      match wakeAfter (← get) seconds with
      | .error e => d.conclude n (.error (.data e))
      | .ok wake => return .waiting (.working d n work) limit.instant? wake

/-- A dispatched call: a kept result ends it, otherwise the first attempt is made. -/
def begin (r : Renderer) (d : Dispatch) : StateM World CallStep := do
  match d.key with
  | none => d.attempt r 1
  | some key =>
    let w ← get
    let (entry, cache) := w.cache.get (.float w.seconds) key
    set { w with cache }
    match entry with
    | some e => return .finished (.ok { value := e.value, attempts := 0, cached := true })
    | none => d.attempt r 1

end Dispatch

namespace CallState

/-- Go on, at the start or after a wait. -/
def resume (r : Renderer) : CallState → StateM World CallStep
  | fresh i context event => do
    match ← World.perform (i.dispatch r context event) with
    | .ok d => d.begin r
    | .error f => return .finished (.error f)
  | working d n work => do d.conclude n (← work.result)
  | resting d n => d.attempt r (n + 1)

/-- Give up waiting. -/
def abandon : CallState → StateM World Unit
  | working _ _ work => work.abandon
  | _ => return

/-- Go on because the attempt ran out of time. -/
def expire (s : CallState) : StateM World CallStep := do
  match s with
  | working d n work =>
    work.abandon
    d.fail n d.invocation.timedOut
  | s => return .waiting s none none

end CallState

/-! ## 4. A call by itself -/

/-- An upper bound for the number of attempts. -/
def RetryPolicy.attempts (p : RetryPolicy) : Nat :=
  match p.max.toNumber.toInt with
  | .ok n => n.toNat + 1
  | .error _ => 1

namespace CallState

/-- Follow a call to its end, time passing only while it waits; none if it waits more than `fuel`
times. -/
def follow (r : Renderer) : Nat → CallStep → StateM World (Option (Except Fault CallResult))
  | _, .finished result => return some result
  | 0, .waiting .. => return none
  | fuel + 1, .waiting s limit wake => do
    match wake, limit with
    | none, _ => follow r fuel (← s.resume r)
    | some wake, none =>
      modify (·.passTo wake)
      follow r fuel (← s.resume r)
    | some wake, some limit =>
      if limit ≤ wake then
        modify (·.passTo limit)
        follow r fuel (← s.expire)
      else
        modify (·.passTo wake)
        follow r fuel (← s.resume r)

/-- A call by itself, from its start to its end: every attempt is waited for at most once, and so is
the rest after it. -/
def run (r : Renderer) (i : Invocation) (context event : Value) :
    StateM World (Option (Except Fault CallResult)) := do
  follow r (2 * i.retry.attempts) (← (fresh i context event).resume r)

end CallState

/-! ## 5. What ends a call -/

/-- A result without a key ends the call and changes nothing. -/
theorem Dispatch.conclude_ok_uncached {d : Dispatch} (h : d.key = none) (n : Nat) (v : Value)
    (w : World) : (d.conclude n (.ok v)).run w = (.finished (.ok { value := v, attempts := n }), w) := by
  simp only [conclude, succeed, h]
  rfl

/-- A failure that another attempt would not mend ends the call. -/
theorem Dispatch.fail_of_final {d : Dispatch} {e : InvocationError} (h : e.retryable.isTruthy = false)
    (n : Nat) (w : World) :
    (d.fail n e).run w = (.finished (.error (.invocation { e with attempts := n })), w) := by
  simp only [fail, h]
  rfl

end Statechart
