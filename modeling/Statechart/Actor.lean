/-
# Actors

An actor does work outside the flow: it waits, draws a number, sends a request, or runs code of the
host. What the work amounts to is settled when it starts: a `Plan` says what is waited for and what
follows.

* `Actor`: the kinds of actor;
* `HttpActor.request`: the request of an HTTP actor;
* `HttpActor.checked`: the value of its response, or why the call failed.
-/
import Statechart.Http.Exchange
import Statechart.Json.Canonical
import Statechart.Template.Render
import Statechart.Action.Run

namespace Statechart

/-! ## 1. Kinds of actor -/

/-- What a call of the host's code does: it takes some time, then ends. -/
structure HostPlan where
  /-- Milliseconds until the end; none ends at once. -/
  delay : Option Number
  outcome : Except Fault Value

/-- Code of the host, scripted by the number of calls made before; the arguments of a call are its
input, the context and the event. -/
structure HostActor where
  name : String
  plan : Nat → Value → Value → Value → HostPlan

/-- An actor that sends a request. -/
structure HttpActor where
  name : String := "httpRequest"
  /-- The parts of the request, as templates, and how to judge the response. -/
  config : Entries := []
  baseUrl : Option String := none
  timeoutMs : Float
  /-- Judges a response in the place of the configured expression. -/
  isError : Option (Value → Except DataFault Bool) := none

/-- The kinds of actor. -/
inductive Actor where
  | host (a : HostActor)
  | http (a : HttpActor)
  /-- Waits for a number of milliseconds. -/
  | timer (ms : Value)
  | randomNumber

instance : Inhabited Actor := ⟨.randomNumber⟩

/-- The name of an actor. -/
def Actor.name : Actor → String
  | host a => a.name
  | http a => a.name
  | timer _ => "delay"
  | randomNumber => "randomNumber"

/-! ## 2. Numbers out of a range -/

/-- Whether a bound counts as an integer. -/
def isIntegral : Value → Bool
  | .int _ | .bool _ => true
  | _ => false

/-- The number an actor draws; only ranges of one number are settled, of others it is the first. -/
def drawnNumber (input : Value) : Except DataFault Value := do
  let low := (input.get? "min").getD (.int 0)
  let high := (input.get? "max").getD (.int 100)
  if isIntegral low && isIntegral high then
    let a ← low.asInt
    let b ← high.asInt
    if b < a then .error (.emptyRange a b) else return .int a
  else
    let a ← low.asFloat
    let b ← high.asFloat
    return .float (a + (b - a) * 0.0)

/-! ## 3. Requests -/

/-- A request with all of its templates rendered. -/
structure RequestSpec where
  method : String
  url : String
  headers : List (String × String)
  params : Entries
  body : Value
deriving Inhabited

/-- A text that tells requests apart, whatever their headers. -/
def RequestSpec.signature (r : RequestSpec) : Except DataFault String :=
  Json.canonical (.list [.text r.method, .text r.url, .dict r.params, r.body])

/-- The pair an element of a list stands for. -/
def pairOf (index : Nat) (v : Value) : Except DataFault (Key × Value) := do
  let parts ← match v with
    | .list vs => pure vs
    | .dict es => pure (es.map (·.1.toValue))
    | .text s => pure (s.toList.map fun c => Value.text (String.singleton c))
    | _ => .error (.pairKind index)
  match parts with
  | [.text s, w] => return (.text s, w)
  | [.int n, w] => return (.int n, w)
  | [.float x, w] => return (.float x, w)
  | [.bool b, w] => return (.bool b, w)
  | [.null, w] => return (.null, w)
  | [k, _] => .error (.unhashable k.kind)
  | _ => .error (.pairLength index parts.length)

/-- Entries in which a later one of equal key replaces an earlier one. -/
def collected (pairs : List (Key × Value)) : Entries :=
  pairs.foldl (fun es (k, v) =>
    if es.any (·.1.same k) then es.map fun (j, w) => if j.same k then (j, v) else (j, w)
    else es ++ [(k, v)]) []

/-- The mapping a value stands for: a mapping, or a list of pairs. -/
def asMapping (v : Value) : Except DataFault Entries := do
  if !v.isTruthy then return []
  match v with
  | .dict es => return es
  | .list vs => return collected (← vs.zipIdx.mapM fun (w, i) => pairOf i w)
  | .text s =>
    let parts := s.toList.map fun c => Value.text (String.singleton c)
    return collected (← parts.zipIdx.mapM fun (w, i) => pairOf i w)
  | v => .error (.notIterable v.kind)

namespace HttpActor

/-- The parts of a request that can be configured. -/
def partNames : List String := ["method", "url", "headers", "params", "body"]

/-- A failure that another attempt would not mend. -/
def refused (a : HttpActor) (message : String) : Fault :=
  .invocation { message, actor := .text a.name, retryable := .bool false }

/-- The configured parts with their templates rendered. -/
def renderedParts (r : Renderer) (a : HttpActor) (context event : Value) : Except Fault Entries :=
  let parts := partNames.map fun n => (Key.text n, (Entries.lookup n a.config).getD .null)
  match r.renderEntries context event parts with
  | .error (.evaluation e) => .error (a.refused ("Invalid request template: " ++ e.message))
  | other => other

/-- Parts of the input, which replace configured ones and are no templates. -/
def overridden (input : Value) (parts : Entries) : Entries :=
  match input with
  | .dict es => partNames.foldl (fun ps n =>
      match Entries.lookup n es with
      | some v => Entries.insert n v ps
      | none => ps) parts
  | _ => parts

/-- The headers of a value. -/
def headerPairs (v : Value) : Except DataFault (List (String × String)) := do
  if !v.isTruthy then return []
  match v with
  | .dict es => es.mapM fun (k, v) => return (k.display, ← v.shown)
  | v => .error (.noAttribute v.kind "items")

/-- The request of an actor. -/
def request (r : Renderer) (a : HttpActor) (input context event : Value) : Except Fault RequestSpec := do
  let parts := overridden input (← a.renderedParts r context event)
  let part := fun n => (Entries.lookup n parts).getD .null
  let url := part "url"
  if !url.isTruthy then .error (a.refused "HTTP actor has no url")
  let method := part "method"
  let method ← (if method.isTruthy then method else .text "GET").asText
  let url ← url.asText
  return {
    method := toUpperCase method
    url
    headers := ← liftData (headerPairs (part "headers"))
    params := ← liftData (asMapping (part "params"))
    body := part "body" }

/-- The key under which the result of a call is kept. -/
def cacheKey (r : Renderer) (a : HttpActor) (input context event : Value) : Except Fault String := do
  let spec ← a.request r input context event
  return a.name ++ ":" ++ (← liftData spec.signature)

/-- The statuses an actor expects; none expects success. -/
def expected (a : HttpActor) : Except DataFault (List Value) :=
  match (Entries.lookup "expectStatus" a.config).getD .null with
  | .int n => .ok [.int n]
  | .bool b => .ok [.bool b]
  | v =>
    if !v.isTruthy then .ok []
    else match v with
      | .list vs => .ok vs
      | .dict es => .ok (es.map (·.1.toValue))
      | .text s => .ok (s.toList.map fun c => .text (String.singleton c))
      | v => .error (.notIterable v.kind)

/-- Whether a response is flagged as an error although its status is fine. -/
def flagsError (a : HttpActor) (response : Response) (data : Value) : Act Bool :=
  match a.isError with
  | some f => Act.lift (liftData (f data))
  | none =>
    match (Entries.lookup "isError" a.config).getD .null with
    | .null => return false
    | expression =>
      let scope := Value.record [("status", .int response.status), ("data", data),
        ("headers", .record (response.headers.map fun (k, v) => (k, .text v)))]
      Act.catchEval (Act.lift (evaluateBool expression scope .null)) fun e => do
        Act.say .warning .actors ("isError expression of " ++ a.name ++
          " failed, treating response as ok: " ++ e.message)
        return false

/-- The value of a response, or why the call failed. -/
def checked (a : HttpActor) (method url : String) (response : Response) : Act Value := do
  let data := response.data
  let expected ← Act.lift (liftData a.expected)
  let isExpected := if expected.isEmpty then response.isSuccess
    else expected.any (·.same (.int response.status))
  unless isExpected do
    Act.fail (.invocation {
      message := method ++ " " ++ url ++ " returned HTTP " ++ toString response.status
      actor := .text a.name
      retryable := .bool (500 ≤ response.status)
      status := .int response.status
      data })
  if ← a.flagsError response data then
    Act.fail (.invocation {
      message := method ++ " " ++ url ++ " returned an error payload"
      actor := .text a.name
      retryable := .bool false
      status := .int response.status
      data })
  return data

/-- The value of a reply, or why the call failed. -/
def concluded (a : HttpActor) (spec : RequestSpec) (sent : SentRequest) : Reply → Act Value
  | .timeout => Act.fail (.invocation {
      message := spec.method ++ " " ++ spec.url ++ " timed out", actor := .text a.name, timedOut := true })
  | .failure m => Act.fail (.invocation {
      message := spec.method ++ " " ++ spec.url ++ " failed: " ++ m, actor := .text a.name })
  | .response response =>
    if (Address.scheme? sent.url.toList).isNone then Act.fail (.data (.noScheme sent.url))
    else a.checked spec.method spec.url response

end HttpActor

end Statechart
