/-
# Instances of flows

An instance runs one graph. It is in a leaf of the graph; the leaf and all states around it are
active. Every entry of a state has a scope with a serial number of its own, to which the timers and
the calls belong that the entry started: leaving the state closes the scope and gives them up.

Events are processed one at a time from a queue. An event of a timer or a call carries the serial
of its scope and is dropped once the scope is closed.

What happens is written into a journal, which nothing reads while the instance runs: it is what
statements about whole runs are about.

* `Instance`: all that changes while an instance runs;
* `Happening`, `Instance.note`: what the journal holds;
* `Instance.closeScope`, `Instance.closeAll`: giving up the work of scopes;
* `live_closeScope`: closing a scope leaves the others alone.
-/
import Statechart.Actor.Call
import Statechart.Event
import Statechart.Registry

namespace Statechart

/-! ## 1. What an instance shows -/

/-- Whether an instance still runs. -/
inductive Status where
  | active | done | stopped
deriving DecidableEq, Repr, Inhabited

def Status.label : Status → String
  | active => "active"
  | done => "done"
  | stopped => "stopped"

/-- What an instance shows after an event. -/
structure Snapshot where
  state : String
  context : Value
  status : Status
  info : Value
  /-- The type of the last event. -/
  event : Option String
deriving Inhabited, Repr

namespace Snapshot

def view (s : Snapshot) : Value := s.info.getD "view"

def toValue (s : Snapshot) : Value :=
  .record [("stateId", .text s.state), ("context", s.context), ("status", .text s.status.label),
    ("view", s.view), ("event", .ofText? s.event)]

end Snapshot

/-- What a listener may ask of the instance. -/
inductive Request where
  | send (event : Value)
  | stop
deriving Inhabited, Repr

/-- What a listener does about a snapshot: it makes requests, and may fail in the end. -/
structure Reaction where
  requests : List Request := []
  fails : Bool := false
deriving Inhabited, Repr

/-- Someone who is told every snapshot; known by a number. -/
structure Listener where
  id : Nat
  name : String
  respond : Snapshot → Reaction
deriving Inhabited

/-! ## 2. What an instance is busy with -/

/-- An event in the queue, and the scope it belongs to if it is not one of the host. -/
structure Queued where
  event : Event
  scope : Option Nat := none
deriving Inhabited, Repr

/-- The entry of an active state. -/
structure Scope where
  state : String
  serial : Nat
deriving DecidableEq, Inhabited, Repr

/-- A call that has not ended. -/
structure OpenCall where
  serial : Nat
  scope : Nat
  invocation : Invocation
  state : CallState
deriving Inhabited

/-- What happens at an instant. -/
inductive AlarmKind where
  /-- The event of a timer is delivered. -/
  | event (scope : Nat) (type : String)
  /-- A call goes on. -/
  | wake (call : Nat)
  /-- An attempt of a call runs out of time. -/
  | limit (call : Nat)
  /-- Waiting for a state comes to its end. -/
  | patience
deriving DecidableEq, Inhabited, Repr

/-- Whether an alarm belongs to a call. -/
def AlarmKind.isOfCall (serial : Nat) : AlarmKind → Bool
  | wake n | limit n => n = serial
  | _ => false

/-- Something that happens at an instant. -/
structure Alarm where
  due : Int
  kind : AlarmKind
deriving DecidableEq, Inhabited, Repr

/-- Something that happens as soon as it is its turn. -/
inductive Turn where
  /-- A call goes on. -/
  | call (serial : Nat)
  /-- A call that was given up takes notice. -/
  | abandon (state : CallState)
  /-- Whoever waits for a state looks again. -/
  | look
deriving Inhabited

/-- Whether someone waits for a state. -/
inductive Watch where
  | idle
  | asleep
  /-- It is time to look. -/
  | awake
  /-- It is too late. -/
  | expired
deriving DecidableEq, Inhabited, Repr

/-! ## 3. What is remembered of a run -/

/-- Work that is started when a state is entered: a timer, known by its event, or a call. -/
inductive Errand where
  | timer (event : String)
  | call (id : String)
deriving DecidableEq, Inhabited, Repr

/-- The events that can report an errand. -/
def Errand.reports : Errand → List String
  | timer event => [event]
  | call id => [Invocation.doneEventOf id, Invocation.errorEventOf id]

/-- What can fail while an event is processed, apart from finding a state. -/
inductive Origin where
  | guard | action | store | computed | schedule
deriving DecidableEq, Inhabited, Repr

/-- Where an instance stands: its leaf, what is active, and whose work is pending. -/
structure Configuration where
  state : String
  active : List String
  scopes : List Scope
  live : List Nat
  status : Status
deriving DecidableEq, Inhabited, Repr

/-- Something that happens in a run. -/
inductive Happening where
  /-- An event joins the queue. -/
  | accepted (q : Queued)
  /-- The turn of an event comes, but its scope is closed. -/
  | dropped (q : Queued)
  /-- The turn of an event comes; later on it is through. -/
  | begun (q : Queued)
  | processed (q : Queued)
  | entered (c : Scope)
  /-- A state is left, and with it its scope if it has one. -/
  | left (state : String) (scope : Option Nat)
  | acted (a : BoundAction)
  | armed (scope : Nat) (e : Errand)
  /-- All work is given up for good. -/
  | ended (s : Status)
  /-- A listener is told a snapshot. -/
  | told (listener : Nat) (c : Configuration)
  | raised (o : Origin) (f : Fault)
  /-- A state is not found. -/
  | missed (f : Fault)
deriving Inhabited

/-- A running flow. -/
structure Instance where
  context : Value
  /-- The active leaf. -/
  state : String
  /-- The active states, outermost first. -/
  active : List String := []
  /-- The scopes of the active states, in the order of their entries. -/
  scopes : List Scope := []
  /-- The serial numbers of the scopes that are not closed. -/
  live : List Nat := []
  status : Status := .active
  started : Bool := false
  queue : List Queued := []
  /-- The type of the last event. -/
  lastEvent : Option String := none
  /-- The fields that are computed once only and have been. -/
  computed : List String := []
  listeners : List Listener := []
  /-- The next serial number. -/
  serial : Nat := 0
  calls : List OpenCall := []
  /-- In the order they were set. -/
  alarms : List Alarm := []
  turns : List Turn := []
  watch : Watch := .idle
  /-- The snapshots published so far. -/
  published : List Snapshot := []
  /-- Which listener was told which snapshot. -/
  heard : List (Nat × Snapshot) := []
  /-- Failures of timers, which nobody else is told. -/
  failures : List Fault := []
  /-- What has happened so far. -/
  journal : List Happening := []
  world : World := {}
deriving Inhabited

/-- What stays the same while an instance runs. -/
structure Machine where
  graph : Graph
  renderer : Renderer
  /-- Whether timers and calls can be started. -/
  isTimed : Bool := true
  /-- How many steps an operation may take. -/
  budget : Nat := 100000
deriving Inhabited

namespace Instance

/-- Where the instance stands. -/
def configuration (s : Instance) : Configuration :=
  ⟨s.state, s.active, s.scopes, s.live, s.status⟩

/-- Write into the journal. -/
def note (x : Happening) (s : Instance) : Instance := { s with journal := s.journal ++ [x] }

/-! ## 4. Closing scopes -/

/-- Drop the alarms of a call. -/
def dropAlarms (serial : Nat) (s : Instance) : Instance :=
  { s with alarms := s.alarms.filter fun a => !a.kind.isOfCall serial }

/-- Give up a call. -/
def dropCall (c : OpenCall) (s : Instance) : Instance :=
  let s := s.dropAlarms c.serial
  { s with
    calls := s.calls.filter (·.serial ≠ c.serial)
    turns := s.turns ++ [.abandon c.state] }

/-- Close a scope and give up the timers and calls that belong to it. -/
def closeScope (scope : Nat) (s : Instance) : Instance :=
  let s := { s with
    live := s.live.filter (· ≠ scope)
    alarms := s.alarms.filter fun a => match a.kind with
      | .event n _ => n ≠ scope
      | _ => true }
  (s.calls.filter (·.scope = scope)).foldl (fun s c => s.dropCall c) s

/-- Close the scopes of all active states. -/
def closeAll (s : Instance) : Instance :=
  { s.scopes.foldl (fun s c => s.closeScope c.serial) s with scopes := [] }

/-- Whether a scope is not closed. -/
def isLive (s : Instance) (scope : Nat) : Bool := s.live.contains scope

theorem live_dropCall (c : OpenCall) (s : Instance) : (s.dropCall c).live = s.live := rfl

theorem live_dropCalls (cs : List OpenCall) (s : Instance) :
    (cs.foldl (fun s c => s.dropCall c) s).live = s.live := by
  induction cs generalizing s with
  | nil => rfl
  | cons c cs ih => rw [List.foldl_cons, ih, live_dropCall]

/-- Closing a scope closes that scope and no other. -/
theorem live_closeScope (scope : Nat) (s : Instance) :
    (s.closeScope scope).live = s.live.filter (· ≠ scope) := by
  simp [closeScope, live_dropCalls]

end Instance

end Statechart
