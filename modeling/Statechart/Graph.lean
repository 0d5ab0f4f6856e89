/-
# State graphs

A compiled flow: its states in the order of the definition, parents before children, each known by
an identifier made of the names on the way to it. A compound state has an initial child; entering it
means entering a leaf below it.

* `Graph.leafFor`, `Graph.pathTo`, `Graph.ancestors`: moves along the tree of states;
* `Graph.outgoing`: the candidates that can fire while a leaf is active;
* `Graph.reachable`, `Graph.hasPath`: searches along the transitions;
* `mem_ids_of_state`: a state that is found is one of the graph.
-/
import Statechart.Guard
import Statechart.Actor
import Statechart.Actor.Retry
import Statechart.Binding

namespace Statechart

/-! ## 1. States and what they declare -/

/-- The kinds of state. -/
inductive StateKind where
  | atomic | compound | final
deriving DecidableEq, Repr, Inhabited

namespace StateKind

def label : StateKind → String
  | atomic => "atomic"
  | compound => "compound"
  | final => "final"

/-- The kind at the beginning of a sentence. -/
def title : StateKind → String
  | atomic => "Atomic"
  | compound => "Compound"
  | final => "Final"

def ofLabel? (s : String) : Option StateKind := [atomic, compound, final].find? (·.label = s)

end StateKind

/-- One way an event may be taken in a state; without a target the state is not left. -/
structure Candidate where
  event : String
  source : String
  target : Option String := none
  guard : Option Guard := none
  actions : List BoundAction := []
deriving Inhabited

/-- An event that is delivered some time after a state has been entered. -/
structure AfterTimer where
  delayMs : Int
  event : String
deriving Repr, Inhabited

/-- A call of an actor that is started when a state is entered. -/
structure Invocation where
  id : String
  src : String
  stateId : String
  actor : Actor
  input : Value
  /-- Milliseconds, in the form they were written in; null is no limit. -/
  timeoutMs : Value
  retry : RetryPolicy
  cacheKey : Value
  cacheTtlMs : Value
deriving Inhabited

namespace Invocation

/-- The events that report how the call of an identifier ended. -/
def doneEventOf (id : String) : String := "done.invoke." ++ id
def errorEventOf (id : String) : String := "error.invoke." ++ id

def doneEvent (i : Invocation) : String := doneEventOf i.id
def errorEvent (i : Invocation) : String := errorEventOf i.id

end Invocation

/-- A field of the context that is computed when a state is entered. -/
structure ComputedField where
  field : String
  expression : Value
  /-- Whether it is computed once only. -/
  cache : Bool
deriving Repr, Inhabited

/-- A state of a graph. -/
structure StateNode where
  id : String
  key : String
  kind : StateKind
  parent : Option String
  children : List String
  /-- The child that is entered with a compound state. -/
  initial : Option String
  info : Value
  ui : Value
  entry : List BoundAction
  exit : List BoundAction
  inputs : List Binding
  outputs : List Binding
  computed : List ComputedField
  validations : Option BoundAction
  /-- Candidates by event, both in order. -/
  transitions : List (String × List Candidate)
  after : List AfterTimer
  invokes : List Invocation
deriving Inhabited

namespace StateNode

def isFinal (n : StateNode) : Bool := n.kind = .final
def isCompound (n : StateNode) : Bool := n.kind = .compound

/-- All candidates of a state, in order. -/
def candidates (n : StateNode) : List Candidate := n.transitions.flatMap (·.2)

/-- The candidates for an event, in order. -/
def candidatesFor (n : StateNode) (event : String) : List Candidate :=
  (n.transitions.lookup event).getD []

end StateNode

/-! ## 2. Graphs -/

/-- A compiled flow. -/
structure Graph where
  id : String
  initial : String
  context : Value
  states : List StateNode
deriving Inhabited

namespace Graph

/-- The identifiers of the states, in order. -/
def ids (g : Graph) : List String := g.states.map (·.id)

/-- The state of an identifier. -/
def state? (g : Graph) (id : String) : Option StateNode := g.states.find? (·.id = id)

/-- The state of an identifier, which has to be one of the graph. -/
def state (g : Graph) (id : String) : Except Fault StateNode :=
  match g.state? id with
  | some n => .ok n
  | none => .error (.unknownState id g.id)

theorem state_id {g : Graph} {id : String} {n : StateNode} (h : g.state id = .ok n) : n.id = id := by
  unfold state state? at h
  split at h
  · rename_i m hm
    simp only [Except.ok.injEq] at h
    subst h
    simpa using List.find?_some hm
  · simp at h

/-- A state that is found is one of the graph. -/
theorem mem_ids_of_state {g : Graph} {id : String} {n : StateNode} (h : g.state id = .ok n) :
    id ∈ g.ids := by
  have hid := state_id h
  unfold state state? at h
  split at h
  · rename_i m hm
    simp only [Except.ok.injEq] at h
    subst h
    exact List.mem_map.mpr ⟨m, List.mem_of_find?_eq_some hm, hid⟩
  · simp at h

/-! ## 3. Along the tree -/

/-- The leaf entered with a state: initial children are followed, at most `fuel` times. -/
def leafFrom (g : Graph) : Nat → StateNode → Except Fault StateNode
  | 0, n => .ok n
  | fuel + 1, n =>
    match n.kind, n.initial with
    | .compound, some child => if child.isEmpty then .ok n else do leafFrom g fuel (← g.state child)
    | _, _ => .ok n

/-- The leaf entered with a state. -/
def leafFor (g : Graph) (id : String) : Except Fault String := do
  return (← g.leafFrom g.states.length (← g.state id)).id

/-- A state and those around it, nearest first; parents are followed at most `fuel` times. -/
def pathUp (g : Graph) : Nat → String → Except Fault (List String)
  | 0, id => .ok [id]
  | fuel + 1, id => do
    match (← g.state id).parent with
    | none => return [id]
    | some p => return id :: (← pathUp g fuel p)

/-- The identifiers from the outermost state down to a state. -/
def pathTo (g : Graph) (id : String) : Except Fault (List String) :=
  List.reverse <$> g.pathUp g.states.length id

/-- The states around a state, nearest first. -/
def ancestors (g : Graph) (id : String) : Except Fault (List String) := do
  return (← g.pathTo id).dropLast.reverse

/-- The leaf that is active first. -/
def initialLeaf (g : Graph) : Except Fault String := g.leafFor g.initial

/-- What the first leaf says to show. -/
def initialView (g : Graph) : Except Fault Value := do
  return (← g.state (← g.initialLeaf)).info.getD "view"

/-- The states that are not compound. -/
def leaves (g : Graph) : List String := (g.states.filter (!·.isCompound)).map (·.id)

/-! ## 4. Along the transitions -/

/-- The candidates that can fire while a leaf is active: its own and those of the states around. -/
def outgoing (g : Graph) (id : String) : Except Fault (List Candidate) := do
  let nodes ← (id :: (← g.ancestors id)).mapM g.state
  return nodes.flatMap StateNode.candidates

/-- The leaves that a transition from a leaf can lead to. -/
def successors (g : Graph) (id : String) : Except Fault (List String) := do
  (← g.outgoing id).filterMap (·.target) |>.mapM g.leafFor

/-- Members of a list that are neither visited nor met before. -/
def unvisited (visited : List String) : List String → List String
  | [] => []
  | s :: ss => if s ∈ visited then unvisited visited ss else s :: unvisited (visited ++ [s]) ss

/-- The leaves that can be visited, breadth first; each turn takes one from the queue. -/
def visit (next : String → Except Fault (List String)) :
    Nat → List String → List String → Except Fault (List String)
  | 0, _, visited => .ok visited
  | _ + 1, [], visited => .ok visited
  | fuel + 1, leaf :: queue, visited => do
    let new := unvisited visited (← next leaf)
    visit next fuel (queue ++ new) (visited ++ new)

/-- Whether transitions lead from a state to another, or to a leaf below it. -/
def hasPath (g : Graph) (source goal : String) : Except Fault Bool := do
  let start ← g.leafFor source
  let leaves ← visit g.successors (g.states.length + 1) [start] [start]
  leaves.anyM fun leaf => do return leaf = goal || (← g.pathTo leaf).contains goal

/-- The leaves that can be entered after a leaf; nothing follows a final one. -/
def successorsUnlessFinal (g : Graph) (id : String) : Except Fault (List String) := do
  if (← g.state id).isFinal then return [] else g.successors id

/-- The leaves that can be entered in a run. -/
def reachableLeaves (g : Graph) : Except Fault (List String) := do
  let start ← g.initialLeaf
  visit g.successorsUnlessFinal (g.states.length + 1) [start] [start]

/-- The states that can be entered in a run. -/
def reachable (g : Graph) : Except Fault (List String) := do
  return (← (← g.reachableLeaves).mapM g.pathTo).flatten

end Graph

end Statechart
