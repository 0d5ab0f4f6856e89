/-
# The registry

The named units a flow can refer to: guards, actions, actors and transforms, and the filters of its
templates. Later registrations of a name take the place of earlier ones.

* `Registry.standard`, `Registry.bare`: with and without the built-in units;
* `Registry.createActor`: the actor of a definition inside a flow;
* `action?_withAction`: what a registration does to a look-up.
-/
import Statechart.Actor
import Statechart.Actor.Retry
import Statechart.Action.Reference
import Statechart.Binding.Transform
import Statechart.View

namespace Statechart

/-- Named units, later ones of one name first. -/
abbrev Catalogue (α : Type) := List (String × α)

/-- The named units a flow can refer to. -/
structure Registry where
  config : Config := {}
  renderer : Renderer := .standard
  guards : Catalogue HostGuard := []
  actions : Catalogue ActionSpec := []
  actors : Catalogue Actor := []
  transforms : Catalogue Transform := []
deriving Inhabited

namespace Registry

/-! ## 1. Building and looking up -/

/-- The actor that takes its whole request from the input, or from a configuration. -/
def httpActor (config : Config) (name : String) (http : Entries) : Except DataFault HttpActor := do
  let timeout := (Entries.lookup "timeoutMs" http).getD config.httpTimeoutMs.toValue
  return { name, config := http, baseUrl := config.httpBaseUrl, timeoutMs := ← timeout.asFloat }

/-- A registry without the built-in units. -/
def bare (config : Config) : Registry := { config }

/-- A registry with the built-in units. -/
def standard (config : Config) : Except DataFault Registry := do
  return {
    config
    actions := BuiltinAction.all.map fun b => (b.label, b.spec)
    transforms := defaultTransforms
    actors := [("httpRequest", .http (← httpActor config "httpRequest" [])),
      ("delay", .timer (.int 0)), ("randomNumber", .randomNumber)] }

def guard? (r : Registry) (name : String) : Option HostGuard := r.guards.lookup name
def action? (r : Registry) (name : String) : Option ActionSpec := r.actions.lookup name
def actor? (r : Registry) (name : String) : Option Actor := r.actors.lookup name
def transform? (r : Registry) (name : String) : Option Transform := r.transforms.lookup name

def withGuard (r : Registry) (name : String) (g : HostGuard) : Registry :=
  { r with guards := (name, g) :: r.guards }

/-- A registry with one more action of the host, which reads and writes the given paths. -/
def withAction (r : Registry) (name : String) (f : HostAction) (reads writes : List String) :
    Registry :=
  { r with actions := (name, { name, code := .host f, reads, writes }) :: r.actions }

def withActor (r : Registry) (name : String) (a : Actor) : Registry :=
  { r with actors := (name, a) :: r.actors }

def withTransform (r : Registry) (name : String) (f : Transform) : Registry :=
  { r with transforms := (name, f) :: r.transforms }

def withFilter (r : Registry) (name : String) (f : FilterFn) : Registry :=
  { r with renderer := r.renderer.withFilter name f }

/-- The names of the actions and of the actors. -/
def actionNames (r : Registry) : List String := distinctSorted (r.actions.map (·.1))
def actorNames (r : Registry) : List String := distinctSorted (r.actors.map (·.1))

/-- A registration is found under its name and leaves other names alone. -/
theorem action?_withAction (r : Registry) (name other : String) (f : HostAction)
    (reads writes : List String) :
    (r.withAction name f reads writes).action? other =
      if other = name then some { name, code := .host f, reads, writes } else r.action? other := by
  by_cases h : other = name
  · subst h; simp [withAction, action?]
  · have hb : (other == name) = false := by simpa using h
    simp [withAction, action?, List.lookup_cons, hb, h]

/-! ## 2. Actors of a flow -/

/-- Why a definition stands for no actor. -/
inductive ActorRefError where
  | unknownType (name : String) (type : Value)
  | noUrl (name : String)
  | badDelay (name : String)
  | unknownWrapped (name : String) (src : Value)
deriving Repr, Inhabited

def ActorRefError.message : ActorRefError → String
  | unknownType name type => "Actor '" ++ name ++ "' has unknown type '" ++ type.display ++ "'"
  | noUrl name => "HTTP actor '" ++ name ++ "' needs an 'http.url'"
  | badDelay name => "Timer actor '" ++ name ++ "' needs a non-negative 'ms'"
  | unknownWrapped name src => "Promise actor '" ++ name ++ "' wraps unknown actor '" ++ src.display ++ "'"

/-- Why an actor cannot be made: its definition is wrong, or holds data of the wrong kind. -/
inductive ActorError where
  | reference (e : ActorRefError)
  | data (e : DataFault)
deriving Repr, Inhabited

/-- The actor of an HTTP definition. -/
def createHttp (r : Registry) (name : String) (definition : Value) : Except ActorError Actor :=
  match definition.get? "http" with
  | some (.dict http) =>
    if ((Entries.lookup "url" http).getD .null).isTruthy then
      (Actor.http <$> httpActor r.config name http).mapError .data
    else .error (.reference (.noUrl name))
  | _ => .error (.reference (.noUrl name))

/-- The actor of a timer definition. -/
def createTimer (name : String) (definition : Value) : Except ActorError Actor :=
  let ms := (definition.get? "ms").getD (.int 0)
  match ms.number? with
  | some n => if n.isNegative then .error (.reference (.badDelay name)) else .ok (.timer ms)
  | none => .error (.reference (.badDelay name))

/-- The actor of a definition inside a flow. -/
def createActor (r : Registry) (name : String) (definition : Value) : Except ActorError Actor :=
  match definition with
  | .dict es =>
    let type := (Entries.lookup "type" es).getD (if Entries.has "http" es then .text "http" else .null)
    match type with
    | .text "http" => r.createHttp name definition
    | .text "timer" => createTimer name definition
    | .text "promise" =>
      let src := (Entries.lookup "src" es).getD .null
      match src.text?.bind r.actor? with
      | some a => .ok a
      | none => .error (.reference (.unknownWrapped name src))
    | type => .error (.reference (.unknownType name type))
  | v => .error (.data (.noAttribute v.kind "get"))

end Registry

end Statechart
