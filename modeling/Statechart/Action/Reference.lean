/-
# References to actions

A flow refers to an action by shorthand such as `assignField:field:user`, by an object with a `type`
and parameters, or by the name of one of its own actions, which may refer on, not in a circle.

* `Action.shorthandParams`: the parameters written in a shorthand;
* `Action.bindSpec`: an action with parameters, checked;
* `Action.bind`: the action of a reference.
-/
import Statechart.Action.Spec
import Statechart.Guard.Reference

namespace Statechart

namespace Action

/-! ## 1. Parameters -/

/-- Tokens two by two, as parameters with literals. -/
def pairs : List String → Entries → Entries
  | k :: v :: rest, es => pairs rest (Entries.insert k (parseLiteral v) es)
  | _, es => es

/-- The parameters written in a shorthand. -/
def shorthandParams (ref : String) (spec : ActionSpec) : Except ActionError Entries :=
  let rest := ((cutAt ':' ref).2).getD ""
  if rest.isEmpty then .ok []
  else if spec.takesRest then .ok [(.text (spec.positional.getD "value"), .text rest)]
  else
    let tokens := splitAt ':' rest
    match tokens, spec.positional with
    | [token], some name => .ok [(.text name, .text token)]
    | [_], none => .error (.noPositional spec.name ref)
    | _, _ => if tokens.length % 2 = 0 then .ok (pairs tokens []) else .error (.unpaired ref)

/-! ## 2. Binding -/

/-- The qualified paths a parameter names: a text, or the keys of a mapping. -/
def targets : Value → List String
  | .dict es => es.map fun (k, _) => qualified k.display
  | .text s => [qualified s]
  | _ => []

/-- The qualified paths an action writes. -/
def writes (spec : ActionSpec) (params : Entries) : List String :=
  spec.writes.map qualified ++
    spec.writeParams.flatMap (fun p => targets ((Entries.lookup p params).getD .null)) ++
    (if spec.name = "generateId" ∧ !Entries.has "field" params then ["context.id"] else [])

/-- The qualified paths an action reads. -/
def reads (spec : ActionSpec) (params : Entries) : List String :=
  spec.reads.map qualified ++
    spec.readParams.flatMap fun p =>
      match Entries.lookup p params with
      | some (.text s) => [qualified s]
      | _ => []

/-- An action with its parameters, all of which must be there and write to the context only. -/
def bindSpec (spec : ActionSpec) (params : Entries) : Except ActionError BoundAction := do
  let missing := (requiredParameters spec.name).filter (!Entries.has · params)
  unless missing.isEmpty do .error (.missingParameters spec.name missing)
  let writes := writes spec params
  if let some path := writes.find? (!beginsWith "context." ·) then
    .error (.cannotWrite spec.name path)
  return { spec, params, reads := distinctSorted (reads spec params), writes := distinctSorted writes }

/-- An action of the catalogue. -/
def known (catalogue : String → Option ActionSpec) (name : String) : Except ActionError ActionSpec :=
  match catalogue name with
  | some spec => .ok spec
  | none => .error (.unknown name)

/-- The action of a reference; `unused` holds the actions of the flow that have not been looked up
on the way to it. -/
def bindFrom (flow : Entries) (catalogue : String → Option ActionSpec) (unused : Entries)
    (ref : Value) : Except ActionError BoundAction :=
  match ref with
  | .dict es =>
    match Entries.lookup "type" es with
    | some (.text name) => do bindSpec (← known catalogue name) (Entries.erase "type" es)
    | _ => .error (.noType ref)
  | .text s =>
    let s := strip s
    if s.isEmpty then .error (.invalidReference ref)
    else match _h : Entries.lookup s unused with
      | some definition => bindFrom flow catalogue (Entries.erase s unused) definition
      | none =>
        if Entries.has s flow then .error (.selfReference s)
        else do
          let spec ← known catalogue (cutAt ':' s).1
          bindSpec spec (← shorthandParams s spec)
  | _ => .error (.invalidReference ref)
termination_by unused.length
decreasing_by exact Guard.length_erase_lt (by assumption)

/-- The action of a reference inside a flow with actions of its own. -/
def bind (flow : Entries) (catalogue : String → Option ActionSpec) (ref : Value) :
    Except ActionError BoundAction :=
  bindFrom flow catalogue flow ref

/-- A bound action writes to the context only. -/
theorem bindSpec_writes {spec : ActionSpec} {params : Entries} {a : BoundAction}
    (h : bindSpec spec params = .ok a) (path : String) (hp : path ∈ writes spec params) :
    beginsWith "context." path = true := by
  unfold bindSpec at h
  cases hf : (writes spec params).find? (!beginsWith "context." ·) with
  | some p =>
    cases hm : ((requiredParameters spec.name).filter (!Entries.has · params)).isEmpty <;>
      simp [hm, hf, Bind.bind, Except.bind] at h
  | none =>
    have := List.find?_eq_none.mp hf path hp
    simpa using this

end Action

end Statechart
