/-
# Bindings

A binding carries data between the context and a store: inputs into the context when a state is
entered, outputs out of the context when it is left. A transform may change the value on the way;
one that fails drops the value and is logged.

* `Binding.parse`: the binding of a descriptor, or all that is wrong with it;
* `Binding.applyInputs`, `Binding.applyOutputs`;
* `parse_input_target`, `parse_output_source`: what parsing guarantees.
-/
import Statechart.Effect

namespace Statechart

/-- A transform of values. -/
abbrev Transform := Value → Except DataFault Value

/-! ## 1. Descriptors -/

/-- Which way a binding carries data. -/
inductive Direction where
  | input | output
deriving DecidableEq, Repr, Inhabited

/-- What can be wrong with a descriptor. -/
inductive BindingProblem where
  | noSource | noTarget
  | unknownSource (ref : String)
  | unknownTarget (ref : String)
  | inputTarget (ref : String)
  | outputSource (ref : String)
  | outputTarget (ref : String)
  | unknownTransform (name : Value)
deriving Repr, Inhabited

def BindingProblem.message : BindingProblem → String
  | noSource => "binding is missing 'source'"
  | noTarget => "binding is missing 'target'"
  | unknownSource ref => "unknown source prefix in '" ++ ref ++ "'"
  | unknownTarget ref => "unknown target prefix in '" ++ ref ++ "'"
  | inputTarget ref => "input binding must target the context, got '" ++ ref ++ "'"
  | outputSource ref => "output binding must read from the context, got '" ++ ref ++ "'"
  | outputTarget ref => "output binding must target an external store, got '" ++ ref ++ "'"
  | unknownTransform name => "unknown transform '" ++ name.display ++ "'"

/-- Why a descriptor stands for no binding: problems of its own, or a name no table can hold. -/
inductive BindingError where
  | problems (ps : List BindingProblem)
  | badName (e : DataFault)
deriving Repr, Inhabited

/-- The words for a list of problems. -/
def BindingProblem.summary (ps : List BindingProblem) : String :=
  "; ".intercalate (ps.map BindingProblem.message)

/-- A place in a store. -/
structure Place where
  store : Store
  key : String
deriving DecidableEq, Repr, Inhabited

def Place.reference (p : Place) : String := p.store.reference p.key

/-- A binding that is ready to carry data. -/
structure Binding where
  source : Place
  target : Place
  /-- A transform and its name. -/
  transform : Option (String × Transform) := none
deriving Inhabited

namespace Binding

/-- A reference of a descriptor: a text that is not empty. -/
def ref? (descriptor : Value) (name : String) : Option String :=
  match descriptor.get? name with
  | some (.text s) => if s.isEmpty then none else some s
  | _ => none

/-- The place a reference names. -/
def place? (ref : String) : Option Place := (Store.split ref).map fun (store, key) => ⟨store, key⟩

/-- What is wrong with the ends of a binding. -/
def endProblems (direction : Direction) (source target : String) : List BindingProblem :=
  let s := place? source
  let t := place? target
  (if s.isNone then [.unknownSource source] else []) ++
  (if t.isNone then [.unknownTarget target] else []) ++
  match direction with
  | .input => if t.any (·.store ≠ .context) then [.inputTarget target] else []
  | .output =>
    (if s.any (·.store ≠ .context) then [.outputSource source] else []) ++
    (if t.any (·.store = .context) then [.outputTarget target] else [])

/-- The transform a descriptor names, if it names one. -/
def transformOf (transforms : String → Option Transform) (name : Value) :
    Except BindingError (Option (String × Transform) × List BindingProblem) :=
  match name with
  | .null => .ok (none, [])
  | .text s =>
    match transforms s with
    | some f => .ok (some (s, f), [])
    | none => .ok (none, [.unknownTransform name])
  | .list _ | .dict _ => .error (.badName (.unhashable name.kind))
  | _ => .ok (none, [.unknownTransform name])

/-- The binding of a descriptor, or all that is wrong with it. -/
def parse (transforms : String → Option Transform) (direction : Direction) (descriptor : Value) :
    Except BindingError Binding :=
  match ref? descriptor "source", ref? descriptor "target" with
  | some source, some target => do
    let (transform, unknown) ← transformOf transforms (descriptor.getD "transform")
    match endProblems direction source target ++ unknown, place? source, place? target with
    | [], some s, some t => return { source := s, target := t, transform }
    | ps, _, _ => .error (.problems ps)
  | source, target =>
    .error (.problems ((if source.isNone then [.noSource] else []) ++
      (if target.isNone then [.noTarget] else [])))

/-- The ends of a parsed binding have no problem. -/
theorem parse_ends {transforms : String → Option Transform} {direction : Direction}
    {descriptor : Value} {b : Binding} (h : parse transforms direction descriptor = .ok b) :
    ∃ source target, endProblems direction source target = [] ∧
      place? source = some b.source ∧ place? target = some b.target := by
  unfold parse at h
  split at h
  · rename_i source target _ _
    simp only [bind, Except.bind] at h
    split at h
    · exact absurd h (by simp)
    · split at h
      · rename_i hp hs ht
        simp only [pure, Except.pure, Except.ok.injEq] at h
        subst h
        exact ⟨source, target, (List.append_eq_nil_iff.mp hp).1, hs, ht⟩
      · exact absurd h (by simp)
  · exact absurd h (by simp)

/-- An input carries data into the context. -/
theorem parse_input_target {transforms : String → Option Transform} {descriptor : Value} {b : Binding}
    (h : parse transforms .input descriptor = .ok b) : b.target.store = .context := by
  obtain ⟨source, target, hp, _, ht⟩ := parse_ends h
  simp only [endProblems, List.append_eq_nil_iff] at hp
  have := hp.2
  simpa [ht] using this

/-- An output carries data out of the context. -/
theorem parse_output_source {transforms : String → Option Transform} {descriptor : Value} {b : Binding}
    (h : parse transforms .output descriptor = .ok b) : b.source.store = .context := by
  obtain ⟨source, target, hp, hs, _⟩ := parse_ends h
  simp only [endProblems, List.append_eq_nil_iff] at hp
  have := hp.2.1
  simpa [hs] using this

/-! ## 2. Carrying data -/

/-- A value after the transform; none when the transform failed. -/
def transformed (b : Binding) (v : Value) : Act (Option Value) :=
  match b.transform with
  | none => return some v
  | some (name, f) =>
    match f v with
    | .ok w => return some w
    | .error e => do
      Act.say .warning .bindings ("Transform '" ++ name ++ "' failed for " ++
        b.source.reference ++ " -> " ++ b.target.reference ++ ": " ++ e.message)
      return none

/-- The context after an input; a source without a value leaves its target alone. -/
def applyInput (context : Value) (b : Binding) : Act Value := do
  let v ← if b.source.store = .context then
      Act.lift (liftData (liftPath (context.atTextD b.source.key)))
    else Act.readStore b.source.store b.source.key
  if v.isNull then return context
  match ← b.transformed v with
  | some v => Act.lift (context.stored b.target.key v)
  | none => return context

/-- The context after inputs, in order. -/
def applyInputs (bs : List Binding) (context : Value) : Act Value := bs.foldlM applyInput context

/-- Write one output. -/
def applyOutput (context : Value) (b : Binding) : Act Unit := do
  let v ← Act.lift (liftData (liftPath (context.atTextD b.source.key)))
  match ← b.transformed v with
  | some v => Act.writeStore b.target.store b.target.key v
  | none => return ()

/-- Write outputs, in order. -/
def applyOutputs (bs : List Binding) (context : Value) : Act Unit := bs.forM (applyOutput context)

end Binding

end Statechart
