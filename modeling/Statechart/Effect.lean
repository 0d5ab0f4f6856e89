/-
# Effects

What a step may do besides computing a value: write to the log, write to the external stores, read
the time of day, and take the next number of the sequence that makes generated identifiers distinct.
What a step has done before it fails remains.

* `Act`: steps with effects that may fail;
* `Act.say`, `Act.catchEval`.
-/
import Statechart.Store

namespace Statechart

/-- How serious a log entry is. -/
inductive LogLevel where
  | info | warning | error
deriving DecidableEq, Repr, Inhabited

def LogLevel.label : LogLevel → String
  | info => "INFO"
  | warning => "WARNING"
  | error => "ERROR"

/-- The part of the library an entry comes from. -/
inductive LogSource where
  | templates | guards | view | actions | bindings | actors | runtime
deriving DecidableEq, Repr, Inhabited

def LogSource.label : LogSource → String
  | templates => "templates"
  | guards => "guards"
  | view => "view"
  | actions => "actions"
  | bindings => "bindings"
  | actors => "actors"
  | runtime => "runtime"

/-- An entry of the log. -/
structure LogEntry where
  level : LogLevel
  source : LogSource
  message : String
deriving DecidableEq, Repr, Inhabited

/-- The state that effects act on. -/
structure Effects where
  /-- Entries written so far, in order. -/
  log : List LogEntry := []
  /-- The number the next generated identifier gets. -/
  sequence : Nat := 1
  /-- The time of day, in milliseconds. -/
  clock : Int := 0
  stores : Stores := {}
deriving Inhabited

/-- A step with effects that may fail; effects before a failure remain. -/
abbrev Act (α : Type) := ExceptT Fault (StateM Effects) α

namespace Act

/-- The result of a step and the effects after it. -/
def exec (m : Act α) (fx : Effects) : Except Fault α × Effects := m fx

/-- A step without effects. -/
def lift (r : Except Fault α) : Act α := fun fx => (r, fx)

def fail (f : Fault) : Act α := lift (.error f)

/-- Write to the log. -/
def say (level : LogLevel) (source : LogSource) (message : String) : Act Unit :=
  fun fx => (.ok (), { fx with log := fx.log ++ [⟨level, source, message⟩] })

/-- Take the next number of the sequence. -/
def nextNumber : Act Nat := fun fx => (.ok fx.sequence, { fx with sequence := fx.sequence + 1 })

/-- The time of day, in milliseconds. -/
def now : Act Int := fun fx => (.ok fx.clock, fx)

/-- The value under a key of an external store. -/
def readStore (store : Store) (key : String) : Act Value := fun fx =>
  (fx.stores.read store key, fx)

/-- Write to an external store. -/
def writeStore (store : Store) (key : String) (v : Value) : Act Unit := fun fx =>
  match fx.stores.write store key v with
  | .ok stores => (.ok (), { fx with stores })
  | .error e => (.error e, fx)

/-- Handle a failed evaluation; every other failure goes on. -/
def catchEval (m : Act α) (handler : EvalError → Act α) : Act α := fun fx =>
  match m fx with
  | (.error (.evaluation e), fx) => handler e fx
  | r => r

@[simp] theorem exec_lift (r : Except Fault α) (fx : Effects) : (lift r).exec fx = (r, fx) := rfl

@[simp] theorem exec_say (level : LogLevel) (source : LogSource) (message : String) (fx : Effects) :
    (say level source message).exec fx =
      (.ok (), { fx with log := fx.log ++ [⟨level, source, message⟩] }) := rfl

/-- One step after another: the second is not made if the first fails. -/
theorem exec_bind (x : Act α) (f : α → Act β) (fx : Effects) :
    (x >>= f).exec fx =
      match x.exec fx with
      | (.ok a, fx') => (f a).exec fx'
      | (.error e, fx') => (.error e, fx') := by
  change ExceptT.bind x f fx = _
  simp only [ExceptT.bind, ExceptT.mk, bind, StateT.bind, exec]
  rcases x fx with ⟨_ | _, _⟩ <;> rfl

/-- A step that succeeds is not handled. -/
theorem catchEval_of_ok {m : Act α} {h : EvalError → Act α} {fx fx' : Effects} {a : α}
    (hm : m.exec fx = (.ok a, fx')) : (catchEval m h).exec fx = (.ok a, fx') := by
  simp only [exec] at hm ⊢
  simp [catchEval, hm]

/-- A failed evaluation is handed to the handler. -/
theorem catchEval_of_eval {m : Act α} {h : EvalError → Act α} {fx fx' : Effects} {e : EvalError}
    (hm : m.exec fx = (.error (.evaluation e), fx')) :
    (catchEval m h).exec fx = (h e).exec fx' := by
  simp only [exec] at hm ⊢
  simp [catchEval, hm]

end Act

end Statechart
