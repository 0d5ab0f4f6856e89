/-
# Scoped paths

In a flow a path names a place in the context or in the current event: `context.user.name`,
`event.data`. A path without such a prefix belongs to the context.

* `splitScope`: the scope of a path and the rest of it;
* `splitScope_join`: a scope that is put in front of a path is taken off again;
* `lookupScoped`: the value at a scoped path.
-/
import Statechart.Path.Access
import Statechart.Text.Search

namespace Statechart

/-- The two kinds of data a flow path can address. -/
inductive DataScope where
  | context
  | event
deriving DecidableEq, Repr, Inhabited

def DataScope.label : DataScope → String
  | context => "context"
  | event => "event"

/-- The scope of a path and the path inside it. -/
def splitScope (path : String) : DataScope × String :=
  if path = "context" then (.context, "")
  else match afterStart? "context." path with
    | some rest => (.context, rest)
    | none =>
      if path = "event" then (.event, "")
      else match afterStart? "event." path with
        | some rest => (.event, rest)
        | none => (.context, path)

/-- A scope that is put in front of a path is taken off again. -/
theorem splitScope_join (scope : DataScope) (rest : String) :
    splitScope (scope.label ++ "." ++ rest) = (scope, rest) := by
  have hlonger {a b : String} (h : b.length < a.length) : a ++ rest ≠ b := fun heq => by
    have := congrArg String.length heq
    rw [String.length_append] at this
    omega
  cases scope with
  | context =>
    have hlabel : DataScope.context.label ++ "." = "context." := rfl
    rw [hlabel, splitScope, if_neg (hlonger (by decide)), afterStart?_eq_some_iff.mpr rfl]
  | event =>
    have hlabel : DataScope.event.label ++ "." = "event." := rfl
    have hcontext : "event." ++ rest ≠ "context" := fun heq => by
      simpa using congrArg (fun s : String => s.toList.head?) heq
    have hnone : afterStart? "context." ("event." ++ rest) = none := by simp [afterStart?]
    rw [hlabel, splitScope, if_neg hcontext, hnone]
    dsimp only
    rw [if_neg (hlonger (by decide)), afterStart?_eq_some_iff.mpr rfl]

/-- A path with its scope written out: `score` becomes `context.score`. -/
def qualified (path : String) : String :=
  let (scope, rest) := splitScope path
  if rest.isEmpty then scope.label else scope.label ++ "." ++ rest

/-- A path with its scope and a dot, even when nothing follows. -/
def fullyScoped (path : String) : String :=
  let (scope, rest) := splitScope path
  scope.label ++ "." ++ rest

/-- The value at a path text, if the path is well formed. -/
def Value.atText (v : Value) (path : String) : Except PathError (Option Value) :=
  (v.at? ·) <$> Path.parse path

/-- The value at a path text, null when nothing is there. -/
def Value.atTextD (v : Value) (path : String) (default : Value := .null) : Except PathError Value :=
  (·.getD default) <$> v.atText path

/-- The value at a scoped path, null when nothing is there. -/
def lookupScoped (path : String) (context event : Value) (default : Value := .null) :
    Except PathError Value :=
  let (scope, rest) := splitScope path
  match scope with
  | .context => context.atTextD rest default
  | .event => event.atTextD rest default

end Statechart
