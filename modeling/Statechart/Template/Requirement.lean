/-
# What a template requires

The variables of a template are the paths its expressions read, in order of appearance. Against a
set of available keys a variable is covered when it is one of them, lies below one or above one;
variables of the event are always covered.

* `Template.pathsRead`: the variables of a template;
* `Template.missing`: the variables that are not covered.
-/
import Statechart.Template.Render

namespace Statechart

namespace Template

/-- The variables read by the head of an expression. -/
def headVariables (head : String) : Except Fault (List String) :=
  if isInline head then do return distinctSorted (Statechart.pathsRead (← readInline head))
  else if (unquote? head).isSome then .ok []
  else match helperCall? head with
    | some (_, argument) => .ok [argument]
    | none => .ok [head]

/-- Members at their first appearance. -/
def firstAppearances (ss : List String) : List String :=
  ss.foldl (fun seen s => if s ∈ seen then seen else seen ++ [s]) []

/-- The variables of a template, in order of appearance. -/
def pathsRead (template : String) : Except Fault (List String) := do
  let pieces ← liftEval (scan template)
  let found ← pieces.mapM fun
    | .text _ => .ok []
    | .expression e => headVariables (pipeline e).1
  return firstAppearances found.flatten

/-- Whether a qualified path is a key, or lies below or above it. -/
def isRelated (path key : String) : Bool :=
  path = key || (afterStart? (key ++ ".") path).isSome || (afterStart? (path ++ ".") key).isSome

/-- Whether a variable is covered by qualified keys. -/
def isCovered (available : List String) (v : String) : Bool :=
  let path := qualified v
  path = "event" || (afterStart? "event." path).isSome || available.any (isRelated path)

/-- The variables that no available key covers; a template that cannot be read lists the reason. -/
def missing (template : String) (available : List String) : Except Fault (List String) :=
  let available := available.map qualified
  match pathsRead template with
  | .ok vs => .ok (vs.filter (!isCovered available ·))
  | .error (.evaluation e) => .ok ["ERROR: " ++ e.message]
  | .error f => .error f

end Template

end Statechart
