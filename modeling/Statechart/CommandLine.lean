/-
# The command line

    validate FILE [--json]
    run FILE [-e EVENT]... [--settle SECONDS] [--json]

Both come after an optional `-v` or `--verbose`. Options and the file may come in any order; a value
follows its option or is attached to it. What a command prints and its exit status are a function of
the arguments, the environment and the files.

* `CommandLine.parse`: what the arguments ask for;
* `CommandLine.execute`: what is printed, and the exit status;
* `CommandLine.fileOf?`: the file that the arguments name.
-/
import Statechart.Compile
import Statechart.FlowFile
import Statechart.Instance.Clock
import Statechart.Json.Writer
import Statechart.Markup

namespace Statechart

namespace CommandLine

/-! ## 1. Options -/

/-- The options of all commands. -/
inductive Flag where
  | verbose | json | event | settle
deriving DecidableEq, Repr, Inhabited

def Flag.takesValue : Flag → Bool
  | event | settle => true
  | verbose | json => false

/-- Why arguments are not understood. -/
inductive UsageError where
  | unknownOption (name : String)
  | missingValue (option : String)
  | unexpectedValue (option : String)
  | unknownCommand (name : String)
  | missingCommand
  | missingFile
  | extraArgument (s : String)
  | notANumber (s : String)
deriving DecidableEq, Repr, Inhabited

def UsageError.message : UsageError → String
  | unknownOption name => "No such option: " ++ name
  | missingValue option => "Option '" ++ option ++ "' requires an argument."
  | unexpectedValue option => "Option '" ++ option ++ "' does not take a value."
  | unknownCommand name => "No such command '" ++ name ++ "'."
  | missingCommand => "Missing command."
  | missingFile => "Missing argument 'FLOW_FILE'."
  | extraArgument s => "Got unexpected extra argument (" ++ s ++ ")"
  | notANumber s => "Invalid value for '--settle': '" ++ s ++ "' is not a valid float."

/-- The options that are known in a place, by name. -/
abbrev OptionTable := List (String × Flag)

/-- What is left of the arguments, and what was found. -/
structure Parsed where
  /-- Options in order, each with its value if it takes one. -/
  options : List (Flag × String) := []
  others : List String := []
deriving Inhabited

/-- The part of an argument before its first equals sign, and what comes after it. -/
def splitValue (arg : String) : String × Option String :=
  let name := arg.toList.takeWhile (· ≠ '=')
  match arg.toList.drop name.length with
  | [] => (arg, none)
  | _ :: value => (String.ofList name, some (String.ofList value))

/-- The value of an option: what is attached, else the next argument. -/
def valueOf (name : String) (attached : Option String) (rest : List String) :
    Except UsageError (String × List String) :=
  match attached, rest with
  | some v, rest => .ok (v, rest)
  | none, v :: rest => .ok (v, rest)
  | none, [] => .error (.missingValue name)

/-- Options of one letter each behind a single dash; the rest of the argument is the value of the
first one that takes a value. -/
def letters (table : OptionTable) (rest : List String) :
    List Char → Except UsageError (List (Flag × String) × List String)
  | [] => .ok ([], rest)
  | c :: cs =>
    let name := String.ofList ['-', c]
    match table.lookup name with
    | none => .error (.unknownOption name)
    | some flag =>
      if flag.takesValue then do
        let attached := if cs.isEmpty then none else some (String.ofList cs)
        let (v, rest) ← valueOf name attached rest
        return ([(flag, v)], rest)
      else do
        let (options, rest) ← letters table rest cs
        return ((flag, "") :: options, rest)

/-- What an argument that begins with a dash stands for. -/
def optionOf (table : OptionTable) (arg : String) (rest : List String) :
    Except UsageError (List (Flag × String) × List String) :=
  let (name, attached) := splitValue arg
  match table.lookup name with
  | some flag =>
    if name.length ≤ 2 then letters table rest (arg.toList.drop 1)
    else if flag.takesValue then do
      let (v, rest) ← valueOf name attached rest
      return ([(flag, v)], rest)
    else if attached.isSome then .error (.unexpectedValue name)
    else .ok ([(flag, "")], rest)
  | none =>
    if arg.toList.take 2 = ['-', '-'] then .error (.unknownOption name)
    else letters table rest (arg.toList.drop 1)

/-- Read options; where `stops`, the first other argument ends them. -/
def readOptions (table : OptionTable) (stops : Bool) : Nat → List String → Except UsageError Parsed
  | 0, args => .ok { others := args }
  | _ + 1, [] => .ok {}
  | fuel + 1, arg :: rest =>
    if arg = "--" then .ok { others := rest }
    else if arg.toList.head? = some '-' ∧ 1 < arg.length then do
      let (found, rest) ← optionOf table arg rest
      let p ← readOptions table stops fuel rest
      return { p with options := found ++ p.options }
    else if stops then .ok { others := arg :: rest }
    else do
      let p ← readOptions table stops fuel rest
      return { p with others := arg :: p.others }

def readAll (table : OptionTable) (stops : Bool) (args : List String) : Except UsageError Parsed :=
  readOptions table stops (args.length + 1) args

/-! ## 2. Commands -/

/-- What is asked for. -/
inductive Command where
  | validate (file : String)
  | run (file : String) (events : List String) (settle : Float)
deriving Inhabited

/-- A command with the way to print its results. -/
structure Order where
  command : Command
  asJson : Bool
deriving Inhabited

def Order.file (o : Order) : String :=
  match o.command with
  | .validate f => f
  | .run f _ _ => f

/-- How long a run waits after each event unless it is told, in seconds. -/
def usualSettle : Float := 0.05

/-- The only argument that is no option. -/
def onlyFile : List String → Except UsageError String
  | [] => .error .missingFile
  | [f] => .ok f
  | _ :: extra :: _ => .error (.extraArgument extra)

/-- The time to settle that was given last. -/
def settleOf (p : Parsed) : Except UsageError Float :=
  match (p.options.filter (·.1 = .settle)).getLast? with
  | none => .ok usualSettle
  | some (_, s) =>
    match Numeral.float? s with
    | some x => .ok x
    | none => .error (.notANumber s)

def readValidate (args : List String) : Except UsageError Order := do
  let p ← readAll [("--json", .json)] false args
  return ⟨.validate (← onlyFile p.others), p.options.any (·.1 = .json)⟩

def readRun (args : List String) : Except UsageError Order := do
  let p ← readAll [("--json", .json), ("--event", .event), ("-e", .event), ("--settle", .settle)] false args
  let events := (p.options.filter (·.1 = .event)).map (·.2)
  let settle ← settleOf p
  return ⟨.run (← onlyFile p.others) events settle, p.options.any (·.1 = .json)⟩

/-- The commands by name. -/
def commands : List (String × (List String → Except UsageError Order)) :=
  [("validate", readValidate), ("run", readRun)]

/-- What the arguments ask for: whether it is to be told verbosely, and the order, which is looked at
only after the configuration. -/
def parse (args : List String) : Except UsageError (Bool × Except UsageError Order) := do
  let p ← readAll [("--verbose", .verbose), ("-v", .verbose)] true args
  match p.others with
  | [] => throw .missingCommand
  | name :: rest =>
    match commands.lookup name with
    | none => throw (.unknownCommand name)
    | some read => return (!p.options.isEmpty, read rest)

/-! ## 3. Printing -/

/-- Why a command ended early; nothing more is to be printed for the last two. -/
inductive Ending where
  | fault (f : Fault)
  | markup (e : Markup.Unmatched)
  | load (e : LoadError)
  | compile (f : CompileFailure)
  /-- A text that looks like a JSON event but is none. -/
  | badEvent (raw : String) (e : Json.ReadError)
deriving Inhabited

/-- What has been printed so far, and how. -/
structure Screen where
  verbose : Bool
  asJson : Bool
  text : String := ""

/-- A step that prints, and may end the command. -/
abbrev Printing (α : Type) := ExceptT Ending (StateM Screen) α

def Printing.fail (e : Ending) : Printing α := throw e

/-- Print a line as it is. -/
def line (s : String) : Printing Unit := modify fun c => { c with text := c.text ++ s ++ "\n" }

/-- Print a line that may have marks in it. -/
def marked (s : String) : Printing Unit :=
  match Markup.render s with
  | .ok s => line (Markup.plain s)
  | .error e => throw (.markup e)

/-- Print a line with marks when everything is to be told. -/
def tell (s : String) : Printing Unit := do
  let c ← get
  if c.verbose && !c.asJson then marked s

/-- Print a line unless JSON is asked for. -/
def note (label s : String) : Printing Unit := do
  if !(← get).asJson then line (Markup.plain (label ++ s))

/-- Print a value as JSON. -/
def json (v : Value) : Printing Unit := line (Json.indented v)

/-! ## 4. Events -/

/-- The event that an argument stands for: JSON when it begins with a brace, else a type. -/
def eventOf (raw : String) : Except Ending Value :=
  let text := strip raw
  if text.toList.head? = some '\x7b' then
    match Json.read text .keepLast with
    | .ok v => .ok v
    | .error e => .error (.badEvent raw e)
  else .ok (.text text)

/-! ## 5. Running -/

/-- A run with its instance. -/
abbrev Drive (α : Type) := StateT Instance (ExceptT Ending (StateM Screen)) α

/-- A step of the instance. -/
def step (r : Run α) : Drive α := fun s =>
  match r.exec s with
  | (.ok a, s) => pure (a, s)
  | (.error f, _) => throw (.fault f)

/-- Wait after an event: some seconds, or just until what is ready has happened. The alarms are those
that were due at the last wait. -/
def pause (m : Machine) (settle : Float) (due : List Alarm) : Drive (List Alarm) :=
  if settle ≤ 0 then step (Instance.giveWay m due)
  else do
    let world := (← get).world
    match world.instant settle with
    | .ok instant => step (Instance.advance m (instant - world.now))
    | .error e => Printing.fail (.fault (.data e))
    return []

/-- Send events until one is left when the flow has ended. -/
def sendAll (m : Machine) (settle : Float) (due : List Alarm) : List Value → Drive Unit
  | [] => return
  | event :: events => do
    if (← get).status ≠ .active then
      note "Warning: " ("Flow finished before event " ++ event.literal)
    else
      if let some why := ← step (Instance.explain m event) then tell ("[dim]" ++ why ++ "[/dim]")
      step (Instance.send m event)
      tell (event.literal ++ " -> " ++ (← get).state)
      sendAll m settle (← pause m settle due) events

/-- Start an instance, send it events and look at it in the end. -/
def drive (m : Machine) (settle : Float) (events : List Value) : Drive Snapshot := do
  step (Instance.start m)
  if events.isEmpty then discard (pause m settle [])
  else sendAll m settle [] events
  step (Instance.snapshot m)

/-- The instance of a flow. -/
def runFlow (registry : Registry) (source : FlowSource) (settle : Float) (events : List Value) :
    Printing Snapshot := do
  match Definition.compileSource registry registry.config source with
  | .error (.failure f) => throw (.compile f)
  | .error (.data e) => throw (.fault (.data e))
  | .ok c =>
    c.warnings.forM fun w => tell ("[yellow]Warning:[/yellow] " ++ w.text)
    let m : Machine := { graph := c.graph, renderer := registry.renderer }
    match Instance.ofGraph m {} with
    | .error f => throw (.fault f)
    | .ok s => return (← (drive m settle events).run s).1

/-! ## 6. Commands carried out -/

def load (w : Workplace) (file : String) : Printing FlowFile.Content := do
  let name := (FileName.ofText file).text
  tell ("[dim]Loading flow from: " ++ name ++ "[/dim]")
  match FlowFile.load w name with
  | .ok c => return c
  | .error e => throw (.load e)

/-- Print the issues of a flow; whether it has no errors. -/
def validateFlow (registry : Registry) (w : Workplace) (file : String) : Printing Bool := do
  let name := (FileName.ofText file).text
  let c ← load w file
  match Definition.validateSource registry registry.config c.source with
  | .error e => throw (.fault (.data e))
  | .ok is =>
    let errors := (Issue.errors is).map Issue.text
    let warnings := (Issue.warnings is).map Issue.text
    if (← get).asJson then
      json (.record [("valid", .bool errors.isEmpty), ("errors", .texts errors), ("warnings", .texts warnings)])
    else
      errors.forM (note "Error: ")
      warnings.forM (note "Warning: ")
      if errors.isEmpty then
        note "✓ " (name ++ " is valid (" ++ toString warnings.length ++ " warning(s))")
      else marked (name ++ ": " ++ toString errors.length ++ " error(s)")
    return errors.isEmpty

/-- Run a flow and print what its instance shows in the end. -/
def runFile (registry : Registry) (w : Workplace) (file : String) (events : List String)
    (settle : Float) : Printing Unit := do
  let c ← load w file
  let events ← events.mapM fun raw => (liftM (eventOf raw) : Printing Value)
  let shown ← runFlow registry c.source settle events
  if (← get).asJson then json shown.toValue
  else
    marked ("State: [bold]" ++ shown.state ++ "[/bold] (" ++ shown.status.label ++ ")")
    json shown.context

/-- Carry out an order; whether it succeeded. -/
def perform (registry : Registry) (w : Workplace) (o : Order) : Printing Bool :=
  match o.command with
  | .validate file => validateFlow registry w file
  | .run file events settle => do
    runFile registry w file events settle
    return true

/-- What failed, as the messages about it begin. -/
def Command.failure : Command → String
  | validate _ => "Validation failed: "
  | run .. => "Run failed: "

/-- Tell why a command ended early. -/
def explain (o : Order) (e : Ending) : Printing Unit := do
  let (why, extra) : String × List (String × Value) := match e with
    | .load e => (match e with
      | .isFolder _ => o.command.failure ++ e.message
      | _ => e.message, [])
    | .compile f => (f.message, [("errors", .texts (f.errors.map Issue.text))])
    | .fault f => (o.command.failure ++ f.message, [])
    | .markup e => (o.command.failure ++ e.message, [])
    | .badEvent raw (.malformed e) =>
      (o.command.failure ++ "Invalid JSON event '" ++ raw ++ "': " ++ e.message, [])
    | .badEvent _ e => (o.command.failure ++ e.message, [])
  if (← get).asJson then json (.record ([("error", .text why)] ++ extra))
  else note "Error: " why

/-- What a command leaves behind. -/
structure Outcome where
  status : Nat
  output : String
deriving DecidableEq, Repr, Inhabited

/-- Carry out an order to the end. -/
def carryOut (registry : Registry) (w : Workplace) (verbose : Bool) (o : Order) : Outcome :=
  let screen : Screen := { verbose, asJson := o.asJson }
  match (perform registry w o).run screen with
  | (.ok b, c) => ⟨if b then 0 else 1, c.text⟩
  | (.error e, c) => ⟨1, ((explain o e).run c).2.text⟩

/-- The output when the configuration is wrong. -/
def misconfigured (message : String) : Outcome :=
  let marked := "[red]Error:[/red] Invalid configuration: " ++ message
  match Markup.render marked with
  | .ok s => ⟨1, Markup.plain s ++ "\n"⟩
  | .error _ => ⟨1, ""⟩

/-- The variable that names the folder from which files are seen. -/
def folderVariable : String := Config.environmentPrefix ++ "ACTUAL_CWD"

/-- The workplace of an environment. -/
def workplace (env : String → Option String) (folder : FileName) (stored : FileName → Option Stored) :
    Workplace :=
  match env folderVariable with
  | some named => if named.isEmpty then { folder, stored } else { folder := .ofText named, isNamed := true, stored }
  | none => { folder, stored }

/-- What is printed for arguments, and the exit status; nothing is printed and the status is 2 when
the arguments are not understood. -/
def execute (env : String → Option String) (w : Workplace) (args : List String) :
    Except UsageError Outcome := do
  let (verbose, order) ← parse args
  match Config.ofEnvironment env with
  | .error e => return misconfigured e.message
  | .ok config =>
    let o ← order
    match Registry.standard config with
    | .error e => return misconfigured e.message
    | .ok registry => return carryOut registry w verbose o

/-- The full name of the file that the arguments name. -/
def fileOf? (w : Workplace) (args : List String) : Option FileName :=
  match parse args with
  | .ok (_, .ok o) => some (FlowFile.locate w (.ofText o.file)).withoutSteps
  | _ => none

/-! ## 7. What the arguments decide -/

/-- Without a command nothing is asked for. -/
theorem parse_nil : (parse []).toOption.isNone = true := rfl

/-- An order whose steps do not end early has the status of its success. -/
theorem carryOut_of_ok {registry : Registry} {w : Workplace} {verbose : Bool} {o : Order} {b : Bool}
    {c : Screen} (h : (perform registry w o).run { verbose, asJson := o.asJson } = (.ok b, c)) :
    carryOut registry w verbose o = ⟨if b then 0 else 1, c.text⟩ := by
  simp [carryOut, h]

end CommandLine

end Statechart
