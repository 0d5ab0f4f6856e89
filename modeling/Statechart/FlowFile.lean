/-
# Flow files

A definition is kept in a JSON or a YAML file, whose name tells which. It is all of the file, or what
stands under `flow` when the file has no states of its own.

* `FlowFile.formatOf`: the format a name tells;
* `FlowFile.load`: the definition in a file;
* `LoadError.message`: why a file has none.
-/
import Statechart.Compile.Nest
import Statechart.FileName
import Statechart.Json.Reader
import Statechart.Text.Utf8
import Statechart.Yaml.Reader

namespace Statechart

/-- How a file is written. -/
inductive FileFormat where
  | json | yaml
deriving DecidableEq, Repr, Inhabited

def FileFormat.label : FileFormat → String
  | json => "json"
  | yaml => "yaml"

/-- Why a file could not be read as what its name tells. -/
inductive FileTrouble where
  | encoding (e : Utf8.Malformed)
  | json (e : Json.ReadError)
  | yaml (e : Yaml.Trouble)
deriving DecidableEq, Repr, Inhabited

/-- What to add to the message about a file; of a malformed YAML text no more is said. -/
def FileTrouble.message : FileTrouble → String
  | encoding e => ": " ++ e.message
  | json e => ": " ++ e.message
  | yaml _ => ""

/-- Why a file has no definition. -/
inductive LoadError where
  /-- The name has an ending of no known format. -/
  | unsupported (ending : String)
  | notFound (name : String)
  | malformed (format : FileFormat) (name : String) (why : FileTrouble)
  | notAnObject (name : String)
  | flowNotAnObject (name : String)
  | isFolder (name : String)
deriving DecidableEq, Repr, Inhabited

def LoadError.message : LoadError → String
  | unsupported ending =>
    "Unsupported file format: " ++ (if ending.isEmpty then "<none>" else ending)
  | notFound name => "File not found: " ++ name
  | malformed format name why =>
    "Error parsing " ++ toUpperCase format.label ++ " in " ++ name ++ why.message
  | notAnObject name => name ++ " must contain an object"
  | flowNotAnObject name => "'flow' in " ++ name ++ " must be an object"
  | isFolder name => "[Errno 21] Is a directory: '" ++ name ++ "'"

/-- What is stored under a name. -/
inductive Stored where
  | folder
  | file (bytes : List UInt8)

/-- From where files are seen. -/
structure Workplace where
  folder : FileName
  /-- Whether the folder was named by the environment; steps back in names are then kept. -/
  isNamed : Bool := false
  stored : FileName → Option Stored

namespace FlowFile

/-! ## 1. Names -/

/-- The format that the name of a file tells. -/
def formatOf (f : FileName) : Except LoadError FileFormat :=
  let ending := toLowerCase f.suffix
  if ending = ".yml" ∨ ending = ".yaml" then .ok .yaml
  else if ending = ".json" then .ok .json
  else .error (.unsupported ending)

/-- The full name of a file. -/
def locate (w : Workplace) (f : FileName) : FileName :=
  if f.isAbsolute then f else if w.isNamed then f.below w.folder else f.resolved w.folder

/-! ## 2. Contents -/

/-- What a file holds. -/
inductive Content where
  | value (v : Value)
  | document (d : Document)

namespace Content

def isMapping : Content → Bool
  | value v => v.isDict
  | document d => d.isMapping

/-- What stands under a field. -/
def field? (name : String) : Content → Option Content
  | value v => (v.get? name).map value
  | document d => (d.field? name).map document

def toValue : Content → Value
  | value v => v
  | document d => d.value

/-- A content as a definition. -/
def source : Content → FlowSource
  | value v => .ofValue v
  | document d => .ofDocument d

end Content

/-- What bytes hold. -/
def parse (format : FileFormat) (bytes : List UInt8) : Except FileTrouble Content := do
  let text := String.ofList (unifyLines (← (Utf8.decode bytes).mapError .encoding).toList)
  match format with
  | .json => return .value (← (Json.read text .reject).mapError .json)
  | .yaml => return .document (← (Yaml.read text).mapError .yaml)

/-- What bytes of a file hold; a YAML file that is no text is malformed like any other. -/
def parseFile (format : FileFormat) (name : String) (bytes : List UInt8) : Except LoadError Content :=
  match parse format bytes, format with
  | .ok c, _ => .ok c
  | .error _, .yaml => .error (.malformed .yaml name (.yaml .unprintable))
  | .error e, .json => .error (.malformed .json name e)

/-- What the file of a name holds. -/
def read (w : Workplace) (f : FileName) : Except LoadError Content := do
  let full := locate w f
  match w.stored full.withoutSteps with
  | none => throw (.notFound full.text)
  | some stored =>
    let format ← formatOf full
    match stored with
    | .folder => throw (.isFolder full.text)
    | .file bytes => parseFile format full.text bytes

/-- The definition in a content; `name` is how the file was named. -/
def definition (name : String) (c : Content) : Except LoadError Content :=
  if !c.isMapping then .error (.notAnObject name)
  else match c.field? "flow", c.field? "states" with
    | some inner, none => if inner.isMapping then .ok inner else .error (.flowNotAnObject name)
    | _, _ => .ok c

/-- The definition in the file of a name. -/
def load (w : Workplace) (name : String) : Except LoadError Content := do
  definition name (← read w (.ofText name))

/-- A definition is always a mapping. -/
theorem isMapping_of_definition {name : String} {c d : Content} (h : definition name c = .ok d) :
    d.isMapping = true := by
  unfold definition at h
  split at h
  · simp at h
  · split at h
    · split at h
      · simp only [Except.ok.injEq] at h
        subst h
        assumption
      · simp at h
    · simp_all

end FlowFile

end Statechart
