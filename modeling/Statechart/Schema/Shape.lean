/-
# Shapes

A shape says of what kind a value has to be: text, a number in a range, a list, a mapping with known
fields, or one of several shapes. Checking a value lists everything that does not fit, with the
place of each complaint. Numbers and truth values may also be given as text.

* `Shape.check`: the complaints about a value;
* `check_any`, `check_nullable_null`: what always fits.
-/
import Statechart.Value.Compare

namespace Statechart

/-! ## 1. Complaints -/

/-- What does not fit at one place. -/
inductive Complaint where
  | missing
  | extra
  | invalidKey
  | notText | notAList | notAMapping
  | notAModel (model : String)
  | tooShort
  | empty
  | notOneOf (options : List String)
  | notAtLeastZero | notAboveZero
  | notAnInteger | unreadableInteger | fractional | notFinite | integerTooLong
  | notANumber | unreadableNumber
  | notABoolean | unreadableBoolean
  /-- A key of the mapping of timers is no delay. -/
  | badDelay (key : String)
deriving DecidableEq, Repr, Inhabited

namespace Complaint

/-- Options as an enumeration in words. -/
def enumeration : List String → String
  | [] => ""
  | [a] => "'" ++ a ++ "'"
  | [a, b] => "'" ++ a ++ "' or '" ++ b ++ "'"
  | a :: rest => "'" ++ a ++ "', " ++ enumeration rest

def message : Complaint → String
  | missing => "Field required"
  | extra => "Extra inputs are not permitted"
  | invalidKey => "Keys should be strings"
  | notText => "Input should be a valid string"
  | notAList => "Input should be a valid list"
  | notAMapping => "Input should be a valid dictionary"
  | notAModel model => "Input should be a valid dictionary or instance of " ++ model
  | tooShort => "String should have at least 1 character"
  | empty => "Dictionary should have at least 1 item after validation, not 0"
  | notOneOf options => "Input should be " ++ enumeration options
  | notAtLeastZero => "Input should be greater than or equal to 0"
  | notAboveZero => "Input should be greater than 0"
  | notAnInteger => "Input should be a valid integer"
  | unreadableInteger => "Input should be a valid integer, unable to parse string as an integer"
  | fractional => "Input should be a valid integer, got a number with a fractional part"
  | notFinite => "Input should be a finite number"
  | integerTooLong => "Unable to parse input string as an integer, exceeded maximum size"
  | notANumber => "Input should be a valid number"
  | unreadableNumber => "Input should be a valid number, unable to parse string as a number"
  | notABoolean => "Input should be a valid boolean"
  | unreadableBoolean => "Input should be a valid boolean, unable to interpret input"
  | badDelay key => "Value error, after delay '" ++ key ++ "' must be a non-negative integer"

/-- The class of a complaint. -/
def label : Complaint → String
  | missing => "missing"
  | extra => "extra_forbidden"
  | invalidKey => "invalid_key"
  | notText => "string_type"
  | notAList => "list_type"
  | notAMapping => "dict_type"
  | notAModel _ => "model_type"
  | tooShort => "string_too_short"
  | empty => "too_short"
  | notOneOf _ => "literal_error"
  | notAtLeastZero => "greater_than_equal"
  | notAboveZero => "greater_than"
  | notAnInteger => "int_type"
  | unreadableInteger => "int_parsing"
  | fractional => "int_from_float"
  | notFinite => "finite_number"
  | integerTooLong => "int_parsing_size"
  | notANumber => "float_type"
  | unreadableNumber => "float_parsing"
  | notABoolean => "bool_type"
  | unreadableBoolean => "bool_parsing"
  | badDelay _ => "value_error"

end Complaint

/-- A complaint and its place, from the outside in. -/
structure Misfit where
  location : List String
  complaint : Complaint
deriving DecidableEq, Repr, Inhabited

/-- The same complaint, one level further out. -/
def Misfit.under (part : String) (m : Misfit) : Misfit := { m with location := part :: m.location }

/-- A complaint about the value at hand. -/
def Misfit.here (c : Complaint) : List Misfit := [⟨[], c⟩]

/-! ## 2. Shapes of single values -/

/-- A lower limit of a number. -/
inductive Limit where
  | none | atLeastZero | aboveZero
deriving DecidableEq, Repr, Inhabited

/-- The complaint about a number below its limit. -/
def Limit.check (l : Limit) (n : Number) : List Misfit :=
  match l with
  | none => []
  | atLeastZero => if n.lt (.int 0) then Misfit.here .notAtLeastZero else []
  | aboveZero => if n.le (.int 0) then Misfit.here .notAboveZero else []

namespace Reading

/-- White space around numbers and texts. -/
def isSpace (c : Char) : Bool := isBlank c && !(0x1c ≤ c.toNat && c.toNat ≤ 0x1f)

/-- A text without the white space around it. -/
def trim (s : String) : String :=
  String.ofList ((s.toList.dropWhile isSpace).reverse.dropWhile isSpace).reverse

/-- A text without a fraction of zeros. -/
def withoutZeroFraction (cs : List Char) : List Char :=
  match cutChars '.' cs with
  | (whole, some fraction) => if fraction.all (· = '0') then whole else cs
  | (_, none) => cs

/-- The integer a text of ASCII digits denotes; a fraction of zeros does no harm. -/
def integer? (s : String) : Option Int :=
  let cs := (trim s).toList
  if cs.all (·.toNat < 0x80) then Numeral.int? (String.ofList (withoutZeroFraction cs)) else none

/-- The float a text of ASCII characters denotes. -/
def float? (s : String) : Option Float :=
  let s := trim s
  if s.toList.all (·.toNat < 0x80) then Numeral.float? s else none

/-- The integer a value stands for. -/
def integer (v : Value) : Except Complaint Int :=
  match v with
  | .bool b => .ok (if b then 1 else 0)
  | .int n => .ok n
  | .float x =>
    match Binary.ofFloat? x with
    | none => .error .notFinite
    | some b =>
      if !b.isWhole then .error .fractional
      else if b.truncate.natAbs < Nat.pow 2 63 then .ok b.truncate else .error .integerTooLong
  | .text s =>
    match integer? s with
    | some n => .ok n
    | none => .error (if Numeral.digitLimit < s.length then .integerTooLong else .unreadableInteger)
  | _ => .error .notAnInteger

/-- The number a value stands for, which has to fit a double. -/
def number (v : Value) : Except Complaint Number :=
  match v with
  | .text s =>
    match float? s with
    | some x => .ok (.float x)
    | none => .error .unreadableNumber
  | v =>
    match v.number? with
    | some n => if n.toFloat.isOk then .ok n else .error .notANumber
    | none => .error .notANumber

def trueWords : List String := ["1", "on", "t", "true", "y", "yes"]
def falseWords : List String := ["0", "off", "f", "false", "n", "no"]

/-- Whether a value stands for a truth value. -/
def boolean (v : Value) : Except Complaint Unit :=
  match v with
  | .bool _ => .ok ()
  | .int n => if n = 0 ∨ n = 1 then .ok () else .error .unreadableBoolean
  | .float x =>
    match integer (.float x) with
    | .ok n => if n = 0 ∨ n = 1 then .ok () else .error .unreadableBoolean
    | .error _ => .error .notABoolean
  | .text s =>
    let word := s.map Char.toLower
    if trueWords.contains word || falseWords.contains word then .ok () else .error .unreadableBoolean
  | _ => .error .notABoolean

end Reading

/-! ## 3. Composite shapes -/

/-- Of what kind the keys of a mapping have to be. -/
inductive KeyShape where
  | text
  /-- Text or an integer. -/
  | delay
deriving DecidableEq, Repr, Inhabited

/-- Of what kind a value has to be. -/
inductive Shape where
  | any
  | text (nonempty : Bool)
  | integer (limit : Limit)
  | number (limit : Limit)
  | boolean
  | oneOf (options : List String)
  | nullable (shape : Shape)
  | list (item : Shape)
  | mapping (keys : KeyShape) (value : Shape)
  /-- A mapping with known fields, some of them required. -/
  | model (name : String) (fields : List (String × Bool × Shape))
  /-- One of several shapes, each under a label. -/
  | union (members : List (String × Shape))
  /-- A shape whose mapping form has delays as its keys. -/
  | delays (shape : Shape)

instance : Inhabited Shape := ⟨.any⟩

/-- A key as part of a location. -/
def Key.locationPart : Key → String
  | .text s => s
  | .int n => toString n
  | .bool b => if b then "1" else "0"
  | k => k.literal

namespace KeyShape

/-- Complaints about a key. -/
def check (shape : KeyShape) (k : Key) : List Misfit :=
  match shape, k with
  | _, .text _ => []
  | .text, _ => [⟨[k.locationPart, "[key]"], .notText⟩]
  | .delay, k =>
    match Reading.integer k.toValue with
    | .ok _ => []
    | .error e => [⟨[k.locationPart, "[key]", "constrained-str"], .notText⟩,
        ⟨[k.locationPart, "[key]", "int"], e⟩]

end KeyShape

namespace Shape

/-- The text of a delay, read as the key of a mapping. -/
def delayText (k : Key) : String :=
  match k with
  | .text s => Reading.trim s
  | k =>
    match Reading.integer k.toValue with
    | .ok n => toString n
    | .error _ => k.display

/-- Whether a text consists of digits. -/
def isDelayText (s : String) : Bool := s ≠ "" && s.toList.all isAnyDigit

/-- The complaint about the first key that is no delay. -/
def delayMisfit (v : Value) : List Misfit :=
  match v.entries.find? fun (k, _) => !isDelayText (delayText k) with
  | some (k, _) => Misfit.here (.badDelay (delayText k))
  | none => []

/-- Complaints about the fields a model does not know. -/
def extras (known : List String) (es : Entries) : List Misfit :=
  es.flatMap fun (k, _) =>
    match k with
    | .text s => if known.contains s then [] else [⟨[s], .extra⟩]
    | k => [⟨[k.locationPart], .invalidKey⟩]

mutual

/-- Everything about a value that does not fit a shape. -/
def check : Shape → Value → List Misfit
  | any, _ => []
  | text nonempty, v =>
    match v with
    | .text s => if nonempty && (Reading.trim s).isEmpty then Misfit.here .tooShort else []
    | _ => Misfit.here .notText
  | integer limit, v =>
    match Reading.integer v with
    | .ok n => limit.check (.int n)
    | .error e => Misfit.here e
  | number limit, v =>
    match Reading.number v with
    | .ok n => limit.check n
    | .error e => Misfit.here e
  | boolean, v =>
    match Reading.boolean v with
    | .ok _ => []
    | .error e => Misfit.here e
  | oneOf options, v =>
    match v with
    | .text s => if options.contains s then [] else Misfit.here (.notOneOf options)
    | _ => Misfit.here (.notOneOf options)
  | nullable shape, v => if v.isNull then [] else check shape v
  | list item, v =>
    match v with
    | .list vs => vs.zipIdx.flatMap fun (w, i) => (check item w).map (Misfit.under (toString i))
    | _ => Misfit.here .notAList
  | mapping keys value, v =>
    match v with
    | .dict es => es.flatMap fun (k, w) =>
        keys.check k ++ (check value w).map (Misfit.under k.locationPart)
    | _ => Misfit.here .notAMapping
  | model name fields, v =>
    match v with
    | .dict es => checkFields fields es ++ extras (fieldNames fields) es
    | _ => Misfit.here (.notAModel name)
  | union members, v =>
    match checkMembers members v with
    | some ms => ms
    | none => []
  | delays shape, v =>
    match check shape v with
    | [] => delayMisfit v
    | ms => ms

/-- Complaints about the known fields of a model, missing ones included. -/
def checkFields : List (String × Bool × Shape) → Entries → List Misfit
  | [], _ => []
  | (name, required, shape) :: rest, es =>
    (match Entries.lookup name es with
      | some v => (check shape v).map (Misfit.under name)
      | none => if required then [⟨[name], .missing⟩] else []) ++ checkFields rest es

/-- The complaints of every member of a union; none when one of them fits. -/
def checkMembers : List (String × Shape) → Value → Option (List Misfit)
  | [], _ => some []
  | (label, shape) :: rest, v =>
    match check shape v with
    | [] => none
    | ms => (checkMembers rest v).map (ms.map (Misfit.under label) ++ ·)

def fieldNames : List (String × Bool × Shape) → List String
  | [] => []
  | (name, _, _) :: rest => name :: fieldNames rest

end

@[simp] theorem check_any (v : Value) : check .any v = [] := by simp [check]

/-- Null fits every shape that may be left out. -/
@[simp] theorem check_nullable_null (s : Shape) : check (.nullable s) .null = [] := by
  simp [check, Value.isNull]

end Shape

end Statechart
