/-
# Failures of operations on data

What goes wrong when an operation meets data it is not made for: text that is no number, a value of
the wrong kind, a result that does not fit, a place that does not exist. Hosts sort failures by
`FaultClass`; code supplied by a host may fail with a message of its own.
-/
import Statechart.Path.Scope
import Statechart.Json.Reader

namespace Statechart

/-- The classes into which hosts sort failures. -/
inductive FaultClass where
  | value | type | overflow | key | index | member | timeout | runtime | connection | json | system
  | address | encoding
deriving DecidableEq, Repr, Inhabited

/-- The name of a class, as messages spell it. -/
def FaultClass.label : FaultClass → String
  | value => "ValueError"
  | type => "TypeError"
  | overflow => "OverflowError"
  | key => "KeyError"
  | index => "IndexError"
  | member => "AttributeError"
  | timeout => "TimeoutError"
  | runtime => "RuntimeError"
  | connection => "ConnectionError"
  | json => "JSONDecodeError"
  | system => "OSError"
  | address => "InvalidURL"
  | encoding => "UnicodeEncodeError"

/-- A failure of an operation on data. -/
inductive DataFault where
  /-- The text of a path is malformed. -/
  | path (e : PathError)
  | arith (e : ArithFault)
  | notAnInteger (s : String)
  | integerTooLong (digits : Nat)
  /-- An integer too long to be written in decimal. -/
  | textTooLong
  | notAFloat (s : String)
  /-- No float or integer can be made of a value of this kind. -/
  | noFloat (k : Kind)
  | noInteger (k : Kind)
  | unhashable (k : Kind)
  /-- Two kinds that have no order. -/
  | unordered (op : String) (a b : Kind)
  /-- Two kinds that an operator does not take. -/
  | operands (op : String) (a b : Kind)
  | notIterable (k : Kind)
  | noAttribute (k : Kind) (name : String)
  /-- A value of this kind has no entries to look into. -/
  | notSubscriptable (k : Kind)
  /-- A mapping has no entry of this name. -/
  | missingKey (name : String)
  /-- A position outside a list. -/
  | outOfRange
  /-- A length was asked of a value that has none. -/
  | unsized (k : Kind)
  | json (e : Json.ReadError)
  /-- A moment outside the calendar. -/
  | calendar (message : String)
  /-- An address is malformed. -/
  | badAddress (message : String)
  /-- An address without a scheme. -/
  | noScheme (address : String)
  /-- Characters outside ASCII where only ASCII may stand, from one position to another. -/
  | notAscii (c : Char) (first last : Nat)
  /-- A number that JSON has no notation for. -/
  | notJson
  /-- No mapping can be made of an element of a list: it is no pair. -/
  | pairLength (index length : Nat)
  | pairKind (index : Nat)
  /-- A range of integers that holds none. -/
  | emptyRange (first last : Int)
  /-- Code of the host failed. -/
  | host (c : FaultClass) (message : String)
deriving Repr, Inhabited

namespace DataFault

/-- The class of a failure. -/
def faultClass : DataFault → FaultClass
  | path _ => .value
  | arith .intTooLarge | arith .quotientTooLarge | arith .powerTooLarge | arith .infinityToInt =>
    .overflow
  | arith .domain | arith .nanToInt => .value
  | notAnInteger _ | integerTooLong _ | textTooLong | notAFloat _ => .value
  | noFloat _ | noInteger _ | unhashable _ | unordered .. | operands .. | notIterable _
  | notSubscriptable _ | unsized _ => .type
  | noAttribute .. => .member
  | missingKey _ => .key
  | outOfRange => .index
  | json (.malformed _) => .json
  | json _ => .value
  | calendar _ | noScheme _ | notJson | pairLength .. | emptyRange .. => .value
  | pairKind _ => .type
  | badAddress _ => .address
  | notAscii .. => .encoding
  | host c _ => c

/-- A character outside ASCII as an escape. -/
def escapedChar (c : Char) : String :=
  let n := c.toNat
  if n < 0x100 then "\\x" ++ String.ofList (hexDigits 2 n)
  else if n < 0x10000 then "\\u" ++ String.ofList (hexDigits 4 n)
  else "\\U" ++ String.ofList (hexDigits 8 n)

/-- The words for a failure. -/
def message : DataFault → String
  | path e => e.message
  | arith e => e.message
  | notAnInteger s => "invalid literal for int() with base 10: " ++ quoted s
  | integerTooLong n => (Json.ReadError.integerTooLong n).message
  | textTooLong =>
    "Exceeds the limit (" ++ toString Numeral.digitLimit ++
      " digits) for integer string conversion; use sys.set_int_max_str_digits() to increase the limit"
  | notAFloat s => "could not convert string to float: " ++ quoted s
  | noFloat k => "float() argument must be a string or a real number, not '" ++ k.label ++ "'"
  | noInteger k =>
    "int() argument must be a string, a bytes-like object or a real number, not '" ++ k.label ++ "'"
  | unhashable k => "unhashable type: '" ++ k.label ++ "'"
  | unordered op a b =>
    "'" ++ op ++ "' not supported between instances of '" ++ a.label ++ "' and '" ++ b.label ++ "'"
  | operands op a b =>
    "unsupported operand type(s) for " ++ op ++ ": '" ++ a.label ++ "' and '" ++ b.label ++ "'"
  | notIterable k => "'" ++ k.label ++ "' object is not iterable"
  | noAttribute k name => "'" ++ k.label ++ "' object has no attribute '" ++ name ++ "'"
  | notSubscriptable k => "'" ++ k.label ++ "' object is not subscriptable"
  | missingKey name => quoted name
  | outOfRange => "list index out of range"
  | unsized k => "object of type '" ++ k.label ++ "' has no len()"
  | json e => e.message
  | calendar m => m
  | badAddress m => m
  | noScheme address => "unknown url type: " ++ quoted address
  | notAscii c first last =>
    "'ascii' codec can't encode character" ++
      (if first = last then " '" ++ escapedChar c ++ "' in position " ++ toString first
        else "s in position " ++ toString first ++ "-" ++ toString last) ++
      ": ordinal not in range(128)"
  | notJson => "Out of range float values are not JSON compliant"
  | pairLength i n =>
    "dictionary update sequence element #" ++ toString i ++ " has length " ++ toString n ++
      "; 2 is required"
  | pairKind i => "cannot convert dictionary update sequence element #" ++ toString i ++ " to a sequence"
  | emptyRange first last =>
    "empty range for randrange() (" ++ toString first ++ ", " ++ toString (last + 1) ++ ", " ++
      toString (last + 1 - first) ++ ")"
  | host .key m => quoted m
  | host _ m => m

end DataFault

/-- Lift a failure of arithmetic. -/
def liftArith (r : Except ArithFault α) : Except DataFault α := r.mapError .arith

/-- Lift a malformed path. -/
def liftPath (r : Except PathError α) : Except DataFault α := r.mapError .path

/-! ## Numbers out of values -/

namespace Value

/-- The number a value is, truth values counting as 0 and 1. -/
def number? : Value → Option Number
  | bool b => some (.int (if b then 1 else 0))
  | int n => some (.int n)
  | float x => some (.float x)
  | _ => none

/-- The integer a text denotes. -/
def parseInt (s : String) : Except DataFault Int :=
  match Numeral.int s with
  | .ok n => .ok n
  | .error .malformed => .error (.notAnInteger s)
  | .error (.tooLong d) => .error (.integerTooLong d)

/-- The float a text denotes. -/
def parseFloat (s : String) : Except DataFault Float :=
  match Numeral.float? s with
  | some x => .ok x
  | none => .error (.notAFloat s)

/-- A value as a double: numbers are converted, text is read. -/
def asFloat (v : Value) : Except DataFault Float :=
  match v with
  | text s => parseFloat s
  | _ =>
    match v.number? with
    | some n => liftArith n.toFloat
    | none => .error (.noFloat v.kind)

/-- A value as an integer: numbers are truncated, text is read. -/
def asInt (v : Value) : Except DataFault Int :=
  match v with
  | text s => parseInt s
  | _ =>
    match v.number? with
    | some n => liftArith n.toInt
    | none => .error (.noInteger v.kind)

/-- A number as a value. -/
def ofNumber : Number → Value
  | .int n => .int n
  | .float x => .float x

/-- Whether every integer inside is short enough to be written in decimal. -/
def writable (v : Value) : Bool := go v
where
  bound : Nat := Nat.pow 10 Numeral.digitLimit
  go : Value → Bool
    | int n => n.natAbs < bound
    | list vs => goItems vs
    | dict es => goEntries es
    | _ => true
  goItems : List Value → Bool
    | [] => true
    | v :: vs => go v && goItems vs
  goKey : Key → Bool
    | .int n => n.natAbs < bound
    | _ => true
  goEntries : List (Key × Value) → Bool
    | [] => true
    | (k, v) :: es => goKey k && go v && goEntries es

/-- A value as text, unless an integer inside is too long. -/
def shown (v : Value) : Except DataFault String :=
  if v.writable then .ok v.display else .error .textTooLong

end Value

end Statechart
