/-
# Filters and helpers of templates

A filter turns a value into another, with an optional argument; a helper is a function of one value
that may stand at the head of an expression. Filters that make text leave null alone.

* `stringify`: the text of a value inside a rendered template;
* `defaultFilters`, `helpers`.
-/
import Statechart.Template.Scan
import Statechart.Calendar.Reader
import Statechart.Calendar.Format
import Statechart.Json.Writer
import Statechart.Value.Compare

namespace Statechart

/-- A filter: a value and the argument, if one was given. -/
abbrev FilterFn := Value → Option String → Except Fault Value

namespace Template

/-! ## 1. The text of a value -/

/-- The text of a value inside a rendered template: null is empty, whole floats have no point, and
mappings and lists are JSON. -/
def stringify (v : Value) : Except Fault String :=
  if v.writable then
    .ok <| match v with
      | .null => ""
      | .bool b => if b then "true" else "false"
      | .float x =>
        match Binary.ofFloat? x with
        | some b => if b.isWhole then toString b.truncate else floatText x
        | none => floatText x
      | .list _ | .dict _ => Json.compact v
      | v => v.display
  else .error (.data .textTooLong)

/-- A text filter that leaves null alone. -/
def onText (f : String → String) (v : Value) : Except Fault Value :=
  if v.isNull then .ok .null else (fun s => .text (f s)) <$> stringify v

/-- Null and the empty text count as blank. -/
def isBlankValue (v : Value) : Bool := v.isNull || v.same (.text "")

/-! ## 2. Amounts -/

/-- The signs of currencies. -/
def currencySigns : List (String × String) :=
  [("USD", "$"), ("MXN", "$"), ("CAD", "$"), ("EUR", "€"), ("GBP", "£"), ("JPY", "¥")]

/-- An amount with its currency, two places and grouped thousands. -/
def currencyText (amount : Float) (code : String) : String :=
  let magnitude := Fixed.groupedFloat amount.abs 2
  let sign := if amount < 0 then "-" else ""
  match currencySigns.lookup code with
  | some symbol => sign ++ symbol ++ magnitude
  | none => sign ++ code ++ " " ++ magnitude

/-- The currency filter; a value too large for a float is no failed evaluation. -/
def currency (v : Value) (arg : Option String) : Except Fault Value :=
  if isBlankValue v then .ok (.text "")
  else match v.asFloat with
    | .ok amount =>
      let code := match arg with
        | some s => if s.isEmpty then "USD" else s
        | none => "USD"
      .ok (.text (currencyText amount (toUpperCase code)))
    | .error e =>
      match e.faultClass with
      | .type | .value => .error (complaint v (.notAnAmount v))
      | _ => .error (.data e)

/-! ## 3. Dates -/

/-- Seconds beyond which a count does not fit, and the range in which a year fits. -/
def secondsLimit : Int := Nat.pow 2 63
def firstSecond : Int := -67768040609740800
def lastSecond : Int := 67768036191676799

/-- The moment so many seconds and microseconds after 1970 began. -/
def momentAt (seconds : Int) (microseconds : Int) : Except Fault Moment :=
  if seconds < -secondsLimit ∨ secondsLimit ≤ seconds then
    .error (.data (.host .overflow "timestamp out of range for platform time_t"))
  else if seconds < firstSecond ∨ lastSecond < seconds then
    .error (.data (.host .system "[Errno 75] Value too large for defined data type"))
  else
    let m := Moment.ofMicroseconds (seconds * 1000000 + microseconds)
    if 1 ≤ m.date.year ∧ m.date.year ≤ 9999 then .ok m
    else .error (.data (.calendar ("year " ++ toString m.date.year ++ " is out of range")))

/-- Whole seconds and rounded microseconds of a float of seconds. -/
def momentOfFloat (x : Float) : Except Fault Moment :=
  match Binary.ofFloat? x with
  | none =>
    if x != x then .error (.data (.calendar "Invalid value NaN (not a number)"))
    else .error (.data (.host .overflow "timestamp out of range for platform time_t"))
  | some b =>
    let whole := b.truncate
    let fraction := x - (Binary.ofInt? whole).getD 0
    let us := (Binary.ofFloat? (fraction * 1000000)).map Binary.nearest
    momentAt whole (us.getD 0)

/-- Numbers beyond this count milliseconds, smaller ones seconds. -/
def millisecondsFrom : Int := 100000000000

/-- The moment a number stands for. -/
def momentOfNumber (n : Number) : Except Fault Moment := do
  let magnitude := if n.isNegative then n.neg else n
  let n ← if magnitude.gt (.int millisecondsFrom) then liftData (liftArith n.thousandth) else .ok n
  match n with
  | .int s => momentAt s 0
  | .float x => momentOfFloat x

/-- The date filter. -/
def date (v : Value) (arg : Option String) : Except Fault Value :=
  if isBlankValue v then .ok (.text "")
  else do
    let layout := match arg with
      | some s => if s.isEmpty then "%Y-%m-%d" else s
      | none => "%Y-%m-%d"
    let moment ← match v with
      | .int n => momentOfNumber (.int n)
      | .float x => momentOfNumber (.float x)
      | .text s =>
        match Moment.read? (strip s) with
        | some m => .ok m
        | none => .error (.evaluation (.unreadableDate v))
      | v => .error (.evaluation (.noDate v.kind))
    return .text (moment.format layout)

/-! ## 4. The tables -/

/-- The filters every renderer has. -/
def defaultFilters : List (String × FilterFn) :=
  [("uppercase", fun v _ => onText toUpperCase v),
   ("lowercase", fun v _ => onText toLowerCase v),
   ("trim", fun v _ => onText strip v),
   ("currency", currency),
   ("date", date),
   ("json", fun v _ =>
      if v.writable then .ok (.text (Json.compact v)) else .error (.data .textTooLong)),
   ("default", fun v arg => .ok (if isBlankValue v then .text (arg.getD "") else v))]

/-- Whether a value is null or holds nothing. -/
def isEmptyValue (v : Value) : Bool :=
  match v with
  | .list vs => vs.isEmpty
  | .dict es => es.isEmpty
  | v => isBlankValue v

/-- The extent of text, lists and mappings; zero for other values. -/
def extent : Value → Nat
  | .text s => s.length
  | .list vs => vs.length
  | .dict es => es.length
  | _ => 0

/-- The helpers. -/
def helpers : List (String × (Value → Value)) :=
  [("isEmpty", fun v => .bool (isEmptyValue v)),
   ("hasValue", fun v => .bool !(isEmptyValue v)),
   ("length", fun v => .int (extent v))]

end Template

end Statechart
