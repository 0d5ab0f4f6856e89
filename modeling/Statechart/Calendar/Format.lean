/-
# Writing moments

A format is text with directives: a percent sign, optional flags and width, and a letter. Names are
English, years are written without leading zeros, and a directive that is unknown is kept.

* `Moment.format`: a moment in a format.
-/
import Statechart.Calendar.Date

namespace Statechart

namespace Moment

/-! ## 1. Pieces -/

def dayNames : List String :=
  ["Monday", "Tuesday", "Wednesday", "Thursday", "Friday", "Saturday", "Sunday"]

def monthNames : List String :=
  ["January", "February", "March", "April", "May", "June", "July", "August", "September",
   "October", "November", "December"]

def dayName (m : Moment) : String := dayNames.getD (m.date.weekday - 1) ""
def monthName (m : Moment) : String := monthNames.getD (m.date.month - 1) ""

/-- The first three letters of a name. -/
def short (s : String) : String := String.ofList (s.toList.take 3)

def hour12 (m : Moment) : Nat := (m.hour + 11) % 12 + 1

/-- A number with at least so many digits. -/
def digits (width : Nat) (n : Nat) : String :=
  let s := toString n
  String.ofList (List.replicate (width - s.length) '0') ++ s

/-- A distance from UTC: hours, minutes and, when there are any, seconds and microseconds. -/
def offsetText (separator : String) (us : Int) : String :=
  let n := us.natAbs
  let s := n / 1000000
  let base := (if us < 0 then "-" else "+") ++ digits 2 (s / 3600) ++ separator ++
    digits 2 (s / 60 % 60)
  let seconds := separator ++ digits 2 (s % 60)
  if n % 1000000 ≠ 0 then base ++ seconds ++ "." ++ digits 6 (n % 1000000)
  else if s % 60 ≠ 0 then base ++ seconds
  else base

/-- The name of the zone; none when the distance from UTC is unknown. -/
def zoneName (m : Moment) : String :=
  match m.offset with
  | none => ""
  | some 0 => "UTC"
  | some us => "UTC" ++ offsetText ":" us

/-! ## 2. Directives -/

/-- How the flags of a directive change it. -/
structure Flags where
  /-- The character numbers are filled up with, none for no filling. -/
  fill : Option (Option Char) := none
  upper : Bool := false
  width : Nat := 0

/-- What a directive stands for. -/
inductive Piece where
  | number (n : Int) (width : Nat) (fill : Char)
  | text (s : String)
  /-- Several directives in a row. -/
  | parts (ps : List Piece)

/-- Fill a text up on the left. -/
def filled (width : Nat) (fill : Char) (s : String) : String :=
  String.ofList (List.replicate (width - s.length) fill) ++ s

/-- A number, filled up after its sign. -/
def numberText (n : Int) (width : Nat) (fill : Char) : String :=
  if n < 0 then
    if fill = '0' then "-" ++ filled (width - 1) fill (toString n.natAbs)
    else filled width fill (toString n)
  else filled width fill (toString n)

mutual

/-- A piece without flags. -/
def Piece.plain : Piece → String
  | .number n width fill => numberText n width fill
  | .text s => s
  | .parts ps => plainAll ps

def plainAll : List Piece → String
  | [] => ""
  | p :: ps => p.plain ++ plainAll ps

end

/-- A piece under flags. -/
def Piece.write (f : Flags) : Piece → String
  | .number n width fill =>
    match f.fill with
    | some none => toString n
    | some (some c) => numberText n (max width f.width) c
    | none => numberText n (max width f.width) fill
  | p =>
    let s := p.plain
    let s := if f.upper then s.toUpper else s
    filled f.width (if f.fill = some (some '0') then '0' else ' ') s

def two (n : Nat) : Piece := .number n 2 '0'
def spaced (n : Nat) : Piece := .number n 2 ' '
def year (m : Moment) : Piece := .number m.date.year 1 '0'
def shortYear (m : Moment) : Piece := .number (m.date.year % 100) 2 '0'

/-- Hours, minutes and seconds. -/
def clockPieces (m : Moment) : List Piece :=
  [two m.hour, .text ":", two m.minute, .text ":", two m.second]

/-- Month, day and two digits of the year. -/
def slashedPieces (m : Moment) : List Piece :=
  [two m.date.month, .text "/", two m.date.day, .text "/", shortYear m]

/-- What the letter of a directive stands for. -/
def piece? (m : Moment) (letter : Char) : Option Piece :=
  match letter with
  | 'a' => some (.text (short m.dayName))
  | 'A' => some (.text m.dayName)
  | 'b' | 'h' => some (.text (short m.monthName))
  | 'B' => some (.text m.monthName)
  | 'c' =>
    some (.parts ([.text (short m.dayName ++ " " ++ short m.monthName ++ " "), spaced m.date.day,
      .text " "] ++ m.clockPieces ++ [.text " ", m.year]))
  | 'C' => some (.number (m.date.year / 100) 1 '0')
  | 'd' => some (two m.date.day)
  | 'D' | 'x' => some (.parts m.slashedPieces)
  | 'e' => some (spaced m.date.day)
  | 'F' => some (.parts [m.year, .text "-", two m.date.month, .text "-", two m.date.day])
  | 'g' => some (.number (m.date.isoWeek.1 % 100) 2 '0')
  | 'G' => some (.number m.date.isoWeek.1 1 '0')
  | 'H' => some (two m.hour)
  | 'I' => some (two m.hour12)
  | 'j' => some (.number m.date.dayOfYear 3 '0')
  | 'k' => some (spaced m.hour)
  | 'l' => some (spaced m.hour12)
  | 'm' => some (two m.date.month)
  | 'M' => some (two m.minute)
  | 'n' => some (.text "\n")
  | 'p' => some (.text (if m.hour < 12 then "AM" else "PM"))
  | 'P' => some (.text (if m.hour < 12 then "am" else "pm"))
  | 'r' =>
    some (.parts [two m.hour12, .text ":", two m.minute, .text ":", two m.second,
      .text (if m.hour < 12 then " AM" else " PM")])
  | 'R' => some (.parts [two m.hour, .text ":", two m.minute])
  | 's' => some (.number m.clockSeconds 1 '0')
  | 'S' => some (two m.second)
  | 't' => some (.text "\t")
  | 'T' | 'X' => some (.parts m.clockPieces)
  | 'u' => some (.number m.date.weekday 1 '0')
  | 'U' => some (.number (m.date.weekFrom 7) 2 '0')
  | 'V' => some (.number m.date.isoWeek.2 2 '0')
  | 'w' => some (.number (m.date.weekday % 7 : Nat) 1 '0')
  | 'W' => some (.number (m.date.weekFrom 1) 2 '0')
  | 'y' => some m.shortYear
  | 'Y' => some m.year
  | 'z' | 'Z' => some (.text "")
  | '%' => some (.text "%")
  | _ => none

/-- The flags in front of a directive's letter, and the rest. -/
def readFlags (f : Flags) : List Char → Flags × List Char
  | '_' :: rest => readFlags { f with fill := some (some ' ') } rest
  | '-' :: rest => readFlags { f with fill := some none } rest
  | '0' :: rest => readFlags { f with fill := some (some '0') } rest
  | '^' :: rest => readFlags { f with upper := true } rest
  | '#' :: rest => readFlags { f with upper := true } rest
  | cs => (f, cs)

/-- A directive after its percent sign: its text and the rest, none when it is unknown. -/
def directive? (m : Moment) (cs : List Char) : Option (String × List Char) :=
  match cs with
  | 'f' :: rest => some (digits 6 m.microsecond, rest)
  | 'z' :: rest => some ((m.offset.map (offsetText "")).getD "", rest)
  | 'Z' :: rest => some (m.zoneName, rest)
  | cs =>
    let (flags, rest) := readFlags {} cs
    let width := rest.takeWhile Char.isDigit
    let flags := { flags with width := width.foldl (fun v c => 10 * v + (c.toNat - 48)) 0 }
    let rest := rest.drop width.length
    let rest := if rest.head? = some 'E' ∨ rest.head? = some 'O' then rest.drop 1 else rest
    match rest with
    | [] => none
    | letter :: rest => (m.piece? letter).map fun p => (p.write flags, rest)

/-- The rest of a format; every step reads at least one character. -/
def formatFrom (m : Moment) : Nat → List Char → String
  | 0, _ => ""
  | _, [] => ""
  | fuel + 1, '%' :: cs =>
    match m.directive? cs with
    | some (s, rest) => s ++ formatFrom m fuel rest
    | none => "%" ++ formatFrom m fuel cs
  | fuel + 1, c :: cs => c.toString ++ formatFrom m fuel cs

/-- A moment in a format, which ends at its first null character. -/
def format (m : Moment) (layout : String) : String :=
  m.formatFrom (layout.length + 1) (layout.toList.takeWhile (· ≠ '\x00'))

end Moment

end Statechart
