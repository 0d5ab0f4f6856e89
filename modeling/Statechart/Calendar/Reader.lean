/-
# Reading moments

Dates in the forms of ISO 8601: `2024-03-05`, `20240305`, week dates such as `2024-W10-2`, followed
by any one character and a time with optional fraction and distance from UTC.

* `Moment.read?`: the moment a text denotes.
-/
import Statechart.Calendar.Date

namespace Statechart

namespace Moment

/-- A number of exactly `n` digits in front, and the rest. -/
def digits? (n : Nat) (cs : List Char) : Option (Nat × List Char) :=
  let ds := cs.take n
  if ds.length = n ∧ ds.all Char.isDigit then
    some (ds.foldl (fun v c => 10 * v + (c.toNat - 48)) 0, cs.drop n)
  else none

/-! ## 1. Dates -/

/-- Where the date of a text ends. -/
def dateLength? (cs : List Char) : Option Nat :=
  let n := cs.length
  if n < 7 then none
  else if n = 7 then some 7
  else if cs[4]? = some '-' then
    if cs[5]? = some 'W' then
      if n > 8 ∧ cs[8]? = some '-' then
        if n = 9 then none
        else if n > 10 ∧ (cs[10]?.map Char.isDigit) = some true then some 8 else some 10
      else some 8
    else some 10
  else if cs[4]? = some 'W' then
    let stop := 7 + ((cs.drop 7).takeWhile Char.isDigit).length
    if stop < 9 then some stop else if stop % 2 = 0 then some 7 else some 8
  else some 8

/-- A date in one of the forms of ISO 8601. -/
def date? (cs : List Char) : Option Date := do
  let (year, rest) ← digits? 4 cs
  let dashed := rest.head? = some '-'
  let rest := if dashed then rest.drop 1 else rest
  if rest.head? = some 'W' then
    let (week, rest) ← digits? 2 (rest.drop 1)
    if rest.isEmpty then Date.ofWeek? year week 1
    else
      if dashed ∧ rest.head? ≠ some '-' then none
      let (day, _) ← digits? 1 (if dashed then rest.drop 1 else rest)
      Date.ofWeek? year week day
  else
    let (month, rest) ← digits? 2 rest
    if dashed ∧ rest.head? ≠ some '-' then none
    let (day, rest) ← digits? 2 (if dashed then rest.drop 1 else rest)
    let date : Date := ⟨year, month, day⟩
    if rest.isEmpty ∧ date.isValid then some date else none

/-! ## 2. Times -/

/-- Hours, minutes, seconds and microseconds, and whether one character was left over. -/
structure Clock where
  parts : List Nat
  microsecond : Nat
  leftover : Bool

/-- A fraction of a second; digits after the sixth are dropped. -/
def fraction? (parts : List Nat) (cs : List Char) : Option Clock := do
  let n := min cs.length 6
  let (v, rest) ← digits? n cs
  let rest := rest.dropWhile Char.isDigit
  return ⟨parts, v * Nat.pow 10 (6 - n), !rest.isEmpty⟩

/-- A time of day from its `i`-th part on; `colons` says whether parts are set off by colons. -/
def clock? (colons : Bool) (done : List Nat) : Nat → List Char → Option Clock
  | 0, cs => fraction? done cs
  | left + 1, cs => do
    let (v, rest) ← digits? 2 cs
    let done := done ++ [v]
    match rest with
    | [] => return ⟨done, 0, false⟩
    | [_] => return ⟨done, 0, true⟩
    | c :: after =>
      let colons := if done.length = 1 then c = ':' else colons
      if colons ∧ c = ':' then
        if left = 0 then fraction? done after else clock? colons done left after
      else if c = '.' ∨ c = ',' then fraction? done after
      else if !colons then if left = 0 then fraction? done rest else clock? colons done left rest
      else none

/-- A time with an optional distance from UTC in microseconds. -/
def time? (cs : List Char) : Option (Clock × Option Int) := do
  let isMark := fun c => c = '+' ∨ c = '-' ∨ c = 'Z'
  let first := cs.take 1
  let body := first ++ (cs.drop 1).takeWhile (!isMark ·)
  let (body, zone) := if first.any isMark then ([], cs) else (body, cs.drop body.length)
  let clock ← clock? true [] 3 body
  match zone with
  | [] => if clock.leftover then none else return (clock, none)
  | ['Z'] => return (clock, some 0)
  | 'Z' :: _ => none
  | sign :: zone =>
    let z ← clock? true [] 3 zone
    if z.leftover then none
    let seconds := z.parts.getD 0 0 * 3600 + z.parts.getD 1 0 * 60 + z.parts.getD 2 0
    let us : Int := seconds * 1000000 + z.microsecond
    if 86400000000 ≤ us then none
    return (clock, some (if sign = '-' then -us else us))

/-- The moment a text denotes. -/
def read? (s : String) : Option Moment := do
  let cs := s.toList
  let n ← dateLength? cs
  let date ← date? (cs.take n)
  if cs.length ≤ n + 1 then
    if cs.length = n then return { date } else none
  else
    let (clock, offset) ← time? (cs.drop (n + 1))
    let hour := clock.parts.getD 0 0
    let minute := clock.parts.getD 1 0
    let second := clock.parts.getD 2 0
    if hour < 24 ∧ minute < 60 ∧ second < 60 then
      return { date, hour, minute, second, microsecond := clock.microsecond, offset }
    else none

end Moment

end Statechart
