/-
# UTF-8

Characters out of bytes. The first byte of a character says how many follow and within which range
the next one lies; every later one lies within 80 to BF.

* `Utf8.decode`: the text of bytes, or where and why they are no text;
* `decode_ascii`: bytes below 80 are characters by themselves;
* `unifyLines`: all line ends written alike.
-/
import Statechart.Text.Literal

namespace Statechart

namespace Utf8

/-- Why bytes are no text. -/
inductive Reason where
  | badStart | badContinuation | unfinished
deriving DecidableEq, Repr, Inhabited

def Reason.label : Reason → String
  | badStart => "invalid start byte"
  | badContinuation => "invalid continuation byte"
  | unfinished => "unexpected end of data"

/-- Bytes that are no text: the first of them, and the positions of the first and the last. -/
structure Malformed where
  reason : Reason
  byte : UInt8
  first : Nat
  last : Nat
deriving DecidableEq, Repr, Inhabited

def Malformed.message (e : Malformed) : String :=
  "'utf-8' codec can't decode byte" ++
    (if e.first = e.last then
        " 0x" ++ String.ofList (hexDigits 2 e.byte.toNat) ++ " in position " ++ toString e.first
      else "s in position " ++ toString e.first ++ "-" ++ toString e.last) ++
    ": " ++ e.reason.label

/-- A character that is not complete. -/
structure Partial where
  lead : UInt8
  /-- The bits of the bytes so far. -/
  bits : Nat
  /-- How many bytes there are so far, and how many are missing. -/
  seen : Nat
  owed : Nat
  /-- The range of the next byte. -/
  low : Nat
  high : Nat

/-- The character that begins with a byte of 80 or more. -/
def ofLead? (b : UInt8) : Option Partial :=
  let n := b.toNat
  if 0xC2 ≤ n ∧ n ≤ 0xDF then some ⟨b, n - 0xC0, 1, 1, 0x80, 0xBF⟩
  else if 0xE0 ≤ n ∧ n ≤ 0xEF then
    some ⟨b, n - 0xE0, 1, 2, if n = 0xE0 then 0xA0 else 0x80, if n = 0xED then 0x9F else 0xBF⟩
  else if 0xF0 ≤ n ∧ n ≤ 0xF4 then
    some ⟨b, n - 0xF0, 1, 3, if n = 0xF0 then 0x90 else 0x80, if n = 0xF4 then 0x8F else 0xBF⟩
  else none

/-- The characters of bytes from a position on, after an incomplete one. -/
def decodeFrom (position : Nat) : Option Partial → List UInt8 → Except Malformed (List Char)
  | none, [] => .ok []
  | some p, [] => .error ⟨.unfinished, p.lead, position - p.seen, position - 1⟩
  | none, b :: bs =>
    if b < 0x80 then (Char.ofNat b.toNat :: ·) <$> decodeFrom (position + 1) none bs
    else match ofLead? b with
      | some p => decodeFrom (position + 1) (some p) bs
      | none => .error ⟨.badStart, b, position, position⟩
  | some p, b :: bs =>
    let n := b.toNat
    if p.low ≤ n ∧ n ≤ p.high then
      let bits := p.bits * 64 + (n - 0x80)
      if p.owed = 1 then (Char.ofNat bits :: ·) <$> decodeFrom (position + 1) none bs
      else decodeFrom (position + 1) (some ⟨p.lead, bits, p.seen + 1, p.owed - 1, 0x80, 0xBF⟩) bs
    else .error ⟨.badContinuation, p.lead, position - p.seen, position - 1⟩

/-- The text of bytes. -/
def decode (bytes : List UInt8) : Except Malformed String := String.ofList <$> decodeFrom 0 none bytes

/-- Bytes below 80 are characters by themselves. -/
theorem decode_ascii (bytes : List UInt8) (h : ∀ b ∈ bytes, b < 0x80) :
    decode bytes = .ok (String.ofList (bytes.map fun b => Char.ofNat b.toNat)) := by
  suffices ∀ position, decodeFrom position none bytes = .ok (bytes.map fun b => Char.ofNat b.toNat) by
    simp [decode, this, Functor.map, Except.map]
  induction bytes with
  | nil => intro position; rfl
  | cons b bs ih =>
    intro position
    have hb : b < 0x80 := h b (by simp)
    simp only [decodeFrom, hb, if_true, List.map_cons, ih (fun c hc => h c (by simp [hc]))]
    rfl

end Utf8

/-- Characters with every line end written as a single line feed. -/
def unifyLines : List Char → List Char
  | '\r' :: '\n' :: cs => '\n' :: unifyLines cs
  | '\r' :: cs => '\n' :: unifyLines cs
  | c :: cs => c :: unifyLines cs
  | [] => []

end Statechart
