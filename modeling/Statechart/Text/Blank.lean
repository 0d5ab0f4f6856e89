/-
# Blank characters

White space in the sense of Unicode: the separators, the line and paragraph breaks, and the
control characters that move the cursor. Stripping a text drops them at both ends.

* `isBlank_of_isWhitespace`: the blanks of ASCII are among them;
* `strip`, `stripLeft`, `stripRight`;
* `strip_of_ends`, `strip_between`, `exists_of_strip`: what stripping leaves alone, and what it drops.
-/
import Statechart.Text.Ranges

namespace Statechart

/-- The characters that count as white space. -/
def blankRanges : CharRanges := [
  (0x9, 0xD), (0x1C, 0x20), (0x85, 0x85), (0xA0, 0xA0), (0x1680, 0x1680), (0x2000, 0x200A),
   (0x2028, 0x2029), (0x202F, 0x202F), (0x205F, 0x205F), (0x3000, 0x3000)]

/-- Whether a character is white space. -/
def isBlank (c : Char) : Bool := blankRanges.contains c

/-- What ASCII calls white space is blank. -/
theorem isBlank_of_isWhitespace {c : Char} (h : c.isWhitespace) : isBlank c := by
  simp only [Char.isWhitespace, Bool.or_eq_true, decide_eq_true_eq] at h
  rcases h with ((rfl | rfl) | rfl) | rfl <;> decide

/-- Drop the blanks in front. -/
def stripLeft (s : List Char) : List Char := s.dropWhile isBlank

/-- Drop the blanks at the end. -/
def stripRight (s : List Char) : List Char := (s.reverse.dropWhile isBlank).reverse

/-- Drop the blanks at both ends. -/
def strip (s : String) : String := String.ofList (stripRight (stripLeft s.toList))

/-- A text with no blank at either end is left alone. -/
theorem strip_of_ends {s : String} (hfirst : ∀ c ∈ s.toList.head?, isBlank c = false)
    (hlast : ∀ c ∈ s.toList.getLast?, isBlank c = false) : strip s = s := by
  have hkept {cs : List Char} (h : ∀ c ∈ cs.head?, isBlank c = false) : cs.dropWhile isBlank = cs := by
    cases cs with
    | nil => rfl
    | cons c cs => rw [List.dropWhile_cons_of_neg (by simp [h c (by simp)])]
  rw [strip, stripLeft, hkept hfirst, stripRight, hkept (by simpa using hlast), List.reverse_reverse,
    String.ofList_toList]

/-- A text without blanks is left alone. -/
theorem strip_eq_self {s : String} (h : ∀ c ∈ s.toList, isBlank c = false) : strip s = s :=
  strip_of_ends (fun c hc => h c (List.mem_of_mem_head? hc)) fun c hc => h c (List.mem_of_mem_getLast? hc)

/-- Blanks around a text are not seen once it is stripped. -/
theorem strip_between {as bs : List Char} (cs : List Char) (has : ∀ c ∈ as, isBlank c = true)
    (hbs : ∀ c ∈ bs, isBlank c = true) :
    strip (String.ofList (as ++ (cs ++ bs))) = strip (String.ofList cs) := by
  have hright (ds : List Char) : stripRight (ds ++ bs) = stripRight ds := by
    rw [stripRight, stripRight, List.reverse_append, List.dropWhile_append_of_pos]
    simpa using hbs
  have hleft : stripLeft (as ++ (cs ++ bs)) = if stripLeft cs = [] then [] else stripLeft cs ++ bs := by
    rw [stripLeft, List.dropWhile_append_of_pos (by simpa using has), List.dropWhile_append, stripLeft]
    simp only [List.isEmpty_iff]
    split
    · rw [← List.append_nil bs, List.dropWhile_append_of_pos hbs, List.dropWhile_nil]
    · rfl
  simp only [strip, String.toList_ofList, hleft]
  split
  next h => rw [h]
  next h => rw [hright]

/-- What is dropped at the ends is blank. -/
theorem exists_of_strip (s : String) : ∃ as bs, s.toList = as ++ ((strip s).toList ++ bs) ∧
    (∀ c ∈ as, isBlank c = true) ∧ ∀ c ∈ bs, isBlank c = true := by
  have hblank (cs : List Char) : ∀ c ∈ cs.takeWhile isBlank, isBlank c = true :=
    List.all_eq_true.mp List.all_takeWhile
  refine ⟨s.toList.takeWhile isBlank, ((stripLeft s.toList).reverse.takeWhile isBlank).reverse, ?_, hblank _,
    fun c hc => hblank _ c (List.mem_reverse.mp hc)⟩
  rw [strip, String.toList_ofList, stripRight, ← List.reverse_append, List.takeWhile_append_dropWhile,
    List.reverse_reverse, stripLeft, List.takeWhile_append_dropWhile]

end Statechart
