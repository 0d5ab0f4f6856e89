/-
# Shorthand is read back

A guard is written as the name of a check, a field and a literal with colons between them.  It is taken
apart at the first two colons, and the literal is then tried as one kind of value after the other.  Here
is what comes through that: whatever stands between the quotes of a literal, further colons, quotes, blanks
and text that looks like a number among it, is the text that is read; and what is written as an integer
or as one of the words is read as this value.

* `cutAt_colon`: a text is cut at the first colon;
* `Literal.Spells`: how a literal can be written; `Literal.Spells.parseLiteral_eq`: it is read back;
* `FieldCheck.ofLabel?_label`: so is the name of a check;
* `Guard.IsField`: the fields that are left as they are by the reading;
* **`Guard.resolve_shorthand`**: a guard is read back from its three parts.
-/
import Statechart.Proofs.Numerals
import Statechart.Proofs.Verdict

namespace Statechart

/-! ## 1. Cutting a text -/

theorem cutChars_append_mark {mark : Char} {before : List Char} (h : mark ∉ before) (after : List Char) :
    cutChars mark (before ++ mark :: after) = (before, some after) := by
  induction before with
  | nil => simp [cutChars]
  | cons c cs ih =>
    rw [List.mem_cons, not_or] at h
    simp [cutChars, Ne.symm h.1, ih h.2]

/-- **A text is cut at the first colon**; what comes after it may hold more of them. -/
theorem cutAt_colon {before : String} (h : ':' ∉ before.toList) (after : String) :
    cutAt ':' (before ++ ":" ++ after) = (before, some after) := by
  have hlist : (before ++ ":" ++ after).toList = before.toList ++ ':' :: after.toList := by simp
  simp [cutAt, hlist, cutChars_append_mark h]

/-! ## 2. Literals -/

namespace Literal

open Numeral

/-- How the value of a literal can be written. -/
inductive Spells : Value → String → Prop
  /-- Between quotes of either kind, whatever the text is. -/
  | quoted {mark : Char} (hmark : mark = '\'' ∨ mark = '"') (s : String) :
      Spells (.text s) (String.ofList (mark :: (s.toList ++ [mark])))
  /-- In decimal, with a sign or without one; zeros may come first. -/
  | integer {front ds : List Char} (hfront : front ∈ [[], ['+'], ['-']]) (hds : AreDigits ds)
      (hne : ds ≠ []) (hlength : ds.length ≤ digitLimit) :
      Spells (.int (if front = ['-'] then -(Nat.ofDigitChars 10 ds 0 : Int) else Nat.ofDigitChars 10 ds 0))
        (String.ofList (front ++ ds))
  | truth : Spells (.bool true) "true"
  | falsity : Spells (.bool false) "false"
  | null : Spells .null "null"

/-- An integer that can be written is spelled by its decimal. -/
theorem spells_toString {n : Int} (hn : n.natAbs < Value.writable.bound) : Spells (.int n) (toString n) := by
  have hfront : signOf (n < 0) ∈ [[], ['+'], ['-']] := by
    by_cases hneg : n < 0 <;> simp [signOf, hneg]
  have hspells := Spells.integer hfront (areDigits_toDigits n.natAbs) Nat.toDigits_ne_nil
    (length_toDigits_le hn)
  rw [← toList_toString, String.ofList_toList, Nat.ofDigitChars_ten_toDigits] at hspells
  have hvalue : (if signOf (n < 0) = ['-'] then -(n.natAbs : Int) else n.natAbs) = n := by
    by_cases hneg : n < 0
    · rw [signOf, if_pos (decide_eq_true hneg), if_pos rfl]
      omega
    · rw [signOf, if_neg (by simpa using hneg)]
      omega
  rwa [hvalue] at hspells

theorem parseLiteral_quoted {mark : Char} (hmark : mark = '\'' ∨ mark = '"') (s : String) :
    parseLiteral (String.ofList (mark :: (s.toList ++ [mark]))) = .text s := by
  have hblank : isBlank mark = false := by
    rcases hmark with rfl | rfl <;> decide
  have hstrip : strip (String.ofList (mark :: (s.toList ++ [mark]))) =
      String.ofList (mark :: (s.toList ++ [mark])) := by
    refine strip_of_ends ?_ ?_ <;> rw [String.toList_ofList]
    · simpa using hblank
    · rw [← List.cons_append, List.getLast?_concat]
      simpa using hblank
  have hunquote : unquote? (String.ofList (mark :: (s.toList ++ [mark]))) = some s := by
    simp [unquote?, hmark]
  rw [parseLiteral, hstrip]
  simp only [hunquote]

theorem unquote?_eq_none {s : String} (hsingle : '\'' ∉ s.toList) (hdouble : '"' ∉ s.toList) :
    unquote? s = none := by
  unfold unquote?
  split
  · rename_i q rest hlist
    have hmem : q ∈ s.toList := by
      rw [hlist]
      exact List.mem_cons_self
    refine if_neg fun hquoted => ?_
    rcases hquoted.1 with rfl | rfl
    · exact hsingle hmem
    · exact hdouble hmem
  · rfl

/-- Digits and signs are no letters, quotes, points or blanks. -/
theorem ne_of_isDigit_or_sign {c : Char} (h : c.isDigit = true ∨ c ∈ ['+', '-']) :
    c.toLower = c ∧ c ∉ ['\'', '"', '.', 'e', 't', 'f', 'n'] := by
  rcases h with h | h
  · refine ⟨toLower_of_isDigit h, fun hmem => ?_⟩
    simp only [List.mem_cons, List.not_mem_nil, or_false] at hmem
    rcases hmem with rfl | rfl | rfl | rfl | rfl | rfl | rfl <;> exact absurd h (by decide)
  · simp only [List.mem_cons, List.not_mem_nil, or_false] at h
    rcases h with rfl | rfl <;> decide

/-- **An integer in decimal is taken for a number**: it is none of the words, is not quoted, and has
neither a point nor an exponent. -/
theorem parseLiteral_of_int {s : String} {n : Int}
    (hchars : ∀ c ∈ s.toList, c.isDigit = true ∨ c ∈ ['+', '-']) (hint : int s = .ok n) :
    parseLiteral s = .int n := by
  have hnumeric : ∀ c ∈ s.toList, IsNumeric c := fun c hc => (hchars c hc).elim .inl IsNumeric.of_sign
  have hstrip : strip s = s := strip_eq_self fun c hc => (hnumeric c hc).isBlank
  have hlower : toLowerCase s = s := by
    rw [toLowerCase_ascii s fun c hc => (hnumeric c hc).toNat_lt,
      List.map_congr_left fun c hc => (ne_of_isDigit_or_sign (hchars c hc)).1, List.map_id', String.ofList_toList]
  have hmissing {c : Char} (hc : c ∈ ['\'', '"', '.', 'e', 't', 'f', 'n']) : c ∉ s.toList := fun hmem =>
    (ne_of_isDigit_or_sign (hchars c hmem)).2 hc
  have hunquote : unquote? s = none := unquote?_eq_none (hmissing (by decide)) (hmissing (by decide))
  have hpoint : '.' ∉ s.toList := hmissing (by decide)
  have hexponent : 'e' ∉ s.toList := hmissing (by decide)
  have hnumber : numberLiteral? s = some (.int n) := by
    simp [numberLiteral?, hlower, hpoint, hexponent, int?, hint, Except.toOption]
  rw [parseLiteral, hstrip]
  simp only [hunquote, hlower, hnumber]
  split
  · exact absurd (by decide) (hmissing (c := 't') (by decide))
  · exact absurd (by decide) (hmissing (c := 'f') (by decide))
  · exact absurd (by decide) (hmissing (c := 'n') (by decide))
  · exact absurd (by decide) (hmissing (c := 'n') (by decide))
  · rfl

/-- **A literal is read back.** -/
theorem Spells.parseLiteral_eq {v : Value} {s : String} (h : Spells v s) : parseLiteral s = v := by
  cases h with
  | quoted hmark s => exact parseLiteral_quoted hmark s
  | @integer front ds hfront hds hne hlength =>
    obtain ⟨hsigns, hsign⟩ : (∀ c ∈ front, c ∈ ['+', '-']) ∧ sign (front ++ ds) = (decide (front = ['-']), ds) := by
      simp only [List.mem_cons, List.not_mem_nil, or_false] at hfront
      rcases hfront with rfl | rfl | rfl
      · obtain ⟨d, ds, rfl⟩ := List.exists_cons_of_ne_nil hne
        exact ⟨by simp, sign_append false ds (hds d (.head _))⟩
      · exact ⟨by simp, rfl⟩
      · exact ⟨by simp, rfl⟩
    have hint := int_of_areDigits (fun c hc => .of_sign (hsigns c hc)) hsign hds hne hlength
    rw [parseLiteral_of_int (fun c hc => ?_) hint]
    · simp
    · rw [String.toList_ofList] at hc
      exact (List.mem_append.mp hc).elim (fun hc => .inr (hsigns c hc)) fun hc => .inl (hds c hc)
  | truth => rfl
  | falsity => rfl
  | null => rfl

/-- What is written for a literal ends with a character that is no blank. -/
theorem Spells.exists_last {v : Value} {s : String} (h : Spells v s) :
    ∃ cs c, s.toList = cs ++ [c] ∧ isBlank c = false := by
  cases h with
  | @quoted mark hmark s =>
    refine ⟨mark :: s.toList, mark, by simp, ?_⟩
    rcases hmark with rfl | rfl <;> decide
  | @integer front ds _ hds hne _ =>
    obtain ⟨ds, d, rfl⟩ := List.eq_nil_or_concat' ds |>.resolve_left hne
    exact ⟨front ++ ds, d, by simp, isBlank_of_isDigit (hds d (by simp))⟩
  | truth => exact ⟨"tru".toList, 'e', rfl, by decide⟩
  | falsity => exact ⟨"fals".toList, 'e', rfl, by decide⟩
  | null => exact ⟨"nul".toList, 'l', rfl, by decide⟩

end Literal

/-! ## 3. References -/

namespace FieldCheck

theorem ofLabel?_label (check : FieldCheck) : ofLabel? check.label = some check := by
  cases check <;> rfl

theorem label_chars (check : FieldCheck) : ∀ c ∈ check.label.toList, c ≠ ':' ∧ isBlank c = false :=
  List.all_iff_forall_prop.mp (by cases check <;> decide)

theorem exists_head_label (check : FieldCheck) : ∃ c cs, check.label.toList = c :: cs := by
  cases check <;> exact ⟨_, _, rfl⟩

end FieldCheck

namespace Guard

/-- A field that stands for itself between the colons of a shorthand. -/
structure IsField (path : String) : Prop where
  inScope : (beginsWith "context." path || beginsWith "event." path) = true
  parsed : ∃ p, Path.parse path = .ok p
  noColon : ':' ∉ path.toList
  noBlankLast : ∀ c ∈ path.toList.getLast?, isBlank c = false

/-- A field begins with a letter. -/
theorem IsField.exists_head {path : String} (h : IsField path) :
    ∃ c cs, path.toList = c :: cs ∧ isBlank c = false := by
  rcases Bool.or_eq_true_iff.mp h.inScope with hscope | hscope
  · obtain ⟨rest, rfl⟩ := exists_rest_of_beginsWith hscope
    exact ⟨'c', "ontext.".toList ++ rest.toList, String.toList_append, by decide⟩
  · obtain ⟨rest, rfl⟩ := exists_rest_of_beginsWith hscope
    exact ⟨'e', "vent.".toList ++ rest.toList, String.toList_append, by decide⟩

theorem IsField.strip_eq {path : String} (h : IsField path) : strip path = path := by
  obtain ⟨c, cs, hpath, hblank⟩ := h.exists_head
  exact strip_of_ends (by simpa [hpath] using hblank) h.noBlankLast

theorem IsField.isEmpty_eq {path : String} (h : IsField path) : path.isEmpty = false := by
  obtain ⟨c, cs, hpath, -⟩ := h.exists_head
  have hne : path ≠ "" := by
    rintro rfl
    simp at hpath
  simpa using hne

/-- The text of a shorthand. -/
def shorthand (check : FieldCheck) (path literal : String) : String :=
  check.label ++ ":" ++ path ++ ":" ++ literal

theorem shorthand_eq (check : FieldCheck) (path literal : String) :
    shorthand check path literal = check.label ++ ":" ++ (path ++ ":" ++ literal) := by
  simp only [shorthand, String.append_assoc]

theorem toList_shorthand (check : FieldCheck) (path literal : String) :
    (shorthand check path literal).toList =
      check.label.toList ++ ':' :: (path.toList ++ ':' :: literal.toList) := by
  simp [shorthand]

theorem strip_shorthand (check : FieldCheck) (path : String) {v : Value} {literal : String}
    (h : Literal.Spells v literal) : strip (shorthand check path literal) = shorthand check path literal := by
  refine strip_of_ends ?_ ?_ <;> rw [toList_shorthand]
  · obtain ⟨c, cs, hlabel⟩ := check.exists_head_label
    have hblank := (check.label_chars c (by simp [hlabel])).2
    simpa [hlabel] using hblank
  · obtain ⟨cs, c, hlast, hblank⟩ := h.exists_last
    rw [hlast, ← List.cons_append, ← List.append_assoc, ← List.cons_append, ← List.append_assoc,
      List.getLast?_concat]
    simpa using hblank

/-- **The parts of a shorthand are read back.** -/
theorem ofShorthand_shorthand (check : FieldCheck) {path : String} (hpath : IsField path) {v : Value}
    {literal : String} (h : Literal.Spells v literal) :
    ofShorthand (shorthand check path literal) = .ok (.field (shorthand check path literal) check path v) := by
  have hlabel : ':' ∉ check.label.toList := fun hmem => (check.label_chars ':' hmem).1 rfl
  have hstrip : strip check.label = check.label := strip_eq_self fun c hc => (check.label_chars c hc).2
  have hcut : cutAt ':' (shorthand check path literal) = (check.label, some (path ++ ":" ++ literal)) := by
    rw [shorthand_eq, cutAt_colon hlabel]
  obtain ⟨p, hp⟩ := hpath.parsed
  have hchecked : checkedPath path (shorthand check path literal) = .ok () := by
    rw [checkedPath, hp]
  unfold ofShorthand
  simp only [hcut, hstrip, FieldCheck.ofLabel?_label, Option.getD_some, cutAt_colon hpath.noColon,
    hpath.strip_eq, hpath.isEmpty_eq, hpath.inScope, hchecked, h.parseLiteral_eq]
  rfl

/-- **A guard that is written in shorthand is read back**: the check, the field and the literal are the
ones that were written, whatever the literal looks like. -/
theorem resolve_shorthand (check : FieldCheck) {path : String} (hpath : IsField path) {v : Value}
    {literal : String} (h : Literal.Spells v literal) :
    resolve [] (fun _ => none) (.text (check.label ++ ":" ++ path ++ ":" ++ literal)) =
      .ok (.field (check.label ++ ":" ++ path ++ ":" ++ literal) check path v) := by
  change resolve [] _ (.text (shorthand check path literal)) =
    .ok (.field (shorthand check path literal) check path v)
  have hcolon : (shorthand check path literal).toList.contains ':' = true := by
    simp [toList_shorthand]
  have hne : (shorthand check path literal).isEmpty = false := by
    simp [shorthand]
  rw [resolve, resolveFrom_text, strip_shorthand check path h]
  simp only [hne, hcolon, Entries.lookup, Entries.has, ofShorthand_shorthand check hpath h]
  rfl

/-- Quotes, a colon and a blank inside of a literal are part of it, and a sign belongs to a number. -/
theorem resolve_shorthand_note :
    resolve [] (fun _ => none) (.text "equals:context.note:'it's: 5 '") =
        .ok (.field "equals:context.note:'it's: 5 '" .equals "context.note" (.text "it's: 5 ")) ∧
      resolve [] (fun _ => none) (.text "lessThan:event.step:-80") =
        .ok (.field "lessThan:event.step:-80" .lessThan "event.step" (.int (-80))) := by
  have hnote : IsField "context.note" := ⟨by decide, ⟨_, rfl⟩, by decide, by simp; decide⟩
  have hstep : IsField "event.step" := ⟨by decide, ⟨_, rfl⟩, by decide, by simp; decide⟩
  constructor
  · exact resolve_shorthand .equals hnote (.quoted (.inl rfl) "it's: 5 ")
  · exact resolve_shorthand .lessThan hstep
      (Literal.spells_toString (by decide +kernel : (-80 : Int).natAbs < Value.writable.bound))

end Guard

end Statechart
