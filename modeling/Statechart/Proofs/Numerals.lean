/-
# Numbers that are written are read back

A number in a JSON text is found by its characters first and read as a numeral afterwards, by a reader
that would accept more than what is found.  Here both are put together for the numerals that this library
writes: an integer in decimal, and a double by the shortest decimal that rounds to it.

* `Numeral.int_of_areDigits`, `Numeral.int_toString`: digits after a sign are read, and so is an integer
  that is not too long to be written from what is written;
* `Numeral.float?_of_spells`: a decimal that rounds to a double is read as it, with its sign;
* `Json.numberSpan?_of_parts`: the number in front of a text ends where its numeral ends, and is a
  double if it has a fraction or an exponent;
* **`Json.readNumber_int`**, **`Json.readNumber_of_spells`**: what stands for a number in a JSON text is read
  as this number.
-/
import Statechart.Proofs.Canonical
import Statechart.Proofs.Nearest
import Statechart.Proofs.Writable
import Mathlib.Data.Bool.AllAny

namespace Statechart

/-! ## 1. Numerals -/

theorem toNat_of_isDigit {c : Char} (h : c.isDigit = true) : 48 ≤ c.toNat ∧ c.toNat ≤ 57 := by
  simp only [Char.isDigit, Bool.and_eq_true, decide_eq_true_eq] at h
  exact h

theorem isBlank_of_isDigit {c : Char} (h : c.isDigit = true) : isBlank c = false := by
  have := toNat_of_isDigit h
  simp [isBlank, blankRanges, CharRanges.contains]
  omega

theorem toLower_of_isDigit {c : Char} (h : c.isDigit = true) : c.toLower = c := by
  have := toNat_of_isDigit h
  unfold Char.toLower
  rw [dif_neg]
  rintro ⟨hupper, -⟩
  have : 65 ≤ c.toNat := hupper
  omega

namespace Numeral

/-- The characters of the numerals that are written. -/
def IsNumeric (c : Char) : Prop := c.isDigit = true ∨ c ∈ ['.', 'e', '+', '-']

theorem IsNumeric.of_sign {c : Char} (h : c ∈ ['+', '-']) : IsNumeric c := by
  simp only [List.mem_cons, List.not_mem_nil, or_false] at h
  rcases h with rfl | rfl <;> exact .inr (by decide)

theorem IsNumeric.isBlank {c : Char} (h : IsNumeric c) : isBlank c = false := by
  rcases h with h | h
  · exact isBlank_of_isDigit h
  · exact List.all_iff_forall_prop.mp
      (by decide : ['.', 'e', '+', '-'].all fun c => Statechart.isBlank c = false) c h

theorem IsNumeric.toNat_lt {c : Char} (h : IsNumeric c) : c.toNat < 128 := by
  rcases h with h | h
  · have := toNat_of_isDigit h
    omega
  · exact List.all_iff_forall_prop.mp (by decide : ['.', 'e', '+', '-'].all fun c => c.toNat < 128) c h

/-- The characters of a sign. -/
def signOf (negative : Bool) : List Char := if negative then ['-'] else []

/-- The sign in front of a numeral that begins with a digit. -/
theorem sign_append (negative : Bool) {d : Char} (ds : List Char) (hd : d.isDigit = true) :
    sign (signOf negative ++ d :: ds) = (negative, d :: ds) := by
  cases negative with
  | true => rfl
  | false =>
    change sign (d :: ds) = _
    unfold sign
    split
    · rename_i heq
      cases heq
      exact absurd hd (by decide)
    · rename_i heq
      cases heq
      exact absurd hd (by decide)
    · rfl

/-- An integer is written with its sign and the digits of its size. -/
theorem toList_toString (n : Int) : (toString n).toList = signOf (n < 0) ++ Nat.toDigits 10 n.natAbs := by
  cases n with
  | ofNat n => exact Nat.toList_repr
  | negSucc n =>
    change ("-" ++ Nat.repr (n + 1)).toList = _
    simp [signOf, Nat.toList_repr, Int.negSucc_lt_zero]

/-- **Digits after a sign are read**, unless there are too many of them; zeros may come first. -/
theorem int_of_areDigits {front ds : List Char} {negative : Bool} (hfront : ∀ c ∈ front, IsNumeric c)
    (hsign : sign (front ++ ds) = (negative, ds)) (hds : AreDigits ds) (hne : ds ≠ [])
    (hlength : ds.length ≤ digitLimit) :
    int (String.ofList (front ++ ds)) =
      .ok (if negative then -(Nat.ofDigitChars 10 ds 0 : Int) else Nat.ofDigitChars 10 ds 0) := by
  have hstrip : strip (String.ofList (front ++ ds)) = String.ofList (front ++ ds) :=
    strip_eq_self fun c hc => by
      rw [String.toList_ofList] at hc
      exact (List.mem_append.mp hc).elim (fun hc => (hfront c hc).isBlank) fun hc =>
        isBlank_of_isDigit (hds c hc)
  have hfits : ¬ digitLimit < (valuesOf ds).length := by
    rw [valuesOf, List.length_map]
    omega
  unfold int
  rw [hstrip, String.toList_ofList, hsign]
  simp only [digitRun?_of_areDigits ds hds hne, if_neg hfits, valueOf_valuesOf]

/-- An integer that can be written has no more digits than can be read. -/
theorem length_toDigits_le {n : Int} (hn : n.natAbs < Value.writable.bound) :
    (Nat.toDigits 10 n.natAbs).length ≤ digitLimit := by
  unfold Value.writable.bound at hn
  have hlimit : 0 < digitLimit := by decide
  generalize digitLimit = limit at hn hlimit ⊢
  exact (Nat.length_toDigits_le_iff (by decide) hlimit).mpr hn

/-- **An integer that can be written is read from what is written.** -/
theorem int_toString {n : Int} (hn : n.natAbs < Value.writable.bound) : int (toString n) = .ok n := by
  have hdigits := areDigits_toDigits n.natAbs
  have hne : Nat.toDigits 10 n.natAbs ≠ [] := Nat.toDigits_ne_nil
  have hfront : ∀ c ∈ signOf (n < 0), IsNumeric c := fun c hc => .inr <| by
    by_cases hneg : n < 0 <;> simp [signOf, hneg] at hc
    simp [hc]
  have hsign : sign (signOf (n < 0) ++ Nat.toDigits 10 n.natAbs) = (decide (n < 0), Nat.toDigits 10 n.natAbs) := by
    obtain ⟨d, ds, hd⟩ := List.exists_cons_of_ne_nil hne
    rw [hd]
    exact sign_append _ ds (hdigits d (by simp [hd]))
  rw [← String.ofList_toList (s := toString n), toList_toString,
    int_of_areDigits hfront hsign hdigits hne (length_toDigits_le hn), Nat.ofDigitChars_ten_toDigits]
  simp only [decide_eq_true_eq]
  congr 1
  split <;> omega

/-- **A decimal that rounds to a double is read as it.** -/
theorem float?_of_spells {x : Float} {b : Binary} {cs : List Char} {v : ℚ} (hx : Binary.ofFloat? x = some b)
    (hspells : Spells cs v) (hrounds : b.Rounds v) :
    float? (String.ofList (signOf b.negative ++ cs)) = some x := by
  obtain ⟨d, ds, rfl, hd⟩ := hspells.head
  have hstrip : strip (String.ofList (signOf b.negative ++ d :: ds)) =
      String.ofList (signOf b.negative ++ d :: ds) := strip_eq_self fun c hc => by
    rw [String.toList_ofList] at hc
    rcases List.mem_append.mp hc with hc | hc
    · refine IsNumeric.isBlank (.inr ?_)
      cases hneg : b.negative <;> simp [signOf, hneg] at hc
      simp [hc]
    · exact IsNumeric.isBlank (hspells.chars c hc)
  have hlower : toLowerCase (String.ofList (d :: ds)) = String.ofList (d.toLower :: ds.map Char.toLower) := by
    rw [toLowerCase_ascii]
    · simp
    · intro c hc
      rw [String.toList_ofList] at hc
      exact IsNumeric.toNat_lt (hspells.chars c hc)
  have hnumeral : ∀ w ∈ ["inf", "infinity", "nan"], toLowerCase (String.ofList (d :: ds)) ≠ w := by
    intro w hw heq
    rw [hlower, toLower_of_isDigit hd] at heq
    have hfirst := congrArg (fun s : String => s.toList.head?) heq
    simp only [List.mem_cons, List.not_mem_nil, or_false] at hw
    rcases hw with rfl | rfl | rfl <;> simp at hfirst <;> subst hfirst <;> exact absurd hd (by decide)
  obtain ⟨whole, fraction, exponent, hdecimal, rfl⟩ := hspells.denotes
  unfold float?
  rw [hstrip, String.toList_ofList, sign_append _ _ hd]
  dsimp only
  split
  · rename_i heq
    exact absurd heq (hnumeral _ (by simp))
  · rename_i heq
    exact absurd heq (hnumeral _ (by simp))
  · rename_i heq
    exact absurd heq (hnumeral _ (by simp))
  · simp only [hdecimal, Option.bind_eq_bind, Option.bind_some, Option.pure_def]
    exact congrArg some (Binary.ofDecimal_of_rounds hx hrounds)

end Numeral

namespace Json

/-! ## 2. The number in front of a text -/

open Numeral

/-- A text goes on with no digit, or not at all. -/
def NoDigit (cs : List Char) : Prop := ∀ c ∈ cs.head?, c.isDigit = false

theorem noDigit_cons {c : Char} (h : c.isDigit = false) (cs : List Char) : NoDigit (c :: cs) := by
  intro d hd
  obtain rfl : c = d := by simpa using hd
  exact h

theorem digitSpan_append {cs rest : List Char} (h : AreDigits cs) (hrest : NoDigit rest) :
    digitSpan (cs ++ rest) = cs.length := by
  rw [digitSpan, List.takeWhile_append_of_pos h]
  cases rest with
  | nil => simp
  | cons c rest =>
    rw [List.takeWhile_cons_of_neg (by simp [hrest c (by simp)])]
    simp

theorem Ends.noDigit {rest : List Char} (h : Ends rest) : NoDigit rest := by
  rcases h with rfl | ⟨c, cs, rfl, hc⟩
  · intro c hc
    cases hc
  · refine noDigit_cons ?_ cs
    exact List.all_iff_forall_prop.mp (by decide : [',', ']', '}'].all fun c => c.isDigit = false) c hc

theorem wholeSpan_append {whole rest : List Char} (h : AreDigits whole) (hled : IsLed whole)
    (hrest : NoDigit rest) : wholeSpan (whole ++ rest) = whole.length := by
  rcases hled with rfl | ⟨d, ds, rfl, hd⟩
  · rfl
  · rw [List.cons_append]
    unfold wholeSpan
    split
    · rename_i heq
      exact absurd (List.cons.inj heq).1 hd
    · rw [← List.cons_append, digitSpan_append h hrest]

theorem fractionSpan_append {point fraction rest : List Char} (h : AreDigits fraction)
    (hpoint : IsTail point fraction) (hrest : NoDigit rest) (hdot : '.' ∉ rest.head?) :
    fractionSpan (point ++ rest) = point.length := by
  rcases hpoint with ⟨rfl, hne⟩ | ⟨rfl, rfl⟩
  · have hlength : fraction.length ≠ 0 := by simpa using hne
    simp [fractionSpan, digitSpan_append h hrest, hlength]
  · rw [List.nil_append]
    unfold fractionSpan
    split
    · simp at hdot
    · rfl

theorem exponentSpan_append {scale rest : List Char} {exponent : Int} (hscale : IsScale scale exponent)
    (hrest : Ends rest) : exponentSpan (scale ++ rest) = scale.length := by
  cases hscale with
  | none =>
    rcases hrest with rfl | ⟨c, cs, rfl, hc⟩
    · rfl
    · have hmark : ¬ (c = 'e' ∨ c = 'E') := by
        rintro (rfl | rfl) <;> simp at hc
      simp [exponentSpan, hmark]
  | plus cs h hne | minus cs h hne =>
    have hlength : cs.length ≠ 0 := by simpa using hne
    simp only [exponentSpan, List.cons_append, List.drop_one, List.tail_cons,
      digitSpan_append h hrest.noDigit, if_neg hlength]
    simp
    omega

/-- **The number in front of a text ends where its numeral ends**; it is a double if it has a fraction or an
exponent. -/
theorem numberSpan?_of_parts (negative : Bool) {whole fraction point scale rest : List Char} {exponent : Int}
    (hwhole : AreDigits whole) (hled : IsLed whole) (hfraction : AreDigits fraction)
    (hpoint : IsTail point fraction) (hscale : IsScale scale exponent) (hrest : Ends rest) :
    numberSpan? (signOf negative ++ (whole ++ (point ++ (scale ++ rest)))) =
      some ((signOf negative ++ (whole ++ point ++ scale)).length, !(point ++ scale).isEmpty) := by
  have hscaleRest : NoDigit (scale ++ rest) ∧ '.' ∉ (scale ++ rest).head? := by
    cases hscale with
    | none =>
      refine ⟨hrest.noDigit, ?_⟩
      rcases hrest with rfl | ⟨c, cs, rfl, hc⟩
      · simp
      · rintro h
        obtain rfl : c = '.' := by simpa using h
        revert hc
        decide
    | plus | minus => exact ⟨noDigit_cons (by decide) _, by simp⟩
  have hpointRest : NoDigit (point ++ (scale ++ rest)) := by
    rcases hpoint with ⟨rfl, -⟩ | ⟨rfl, -⟩
    · exact noDigit_cons (by decide) _
    · exact hscaleRest.1
  have hsign : (if (signOf negative ++ (whole ++ (point ++ (scale ++ rest)))).head? = some '-' then 1 else 0) =
      (signOf negative).length := by
    cases negative with
    | true => rfl
    | false =>
      obtain ⟨d, ds, rfl⟩ := List.exists_cons_of_ne_nil hled.ne_nil
      have hd : d ≠ '-' := by
        rintro rfl
        exact absurd (hwhole '-' (by simp)) (by decide)
      simp [signOf, hd]
  have hlength : whole.length ≠ 0 := by simpa using hled.ne_nil
  unfold numberSpan?
  dsimp only
  rw [hsign, List.drop_left, wholeSpan_append hwhole hled hpointRest, if_neg hlength, ← List.drop_drop,
    List.drop_left, List.drop_left, fractionSpan_append hfraction hpoint hscaleRest.1 hscaleRest.2,
    ← List.drop_drop, ← List.drop_drop, List.drop_left, List.drop_left, List.drop_left,
    exponentSpan_append hscale hrest]
  simp only [Option.some.injEq, Prod.mk.injEq, List.length_append]
  refine ⟨by omega, ?_⟩
  cases point <;> cases scale <;> simp

/-! ## 3. Numbers that are read -/

/-- A text with something after it that ends a value is read as a number. -/
def ReadsNumber (s : String) (v : Value) : Prop :=
  ∀ rest position, Ends rest → ∃ position',
    readNumber ⟨s.toList ++ rest, position⟩ = .ok (v, ⟨rest, position'⟩)

/-- **An integer that can be written is read from what is written.** -/
theorem readNumber_int {n : Int} (hn : n.natAbs < Value.writable.bound) : ReadsNumber (toString n) (.int n) := by
  intro rest position hrest
  have hspan := numberSpan?_of_parts (n < 0) (areDigits_toDigits n.natAbs) (isLed_toDigits n.natAbs)
    (List.forall_mem_nil _ : AreDigits []) (.inr ⟨rfl, rfl⟩) .none hrest
  simp only [List.nil_append, List.append_nil, List.isEmpty_nil, Bool.not_true] at hspan
  rw [← List.append_assoc, ← toList_toString] at hspan
  unfold readNumber
  rw [hspan]
  simp only [Bool.false_eq_true, if_false, List.take_left, String.ofList_toList, int_toString hn, Cursor.skip,
    List.drop_left]
  exact ⟨_, rfl⟩

/-- **A double is read from the decimal that rounds to it.** -/
theorem readNumber_of_spells {x : Float} {b : Binary} {t : String} {v : ℚ} (hx : Binary.ofFloat? x = some b)
    (hspells : Spells t.toList v) (hrounds : b.Rounds v) :
    ReadsNumber ((if b.negative then "-" else "") ++ t) (.float x) := by
  intro rest position hrest
  have hlist : ((if b.negative then "-" else "") ++ t).toList = signOf b.negative ++ t.toList := by
    cases b.negative <;> simp [signOf]
  have hfloat := float?_of_spells hx hspells hrounds
  obtain ⟨whole, fraction, point, scale, exponent, hparts, hwhole, hled, hfraction, hpoint, hscale, hsome⟩ :=
    hspells.parts
  have hspan := numberSpan?_of_parts b.negative hwhole hled hfraction hpoint hscale hrest
  have hmarked : (point ++ scale).isEmpty = false := by simpa using hsome
  rw [hmarked, ← hparts, Bool.not_false, ← List.append_assoc point, ← List.append_assoc whole,
    ← List.append_assoc whole, ← hparts, ← List.append_assoc] at hspan
  unfold readNumber
  rw [hlist, hspan]
  simp only [if_true, List.take_left, hfloat, Option.getD_some, Cursor.skip, List.drop_left]
  exact ⟨_, rfl⟩

end Json

end Statechart
