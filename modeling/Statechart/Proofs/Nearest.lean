/-
# A decimal that rounds to a double is read as it

A decimal is read by rounding an exact quotient.  The quotient is scaled by a power of two until its
whole part has 53 bits, or until the exponent is the least one, and then rounded to a natural number.
What comes out is the double that the decimal rounds to, and there is only one (`Proofs/Shortest.lean`).

* `Binary.Nears`: a natural number is nearest to a magnitude; `roundHalfEven_nears`, `scaled_nears`;
* `Binary.scaleOf_eq`: the exponent of a quotient;
* `Binary.rounds_carried`: the mantissa and the exponent that are left are those of the double;
* **`Binary.ofDecimal_of_rounds`**: a decimal that rounds to a double is read as this double.
-/
import Statechart.Proofs.Shortest
import Mathlib

namespace Statechart

namespace Binary

variable {b : Binary} {x : Float} {num den m : Nat} {v q : ℚ} {e : Int}

/-! ## 1. Rounding to a natural number -/

/-- A natural number is nearest to a magnitude, the even one if it lies in the middle of two. -/
def Nears (m : Nat) (q : ℚ) : Prop :=
  if m % 2 = 0 then m - 1 / 2 ≤ q ∧ q ≤ m + 1 / 2 else m - 1 / 2 < q ∧ q < m + 1 / 2

theorem Nears.le (h : Nears m q) : m - 1 / 2 ≤ q ∧ q ≤ m + 1 / 2 := by
  unfold Nears at h
  split at h
  · exact h
  · exact ⟨h.1.le, h.2.le⟩

theorem nears_of_lt (hlower : m - 1 / 2 < q) (hupper : q < m + 1 / 2) : Nears m q := by
  unfold Nears
  split
  · exact ⟨hlower.le, hupper.le⟩
  · exact ⟨hlower, hupper⟩

theorem nears_of_even (heven : m % 2 = 0) (hmiddle : q = m - 1 / 2 ∨ q = m + 1 / 2) : Nears m q := by
  rw [Nears, if_pos heven]
  rcases hmiddle with rfl | rfl <;> constructor <;> linarith

theorem roundHalfEven_nears (num : Nat) (hden : 0 < den) : Nears (roundHalfEven num den) (num / den) := by
  have hd : (0 : ℚ) < den := by exact_mod_cast hden
  have hsplit : (num : ℚ) / den = (num / den : ℕ) + (num % den : ℕ) / den := by
    have h : (num : ℚ) = den * (num / den : ℕ) + (num % den : ℕ) := by
      exact_mod_cast (Nat.div_add_mod num den).symm
    rw [h]
    field_simp
  have hmod : (num % den : ℕ) < den := Nat.mod_lt num hden
  rw [hsplit, roundHalfEven]
  generalize num % den = r at hmod
  generalize num / den = k
  have hzero : (0 : ℚ) ≤ r / den := by positivity
  have hone : (r : ℚ) / den < 1 := (div_lt_one hd).mpr (by exact_mod_cast hmod)
  have hhalf : (r : ℚ) / den < 1 / 2 ↔ 2 * r < den := by
    rw [div_lt_div_iff₀ hd (by norm_num), ← @Nat.cast_lt ℚ]
    push_cast
    constructor <;> intro h <;> linarith
  have hhalf' : 1 / 2 < (r : ℚ) / den ↔ den < 2 * r := by
    rw [div_lt_div_iff₀ (by norm_num) hd, ← @Nat.cast_lt ℚ]
    push_cast
    constructor <;> intro h <;> linarith
  split
  · rename_i hlt
    have := hhalf.mpr hlt
    exact nears_of_lt (by linarith) (by linarith)
  · split
    · rename_i hlt
      have := hhalf'.mpr hlt
      exact nears_of_lt (by push_cast; linarith) (by push_cast; linarith)
    · rename_i hle hge
      have hmiddle : (r : ℚ) / den = 1 / 2 :=
        le_antisymm (not_lt.mp (mt hhalf'.mp hge)) (not_lt.mp (mt hhalf.mp hle))
      split
      · rename_i heven
        exact nears_of_even heven (.inr (by rw [hmiddle]))
      · rename_i hodd
        exact nears_of_even (by omega) (.inl (by push_cast; linarith))

/-- Scaling by a power of two and rounding comes to the natural number that is nearest. -/
theorem scaled_nears (num : Nat) (hden : 0 < den) (e : Int) :
    Nears (scaled num den e) (num / den / 2 ^ e) := by
  unfold scaled
  split
  · rename_i he
    obtain ⟨n, rfl⟩ := Int.eq_ofNat_of_zero_le he
    have hscaled : 0 < den * Nat.pow 2 n := Nat.mul_pos hden (Nat.two_pow_pos n)
    have h := roundHalfEven_nears num hscaled
    simp only [Int.toNat_natCast, zpow_natCast, div_div]
    push_cast [Nat.pow_eq] at h
    exact h
  · rename_i he
    obtain ⟨n, rfl⟩ : ∃ n : ℕ, e = -n := ⟨(-e).toNat, by omega⟩
    have h := roundHalfEven_nears (num * Nat.pow 2 n) hden
    simp only [neg_neg, Int.toNat_natCast, zpow_neg, zpow_natCast, div_inv_eq_mul, div_mul_eq_mul_div]
    push_cast [Nat.pow_eq] at h
    exact h

/-! ## 2. The exponent -/

/-- The exponent that a quotient is scaled by. -/
def scaleOf (num den : Nat) : Int :=
  let estimate : Int := (num.log2 : Int) - den.log2 - 53
  let tooFine :=
    if 0 ≤ estimate then Nat.pow 2 53 ≤ num / (den * Nat.pow 2 estimate.toNat)
    else Nat.pow 2 53 ≤ num * Nat.pow 2 (-estimate).toNat / den
  max (if tooFine then estimate + 1 else estimate) (-1074)

/-- The mantissa and the exponent that are left, once a carry has been taken into account. -/
def carried (m : Nat) (e : Int) : Nat × Int := if m = 2 ^ 53 then (2 ^ 52, e + 1) else (m, e)

theorem ofRatio?_eq (negative : Bool) (hnum : num ≠ 0) (den : Nat) :
    ofRatio? negative num den =
      if 971 < (carried (scaled num den (scaleOf num den)) (scaleOf num den)).2 then none
      else some (toFloat ⟨negative, (carried (scaled num den (scaleOf num den)) (scaleOf num den)).1,
        (carried (scaled num den (scaleOf num den)) (scaleOf num den)).2⟩) := by
  rw [ofRatio?, if_neg hnum]
  rfl

/-- A quotient lies between the powers of two next to that of its logarithms. -/
theorem quotient_bounds (hnum : num ≠ 0) (hden : den ≠ 0) :
    (2 : ℚ) ^ ((num.log2 : Int) - den.log2 - 1) < num / den ∧
      (num : ℚ) / den < 2 ^ ((num.log2 : Int) - den.log2 + 1) := by
  have hd : (0 : ℚ) < den := by exact_mod_cast Nat.pos_of_ne_zero hden
  have hnlow : (2 : ℚ) ^ (num.log2 : Int) ≤ num := by exact_mod_cast Nat.log2_self_le hnum
  have hnhigh : (num : ℚ) < 2 ^ ((num.log2 : Int) + 1) := by exact_mod_cast Nat.lt_log2_self (n := num)
  have hdlow : (2 : ℚ) ^ (den.log2 : Int) ≤ den := by exact_mod_cast Nat.log2_self_le hden
  have hdhigh : (den : ℚ) < 2 ^ ((den.log2 : Int) + 1) := by exact_mod_cast Nat.lt_log2_self (n := den)
  have htwo (k : Int) : (0 : ℚ) < 2 ^ k := by positivity
  constructor
  · rw [lt_div_iff₀ hd]
    calc (2 : ℚ) ^ ((num.log2 : Int) - den.log2 - 1) * den
        < 2 ^ ((num.log2 : Int) - den.log2 - 1) * 2 ^ ((den.log2 : Int) + 1) :=
          mul_lt_mul_of_pos_left hdhigh (htwo _)
      _ = 2 ^ (num.log2 : Int) := by
          rw [← zpow_add₀ (by norm_num)]
          congr 1
          omega
      _ ≤ num := hnlow
  · rw [div_lt_iff₀ hd]
    calc (num : ℚ) < 2 ^ ((num.log2 : Int) + 1) := hnhigh
      _ = 2 ^ ((num.log2 : Int) - den.log2 + 1) * 2 ^ (den.log2 : Int) := by
          rw [← zpow_add₀ (by norm_num)]
          congr 1
          omega
      _ ≤ 2 ^ ((num.log2 : Int) - den.log2 + 1) * den := mul_le_mul_of_nonneg_left hdlow (htwo _).le

theorem tooFine_iff (hden : 0 < den) (k : Int) :
    (if 0 ≤ k then Nat.pow 2 53 ≤ num / (den * Nat.pow 2 k.toNat)
      else Nat.pow 2 53 ≤ num * Nat.pow 2 (-k).toNat / den) ↔ (2 : ℚ) ^ (53 + k) ≤ num / den := by
  have hd : (0 : ℚ) < den := by exact_mod_cast hden
  rw [le_div_iff₀ hd, zpow_add₀ (by norm_num)]
  simp only [Nat.pow_eq]
  split
  · rename_i hk
    obtain ⟨n, rfl⟩ := Int.eq_ofNat_of_zero_le hk
    rw [Nat.le_div_iff_mul_le (Nat.mul_pos hden (Nat.two_pow_pos _)), ← @Nat.cast_le ℚ, Int.toNat_natCast,
      zpow_natCast]
    push_cast [Nat.pow_eq]
    rw [mul_comm (den : ℚ), mul_assoc]
  · rename_i hk
    obtain ⟨n, rfl⟩ : ∃ n : ℕ, k = -n := ⟨(-k).toNat, by omega⟩
    have hpow : (0 : ℚ) < 2 ^ n := by positivity
    rw [Nat.le_div_iff_mul_le hden, ← @Nat.cast_le ℚ, neg_neg, Int.toNat_natCast, zpow_neg, zpow_natCast]
    push_cast [Nat.pow_eq]
    rw [mul_right_comm, ← div_eq_mul_inv, div_le_iff₀ hpow]

/-- **The exponent leaves 53 bits before the point**, as far as the least exponent lets it. -/
theorem scaleOf_eq (hnum : num ≠ 0) (hden : den ≠ 0) :
    scaleOf num den = max (Int.log 2 ((num : ℚ) / den) - 52) (-1074) := by
  have hpos : (0 : ℚ) < num / den := by
    have := Nat.pos_of_ne_zero hnum
    have := Nat.pos_of_ne_zero hden
    positivity
  obtain ⟨hlow, hhigh⟩ := quotient_bounds hnum hden
  have hle : (num.log2 : Int) - den.log2 - 1 ≤ Int.log 2 ((num : ℚ) / den) :=
    (Int.zpow_le_iff_le_log (b := 2) (by decide) hpos).mp (by exact_mod_cast hlow.le)
  have hlt : Int.log 2 ((num : ℚ) / den) < (num.log2 : Int) - den.log2 + 1 :=
    (Int.lt_zpow_iff_log_lt (b := 2) (by decide) hpos).mp (by exact_mod_cast hhigh)
  have hfine := (@tooFine_iff num den (Nat.pos_of_ne_zero hden) ((num.log2 : Int) - den.log2 - 53)).trans
    (Int.zpow_le_iff_le_log (b := 2) (by decide) hpos)
  unfold scaleOf
  dsimp only
  simp only [hfine]
  congr 1
  split <;> omega

/-- Then it has 53 bits before the point, or the exponent is the least one. -/
theorem scaleOf_bounds (hnum : num ≠ 0) (hden : den ≠ 0) :
    -1074 ≤ scaleOf num den ∧ (scaleOf num den = -1074 ∨ 2 ^ 52 ≤ (num : ℚ) / den / 2 ^ scaleOf num den) ∧
      (num : ℚ) / den / 2 ^ scaleOf num den < 2 ^ 53 := by
  have hpos : (0 : ℚ) < num / den := by
    have := Nat.pos_of_ne_zero hnum
    have := Nat.pos_of_ne_zero hden
    positivity
  have htwo (k : Int) : (0 : ℚ) < 2 ^ k := by positivity
  have hlow := Int.zpow_log_le_self (b := 2) (by decide) hpos
  have hhigh := Int.lt_zpow_succ_log_self (b := 2) (by decide) ((num : ℚ) / den)
  push_cast at hlow hhigh
  rw [scaleOf_eq hnum hden]
  generalize Int.log 2 ((num : ℚ) / den) = k at hlow hhigh
  refine ⟨by omega, ?_, ?_⟩
  · rcases le_or_gt (k - 52) (-1074) with hk | hk
    · exact .inl (max_eq_right hk)
    · refine .inr ?_
      rw [max_eq_left hk.le, le_div_iff₀ (htwo _)]
      calc (2 : ℚ) ^ 52 * 2 ^ (k - 52) = 2 ^ (52 + (k - 52)) := by rw [zpow_add₀ (by norm_num)]; rfl
        _ = 2 ^ k := by congr 1; omega
        _ ≤ num / den := hlow
  · rw [div_lt_iff₀ (htwo _)]
    calc (num : ℚ) / den < 2 ^ (k + 1) := hhigh
      _ ≤ 2 ^ (53 + max (k - 52) (-1074)) := zpow_le_zpow_right₀ (by norm_num) (by omega)
      _ = 2 ^ 53 * 2 ^ max (k - 52) (-1074) := by rw [zpow_add₀ (by norm_num)]; rfl

/-! ## 3. What is left is the double -/

/-- A quotient with 53 bits before the point is rounded to the mantissa of the double that it rounds to,
with its exponent. -/
theorem rounds_carried (negative : Bool) (hnears : Nears m (v / 2 ^ e)) (hleast : -1074 ≤ e)
    (hfull : e = -1074 ∨ 2 ^ 52 ≤ v / 2 ^ e) (hlt : v / 2 ^ e < 2 ^ 53) :
    (⟨negative, (carried m e).1, (carried m e).2⟩ : Binary).IsScaled ∧
      (⟨negative, (carried m e).1, (carried m e).2⟩ : Binary).Rounds v := by
  have hpow : (0 : ℚ) < 2 ^ e := by positivity
  obtain ⟨q, hq⟩ : ∃ q, q = v / 2 ^ e := ⟨_, rfl⟩
  have hv : v = q * 2 ^ e := by
    rw [hq]
    field_simp
  rw [← hq] at hnears hfull hlt
  obtain ⟨hlow, hhigh⟩ := hnears.le
  have hnext (k : Int) : (2 : ℚ) ^ (e + k) = 2 ^ e * 2 ^ k := zpow_add₀ (by norm_num) e k
  by_cases hcarry : m = 2 ^ 53
  · -- the next power of two is reached, from a quarter below it on
    rw [carried, if_pos hcarry]
    have hleast' : -1074 ≤ e + 1 ∧ -1074 < e + 1 := by omega
    refine ⟨⟨by norm_num, hleast'.1, .inl le_rfl⟩, ?_⟩
    rw [hcarry] at hlow
    push_cast at hlow
    have hquarter : (2 : ℚ) ^ (e + 1 - 2) = 2 ^ e / 2 := by
      rw [show e + 1 - 2 = e + -1 by omega, hnext]
      norm_num
      ring
    rw [Rounds, if_pos (by norm_num)]
    simp only [lower, upper, slack, quarter, hquarter, hleast'.2, true_and, if_true, hv]
    push_cast
    constructor <;> nlinarith
  · rw [carried, if_neg hcarry]
    have hm : m < 2 ^ 53 := by
      have : (m : ℚ) < 2 ^ 53 + 1 := by linarith
      have : m < 2 ^ 53 + 1 := by exact_mod_cast this
      omega
    have hnormal : 2 ^ 52 ≤ m ∨ e = -1074 := by
      rcases hfull with he | hfull
      · exact .inr he
      · refine .inl ?_
        have : (2 : ℚ) ^ 52 < m + 1 := by linarith
        have : 2 ^ 52 < m + 1 := by exact_mod_cast this
        omega
    refine ⟨⟨hm, hleast, hnormal⟩, ?_⟩
    have hquarter : (2 : ℚ) ^ (e - 2) = 2 ^ e / 4 := by
      rw [show e - 2 = e + -2 by omega, hnext]
      norm_num
      ring
    obtain ⟨k, hk, hkq⟩ : ∃ k : ℚ, slack ⟨negative, m, e⟩ = k ∧ (k = 2 ∨ k = 1 ∧ (m : ℚ) ≤ q) := by
      refine ⟨_, rfl, ?_⟩
      unfold slack
      split
      · rename_i hend
        obtain ⟨hmant, hexp⟩ : m = 2 ^ 52 ∧ -1074 < e := hend
        refine .inr ⟨rfl, ?_⟩
        rw [hmant]
        push_cast
        exact hfull.resolve_left (by omega)
      · exact .inl rfl
    simp only [Rounds, lower, upper, quarter, hk, hquarter, hv]
    unfold Nears at hnears
    split at hnears
    · rw [if_pos ‹_›]
      rcases hkq with rfl | ⟨rfl, hkq⟩ <;> constructor <;> nlinarith
    · rw [if_neg ‹_›]
      rcases hkq with rfl | ⟨rfl, hkq⟩ <;> constructor <;> nlinarith

/-! ## 4. Doubles that are put together -/

/-- A double is put together from the parts that it is taken apart into. -/
theorem toFloat_of_ofFloat? (h : ofFloat? x = some b) : b.toFloat = x := by
  have hbits := x.toBits.toNat_lt
  have hpacked : (if b.negative then Nat.pow 2 63 else 0) +
      (if b.mantissa < Nat.pow 2 52 then b.mantissa
        else (b.exponent + 1075).toNat * Nat.pow 2 52 + (b.mantissa - Nat.pow 2 52)) = x.toBits.toNat := by
    simp only [ofFloat?, Nat.pow_eq] at h ⊢
    generalize x.toBits.toNat = bits at h hbits
    split at h
    · cases h
    · split at h
      · cases h
        simp only [decide_eq_true_eq]
        rw [if_pos (Nat.mod_lt _ (by decide))]
        split <;> omega
      · cases h
        simp only [decide_eq_true_eq, Int.sub_add_cancel, Int.toNat_natCast, Nat.add_sub_cancel]
        rw [if_neg (Nat.not_lt.mpr (Nat.le_add_left _ _))]
        split <;> omega
  unfold toFloat
  dsimp only
  rw [hpacked, UInt64.ofNat_toNat, Float.ofBits_toBits]

/-- A magnitude that rounds to zero is taken for it. -/
theorem zero_of_rounds (hx : ofFloat? x = some b) (hm : b.mantissa = 0) :
    toFloat ⟨b.negative, 0, -1074⟩ = x := by
  have hexp : b.exponent = -1074 := by
    rcases (isDouble_of_ofFloat? hx).normal with h | h
    · omega
    · exact h
  rw [← hm, ← hexp]
  exact toFloat_of_ofFloat? hx

/-- **A quotient that rounds to a double is taken for it.** -/
theorem ofRatio?_of_rounds (hx : ofFloat? x = some b) (hden : den ≠ 0) (h : b.Rounds (num / den)) :
    ofRatio? b.negative num den = some x := by
  have hdouble := isDouble_of_ofFloat? hx
  by_cases hnum : num = 0
  · have hm : b.mantissa = 0 := by
      by_contra hm
      have := h.pos hm
      simp [hnum] at this
    rw [ofRatio?, if_pos hnum, zero_of_rounds hx hm]
  · obtain ⟨hleast, hfull, hlt⟩ := scaleOf_bounds hnum hden
    obtain ⟨hscaled, hrounds⟩ := rounds_carried b.negative
      (scaled_nears num (Nat.pos_of_ne_zero hden) (scaleOf num den)) hleast hfull hlt
    obtain ⟨hm, he⟩ := h.unique hrounds hdouble.toIsScaled hscaled
    dsimp only at hm he
    rw [ofRatio?_eq _ hnum, ← hm, ← he, if_neg (not_lt.mpr hdouble.exponent_le)]
    exact congrArg some (toFloat_of_ofFloat? hx)

/-- Powers of ten are compared with powers of eight, which are powers of two. -/
theorem two_pow_le_ten_pow (k : Nat) : (2 : ℚ) ^ (3 * (k : Int)) ≤ 10 ^ k := by
  calc (2 : ℚ) ^ (3 * (k : Int)) = 8 ^ k := by
        rw [zpow_mul, zpow_natCast]
        norm_num
    _ ≤ 10 ^ k := pow_le_pow_left₀ (by norm_num) (by norm_num) k

/-- A magnitude that rounds to a double other than zero is no less than half of the least one. -/
theorem Rounds.half_least_le (hb : b.IsDouble) (hm : b.mantissa ≠ 0) (h : b.Rounds v) :
    (2 : ℚ) ^ (-1075 : Int) ≤ v := by
  have hone : (1 : ℚ) ≤ b.mantissa := by exact_mod_cast Nat.one_le_iff_ne_zero.mpr hm
  have hleast := hb.le_exponent
  calc (2 : ℚ) ^ (-1075 : Int) ≤ 2 ^ (b.exponent - 2 + 1) := zpow_le_zpow_right₀ (by norm_num) (by omega)
    _ = 2 * b.quarter := by
        rw [quarter, zpow_add_one₀ (by norm_num)]
        ring
    _ ≤ b.lower := mul_le_mul_of_nonneg_right (by linarith [b.slack_le]) b.quarter_pos.le
    _ ≤ v := h.le.1

/-- And it is less than the first power of two that is no double. -/
theorem Rounds.lt_two_pow (hb : b.IsDouble) (h : b.Rounds v) : v < 2 ^ (1024 : Int) := by
  have hmost := hb.exponent_le
  calc v ≤ b.upper := h.le.2
    _ ≤ (2 ^ 55 - 2) * b.quarter := hb.upper_le
    _ < 2 ^ (55 : Int) * b.quarter := mul_lt_mul_of_pos_right (by norm_num) b.quarter_pos
    _ = 2 ^ (55 + (b.exponent - 2)) := by rw [quarter, zpow_add₀ (by norm_num)]
    _ ≤ 2 ^ (1024 : Int) := zpow_le_zpow_right₀ (by norm_num) (by omega)

/-- **A decimal that rounds to a double is read as it.** -/
theorem ofDecimal_of_rounds {digits : Nat} {exponent : Int} (hx : ofFloat? x = some b)
    (h : b.Rounds (digits * 10 ^ exponent)) : ofDecimal b.negative digits exponent = x := by
  have hdouble := isDouble_of_ofFloat? hx
  unfold ofDecimal
  dsimp only
  split
  · -- the decimal is less than half of the least double
    rename_i hsmall
    refine zero_of_rounds hx ?_
    by_contra hm
    have hleast := h.half_least_le hdouble hm
    rcases hsmall with rfl | ⟨hneg, hsize⟩
    · have : (0 : ℚ) < 2 ^ (-1075 : Int) := by positivity
      simp only [Nat.cast_zero, zero_mul] at hleast
      linarith
    · obtain ⟨k, rfl⟩ : ∃ k : ℕ, exponent = -k := ⟨(-exponent).toNat, by omega⟩
      have hten := two_pow_le_ten_pow k
      have hdigits : (digits : ℚ) < 2 ^ ((digits.log2 : Int) + 1) := by
        exact_mod_cast Nat.lt_log2_self (n := digits)
      have htwo : (0 : ℚ) < 2 ^ (3 * (k : Int)) := by positivity
      refine absurd hleast (not_le.mpr ?_)
      calc (digits : ℚ) * 10 ^ (-(k : Int)) = digits / 10 ^ k := by rw [zpow_neg, zpow_natCast]; rfl
        _ ≤ digits / 2 ^ (3 * (k : Int)) := div_le_div_of_nonneg_left (by positivity) htwo hten
        _ < 2 ^ ((digits.log2 : Int) + 1) / 2 ^ (3 * (k : Int)) := div_lt_div_of_pos_right hdigits htwo
        _ = 2 ^ ((digits.log2 : Int) + 1 - 3 * k) := by rw [zpow_sub₀ (by norm_num)]
        _ ≤ 2 ^ (-1075 : Int) := zpow_le_zpow_right₀ (by norm_num) (by omega)
  rename_i hsome
  have hdigits : digits ≠ 0 := fun hzero => hsome (.inl hzero)
  split
  · -- the decimal is no less than the first power of two that is no double
    rename_i hlarge
    obtain ⟨hpos, hsize⟩ := hlarge
    obtain ⟨k, rfl⟩ := Int.eq_ofNat_of_zero_le hpos
    have hlog : (2 : ℚ) ^ (digits.log2 : Int) ≤ digits := by exact_mod_cast Nat.log2_self_le hdigits
    refine absurd (h.lt_two_pow hdouble) (not_lt.mpr ?_)
    have hpow : (2 : ℚ) ^ (1024 : Int) ≤ 2 ^ ((digits.log2 : Int) + 3 * k) :=
      zpow_le_zpow_right₀ (by norm_num) (by omega)
    calc (2 : ℚ) ^ (1024 : Int) ≤ 2 ^ ((digits.log2 : Int) + 3 * k) := hpow
      _ = 2 ^ (digits.log2 : Int) * 2 ^ (3 * (k : Int)) := zpow_add₀ (by norm_num) _ _
      _ ≤ digits * 10 ^ k := mul_le_mul hlog (two_pow_le_ten_pow k) (by positivity) (by positivity)
      _ = digits * 10 ^ (k : Int) := by rw [zpow_natCast]
  · split
    · rename_i hpos
      obtain ⟨k, rfl⟩ := Int.eq_ofNat_of_zero_le hpos
      have hquotient : (digits : ℚ) * 10 ^ (k : Int) = (digits * Nat.pow 10 k : ℕ) / (1 : ℕ) := by
        push_cast [Nat.pow_eq]
        simp
      rw [hquotient] at h
      rw [Int.toNat_natCast, ofRatio?_of_rounds hx one_ne_zero h, Option.getD_some]
    · rename_i hneg
      obtain ⟨k, rfl⟩ : ∃ k : ℕ, exponent = -k := ⟨(-exponent).toNat, by omega⟩
      have hden : Nat.pow 10 k ≠ 0 := (Nat.pow_pos (by decide)).ne'
      have hquotient : (digits : ℚ) * 10 ^ (-(k : Int)) = digits / (Nat.pow 10 k : ℕ) := by
        push_cast [Nat.pow_eq]
        rw [zpow_neg, zpow_natCast]
        rfl
      rw [hquotient] at h
      rw [neg_neg, Int.toNat_natCast, ofRatio?_of_rounds hx hden h, Option.getD_some]

end Binary

end Statechart
