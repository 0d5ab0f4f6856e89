/-
# The text of a float denotes it

A float is written with the fewest digits that read back, and the proof that they do is what makes
the text of a float stand for it.  The decimal that is written need not be the exact value; what
matters is that it lies among the reals that round to the double, and that no real rounds to two.

* `Binary.Rounds`: a magnitude rounds to a double, a tie going to the even mantissa;
  `Binary.Rounds.unique`: to one double only, although neighbouring windows share an end;
* `Shortest.rounds_digits`: the search over decimal grids comes to one that meets the window before
  its turns are used up, so the digits it returns denote a magnitude that rounds to the double;
* `FloatStyle.write_finite`: the text, read as a decimal, denotes what the digits denote, whether it
  is positional or has an exponent;
* **`jsonFloat_inj`**: distinct floats have distinct texts, the two zeros and the three words for what
  is no number included.
-/
import Statechart.Number.Shortest
import Statechart.Number.Numeral
import Mathlib.Algebra.Order.Field.Power
import Mathlib.Algebra.Order.Floor.Semifield
import Mathlib.Data.Rat.Floor
import Mathlib.Data.Rat.Cast.Order
import Mathlib.Tactic.Linarith
import Mathlib.Tactic.NormNum
import Mathlib.Tactic.Positivity
import Mathlib.Tactic.Ring

namespace Statechart

namespace Binary

/-! ## 1. Doubles -/

/-- A mantissa of 53 bits and an exponent; every mantissa but those of the least exponent has all of its
bits. -/
structure IsScaled (b : Binary) : Prop where
  mantissa_lt : b.mantissa < 2 ^ 53
  le_exponent : -1074 ≤ b.exponent
  normal : 2 ^ 52 ≤ b.mantissa ∨ b.exponent = -1074

/-- The sign, mantissa and exponent of a double, each in its range. -/
structure IsDouble (b : Binary) : Prop extends IsScaled b where
  exponent_le : b.exponent ≤ 971

/-- The parts of a finite float are those of a double. -/
theorem isDouble_of_ofFloat? {x : Float} {b : Binary} (h : ofFloat? x = some b) : b.IsDouble := by
  simp only [ofFloat?, Nat.pow_eq] at h
  have hbits := x.toBits.toNat_lt
  generalize x.toBits.toNat = bits at h hbits
  split at h
  · cases h
  split at h
  · cases h
    refine ⟨⟨?_, ?_, ?_⟩, ?_⟩ <;> simp
    omega
  · cases h
    refine ⟨⟨?_, ?_, ?_⟩, ?_⟩ <;> simp <;> omega

/-- A float is given by its bits: there is one float that is not a number. -/
theorem toBits_inj {x y : Float} (h : x.toBits.toNat = y.toBits.toNat) : x = y := by
  obtain ⟨⟨bx, vx⟩⟩ := x
  obtain ⟨⟨bY, vy⟩⟩ := y
  have : bx = bY := UInt64.toNat_inj.mp h
  subst this
  rfl

/-- A finite float is given by its parts. -/
theorem ofFloat?_inj {x y : Float} {b : Binary} (hx : ofFloat? x = some b) (hy : ofFloat? y = some b) :
    x = y := by
  refine toBits_inj ?_
  simp only [ofFloat?, Nat.pow_eq] at hx hy
  have hx' := x.toBits.toNat_lt
  have hy' := y.toBits.toNat_lt
  generalize x.toBits.toNat = bits at hx hx' ⊢
  generalize y.toBits.toNat = bits' at hy hy' ⊢
  split at hx
  · cases hx
  split at hy
  · cases hy
  split at hx <;> split at hy <;> simp only [Option.some.injEq] at hx hy <;> subst hx <;>
    simp only [mk.injEq, decide_eq_decide] at hy <;> omega

theorem toNat_unpackExponent (x : Float) :
    (@Float.Model.UnpackedFloat.unpackExponent .binary64 x.toModel.toBits.toBitVec).toNat =
      x.toBits.toNat / 2 ^ 52 % 2048 := by
  simp [Float.Model.UnpackedFloat.unpackExponent, Nat.shiftRight_eq_div_pow]
  rfl

theorem toNat_unpackMantissa (x : Float) :
    (@Float.Model.UnpackedFloat.unpackMantissa .binary64 x.toModel.toBits.toBitVec).toNat =
      x.toBits.toNat % 2 ^ 52 := by
  simp [Float.Model.UnpackedFloat.unpackMantissa]
  rfl

/-- There are three floats without a value. -/
theorem ofFloat?_eq_none {x : Float} (h : ofFloat? x = none) :
    x = notANumber ∨ x = infinite false ∨ x = infinite true := by
  have hnan : notANumber.toBits.toNat = 2047 * 2 ^ 52 + 2 ^ 51 := by decide +kernel
  have hpos : (infinite false).toBits.toNat = 2047 * 2 ^ 52 := by decide +kernel
  have hneg : (infinite true).toBits.toNat = 2 ^ 63 + 2047 * 2 ^ 52 := by decide +kernel
  have hbits := x.toBits.toNat_lt
  have hbiased : x.toBits.toNat / 2 ^ 52 % 2048 = 2047 := by
    simp only [ofFloat?, Nat.pow_eq] at h
    split at h
    · assumption
    · split at h <;> cases h
  by_cases hfraction : x.toBits.toNat % 2 ^ 52 = 0
  · refine .inr ?_
    by_cases hsign : x.toBits.toNat < 2 ^ 63
    · exact .inl (toBits_inj (by omega))
    · exact .inr (toBits_inj (by omega))
  · refine .inl (toBits_inj ?_)
    have hvalid := x.toModel.valid.eq_packedNaN
    have hone : @Float.Model.UnpackedFloat.unpackExponent .binary64 x.toModel.toBits.toBitVec = (-1#_) :=
      BitVec.eq_of_toNat_eq ((toNat_unpackExponent x).trans hbiased)
    have hne : @Float.Model.UnpackedFloat.unpackMantissa .binary64 x.toModel.toBits.toBitVec ≠ 0#_ := by
      intro hzero
      exact hfraction ((toNat_unpackMantissa x).symm.trans (congrArg BitVec.toNat hzero))
    have := congrArg BitVec.toNat (hvalid hone hne)
    rw [hnan]
    exact this.trans (by decide +kernel)

/-! ## 2. The magnitudes that round to a double -/

/-- A quarter of the step from a double to the next one of the same exponent. -/
def quarter (b : Binary) : ℚ := (2 : ℚ) ^ (b.exponent - 2)

/-- The quarters between a double and the lower end of the reals that round to it: one only where the
step below is half of the step above. -/
def slack (b : Binary) : ℚ := if b.mantissa = 2 ^ 52 ∧ -1074 < b.exponent then 1 else 2

/-- The ends of the reals that round to a double. -/
def lower (b : Binary) : ℚ := (4 * b.mantissa - b.slack) * b.quarter

def upper (b : Binary) : ℚ := (4 * b.mantissa + 2) * b.quarter

/-- The magnitude rounds to the double, a tie going to the even mantissa. -/
def Rounds (b : Binary) (x : ℚ) : Prop :=
  if b.mantissa % 2 = 0 then b.lower ≤ x ∧ x ≤ b.upper else b.lower < x ∧ x < b.upper

theorem quarter_pos (b : Binary) : 0 < b.quarter := by
  unfold quarter
  positivity

theorem slack_pos (b : Binary) : 0 < b.slack := by
  unfold slack
  split <;> norm_num

theorem slack_le (b : Binary) : b.slack ≤ 2 := by
  unfold slack
  split <;> norm_num

theorem rounds_of_lt {b : Binary} {x : ℚ} (hlower : b.lower < x) (hupper : x < b.upper) : b.Rounds x := by
  unfold Rounds
  split
  · exact ⟨hlower.le, hupper.le⟩
  · exact ⟨hlower, hupper⟩

theorem Rounds.le {b : Binary} {x : ℚ} (h : b.Rounds x) : b.lower ≤ x ∧ x ≤ b.upper := by
  unfold Rounds at h
  split at h
  · exact h
  · exact ⟨h.1.le, h.2.le⟩

/-- Only doubles of even mantissa keep the ends. -/
theorem Rounds.even {b : Binary} {x : ℚ} (h : b.Rounds x) (hend : x = b.lower ∨ x = b.upper) :
    b.mantissa % 2 = 0 := by
  by_contra hodd
  simp only [Rounds, if_neg hodd] at h
  rcases hend with rfl | rfl
  · exact lt_irrefl _ h.1
  · exact lt_irrefl _ h.2

theorem Rounds.pos {b : Binary} {x : ℚ} (h : b.Rounds x) (hm : b.mantissa ≠ 0) : 0 < x := by
  have hone : (1 : ℚ) ≤ b.mantissa := by exact_mod_cast Nat.one_le_iff_ne_zero.mpr hm
  have hlower : 0 < b.lower := mul_pos (by linarith [b.slack_le]) b.quarter_pos
  exact lt_of_lt_of_le hlower h.le.1

/-- Doubles one of which ends where the other one begins, or before, share at most that end, and only
if both of them are even. -/
theorem Rounds.meet {b c : Binary} {x : ℚ} (hb : b.Rounds x) (hc : c.Rounds x) (h : b.upper ≤ c.lower) :
    b.upper = c.lower ∧ b.mantissa % 2 = 0 ∧ c.mantissa % 2 = 0 := by
  have hupper : x = b.upper := le_antisymm hb.le.2 (h.trans hc.le.1)
  have hlower : x = c.lower := le_antisymm (hb.le.2.trans h) hc.le.1
  exact ⟨hupper.symm.trans hlower, hb.even (.inr hupper), hc.even (.inl hlower)⟩

/-- Of two doubles of one exponent the lesser ends where the other one begins, or before. -/
theorem Rounds.not_lt {b c : Binary} {x : ℚ} (hb : b.Rounds x) (hc : c.Rounds x)
    (he : b.exponent = c.exponent) : ¬ b.mantissa < c.mantissa := by
  intro hlt
  have hq : b.quarter = c.quarter := by rw [quarter, quarter, he]
  have hstep : (b.mantissa : ℚ) + 1 ≤ c.mantissa := by exact_mod_cast hlt
  have hle : b.upper ≤ c.lower := by
    rw [upper, lower, hq]
    exact mul_le_mul_of_nonneg_right (by linarith [c.slack_le]) c.quarter_pos.le
  obtain ⟨hends, hbe, hce⟩ := hb.meet hc hle
  -- the even mantissas would be neighbours
  have hnext : (c.mantissa : ℚ) ≤ b.mantissa + 1 := by
    rw [upper, lower, hq] at hends
    have := mul_right_cancel₀ c.quarter_pos.ne' hends
    linarith [c.slack_le]
  have : c.mantissa ≤ b.mantissa + 1 := by exact_mod_cast hnext
  omega

/-- The largest double of an exponent ends where the least one of the next exponent begins. -/
theorem IsScaled.upper_le {b : Binary} (h : b.IsScaled) : b.upper ≤ (2 ^ 55 - 2) * b.quarter := by
  have hlt := h.mantissa_lt
  have hm : (b.mantissa : ℚ) + 1 ≤ 2 ^ 53 := by exact_mod_cast hlt
  exact mul_le_mul_of_nonneg_right (by linarith) b.quarter_pos.le

theorem IsScaled.le_lower {b : Binary} (h : b.IsScaled) (he : -1074 < b.exponent) :
    (2 ^ 54 - 1) * b.quarter ≤ b.lower := by
  have hfull : 2 ^ 52 ≤ b.mantissa := by
    rcases h.normal with h | h
    · exact h
    · omega
  refine mul_le_mul_of_nonneg_right ?_ b.quarter_pos.le
  by_cases hm : b.mantissa = 2 ^ 52
  · simp only [slack, hm, true_and, if_pos he]
    norm_num
  · have : (2 ^ 52 + 1 : ℚ) ≤ b.mantissa := by exact_mod_cast (by omega : 2 ^ 52 + 1 ≤ b.mantissa)
    linarith [b.slack_le]

/-- A double of lesser exponent ends where the other one begins, or before. -/
theorem Rounds.not_exponent_lt {b c : Binary} {x : ℚ} (hb : b.Rounds x) (hc : c.Rounds x)
    (hdb : b.IsScaled) (hdc : c.IsScaled) : ¬ b.exponent < c.exponent := by
  intro hlt
  have hleast := hdb.le_exponent
  have hquarter : 2 * b.quarter ≤ c.quarter := by
    calc 2 * b.quarter = (2 : ℚ) ^ (b.exponent - 2 + 1) := by
          rw [quarter, zpow_add_one₀ (by norm_num)]; ring
      _ ≤ c.quarter := zpow_le_zpow_right₀ (by norm_num) (by omega)
  have hgap : (2 ^ 55 - 2) * b.quarter ≤ c.lower := by
    have := hdc.le_lower (by omega)
    linarith
  obtain ⟨hends, heven, -⟩ := hb.meet hc (hdb.upper_le.trans hgap)
  -- the only common point is the upper end of the largest mantissa, which is odd
  have hmax : b.upper = (2 ^ 55 - 2) * b.quarter := le_antisymm hdb.upper_le (hgap.trans_eq hends.symm)
  have hodd : (b.mantissa : ℚ) + 1 = 2 ^ 53 := by
    have := mul_right_cancel₀ b.quarter_pos.ne' hmax
    linarith
  have : b.mantissa + 1 = 2 ^ 53 := by exact_mod_cast hodd
  omega

/-- No magnitude rounds to two doubles. -/
theorem Rounds.unique {b c : Binary} {x : ℚ} (hb : b.Rounds x) (hc : c.Rounds x)
    (hdb : b.IsScaled) (hdc : c.IsScaled) : b.mantissa = c.mantissa ∧ b.exponent = c.exponent := by
  have he : b.exponent = c.exponent := by
    have h1 := hb.not_exponent_lt hc hdb hdc
    have h2 := hc.not_exponent_lt hb hdc hdb
    omega
  have h1 := hb.not_lt hc he
  have h2 := hc.not_lt hb he.symm
  exact ⟨by omega, he⟩

end Binary

namespace Shortest

/-! ## 3. The search for the shortest decimal -/

open Binary

variable {b : Binary}

/-- A point of a decimal grid. -/
theorem point_eq (n : Nat) (k : Int) :
    0 < (point n k).2 ∧ ((point n k).1 : ℚ) = n * 10 ^ k * (point n k).2 := by
  unfold point
  split
  next hk =>
    lift k to ℕ using hk
    simp
  next hk =>
    obtain ⟨j, rfl⟩ : ∃ j : ℕ, k = -j := ⟨(-k).toNat, by omega⟩
    simp

/-- The ends of a window are those of the reals that round to the double, over its denominator. -/
theorem window_eq (hm : b.mantissa ≠ 0) :
    0 < (Window.of b).den ∧
    ((Window.of b).low : ℚ) = b.lower * (Window.of b).den ∧
    ((Window.of b).value : ℚ) = 4 * b.mantissa * b.quarter * (Window.of b).den ∧
    ((Window.of b).high : ℚ) = b.upper * (Window.of b).den ∧
    (Window.of b).closed = decide (b.mantissa % 2 = 0) := by
  have hlow : ((4 * b.mantissa - (if b.mantissa = 2 ^ 52 ∧ -1074 < b.exponent then 1 else 2) : ℕ) : ℚ) =
      4 * b.mantissa - b.slack := by
    unfold slack
    split <;> rw [Nat.cast_sub (by omega)] <;> push_cast <;> rfl
  simp only [Window.of, Nat.pow_eq, lower, upper]
  generalize hl : 4 * b.mantissa - (if b.mantissa = 2 ^ 52 ∧ -1074 < b.exponent then 1 else 2) = low at *
  split
  next he =>
    have hq : b.quarter = ((2 ^ (b.exponent - 2).toNat : ℕ) : ℚ) := by
      rw [quarter, Nat.cast_pow, ← zpow_natCast, Int.toNat_of_nonneg he]
      rfl
    simp [hq, hlow]
  next he =>
    have hq : b.quarter * ((2 ^ (-(b.exponent - 2)).toNat : ℕ) : ℚ) = 1 := by
      rw [quarter, Nat.cast_pow, ← zpow_natCast, Int.toNat_of_nonneg (by omega), Nat.cast_ofNat,
        ← zpow_add₀ (by norm_num)]
      simp
    simp only [mul_assoc, hq, mul_one, hlow]
    simp

theorem contains_iff (hm : b.mantissa ≠ 0) (n : Nat) (k : Int) :
    (Window.of b).contains (point n k).1 (point n k).2 = true ↔ b.Rounds (n * 10 ^ k) := by
  obtain ⟨hden, hlow, -, hhigh, hclosed⟩ := window_eq hm
  obtain ⟨hscale, hpoint⟩ := point_eq n k
  generalize Window.of b = w at *
  generalize (point n k).1 = num at *
  generalize (point n k).2 = den at *
  have hdenq : (0 : ℚ) < w.den * den := by positivity
  have hleft (x : ℚ) (y : ℕ) (hy : (y : ℚ) = x * w.den) :
      (y * den ≤ num * w.den ↔ x ≤ n * 10 ^ k) ∧ (y * den < num * w.den ↔ x < n * 10 ^ k) := by
    have h1 : ((y * den : ℕ) : ℚ) = x * (w.den * den) := by push_cast; rw [hy]; ring
    have h2 : ((num * w.den : ℕ) : ℚ) = n * 10 ^ k * (w.den * den) := by push_cast; rw [hpoint]; ring
    constructor
    · rw [← @Nat.cast_le ℚ, h1, h2, mul_le_mul_iff_left₀ hdenq]
    · rw [← @Nat.cast_lt ℚ, h1, h2, mul_lt_mul_iff_left₀ hdenq]
  have hright (x : ℚ) (y : ℕ) (hy : (y : ℚ) = x * w.den) :
      (num * w.den ≤ y * den ↔ n * 10 ^ k ≤ x) ∧ (num * w.den < y * den ↔ n * 10 ^ k < x) := by
    have h := hleft x y hy
    constructor
    · rw [← not_lt, h.2, not_lt]
    · rw [← not_le, h.1, not_le]
  unfold Window.contains Rounds
  rw [hclosed]
  by_cases heven : b.mantissa % 2 = 0
  · simp [heven, (hleft _ _ hlow).1, (hright _ _ hhigh).1]
  · simp [heven, (hleft _ _ hlow).2, (hright _ _ hhigh).2]

/-- The multiple of `10^k` next to the value of a window, or on it. -/
def beneath (w : Window) (k : Int) : Nat :=
  if 0 ≤ k then w.value / (w.den * Nat.pow 10 k.toNat) else w.value * Nat.pow 10 (-k).toNat / w.den

/-- What is found on a grid is in the window; if nothing is, the point above the value is not in it. -/
theorem onGrid?_cases (w : Window) (k : Int) :
    (∃ n, onGrid? w k = some n ∧ w.contains (point n k).1 (point n k).2 = true) ∨
    (onGrid? w k = none ∧
      w.contains (point (beneath w k + 1) k).1 (point (beneath w k + 1) k).2 = false) := by
  generalize hr : onGrid? w k = r
  unfold onGrid? at hr
  extract_lets below inside gap at hr
  cases hlow : inside below <;> cases hhigh : inside (below + 1) <;> simp only [hlow, hhigh] at hr
  · exact .inr ⟨hr.symm, hhigh⟩
  · exact .inl ⟨_, hr.symm, hhigh⟩
  · exact .inl ⟨_, hr.symm, hlow⟩
  · refine .inl ?_
    split at hr
    · exact ⟨_, hr.symm, hlow⟩
    split at hr
    · exact ⟨_, hr.symm, hhigh⟩
    split at hr
    · exact ⟨_, hr.symm, hlow⟩
    · exact ⟨_, hr.symm, hhigh⟩

theorem beneath_eq_floor (w : Window) (k : Int) :
    beneath w k = ⌊(w.value : ℚ) / w.den / 10 ^ k⌋₊ := by
  unfold beneath
  split
  next hk =>
    lift k to ℕ using hk
    rw [← @Nat.floor_div_eq_div ℚ]
    simp [div_div]
  next hk =>
    obtain ⟨j, rfl⟩ : ∃ j : ℕ, k = -j := ⟨(-k).toNat, by omega⟩
    rw [← @Nat.floor_div_eq_div ℚ]
    simp [div_mul_eq_mul_div]

/-- The value of a double lies between neighbouring points of each grid. -/
theorem beneath_le (hm : b.mantissa ≠ 0) (k : Int) :
    (beneath (Window.of b) k : ℚ) * 10 ^ k ≤ 4 * b.mantissa * b.quarter ∧
    4 * b.mantissa * b.quarter < ((beneath (Window.of b) k + 1 : ℕ) : ℚ) * 10 ^ k := by
  obtain ⟨hden, -, hvalue, -, -⟩ := window_eq hm
  have hdenq : ((Window.of b).den : ℚ) ≠ 0 := by exact_mod_cast hden.ne'
  have hpow : (0 : ℚ) < 10 ^ k := by positivity
  have hquarter := b.quarter_pos
  rw [beneath_eq_floor, hvalue, mul_div_cancel_right₀ _ hdenq]
  constructor
  · exact (le_div_iff₀ hpow).mp (Nat.floor_le (by positivity))
  · rw [Nat.cast_succ]
    exact (div_lt_iff₀ hpow).mp (Nat.lt_floor_add_one _)

/-- What is found on a grid rounds to the double. -/
theorem rounds_of_onGrid? (hm : b.mantissa ≠ 0) {k : Int} {n : Nat}
    (h : onGrid? (Window.of b) k = some n) : b.Rounds (n * 10 ^ k) := by
  rcases onGrid?_cases (Window.of b) k with ⟨m, hm', hin⟩ | ⟨hnone, -⟩
  · rw [h] at hm'
    cases hm'
    exact (contains_iff hm n k).mp hin
  · simp [h] at hnone

/-- A grid finer than half the step of the double meets its window. -/
theorem onGrid?_isSome (hm : b.mantissa ≠ 0) {k : Int} (hk : (10 : ℚ) ^ k < 2 * b.quarter) :
    ∃ n, onGrid? (Window.of b) k = some n := by
  rcases onGrid?_cases (Window.of b) k with ⟨n, hn, -⟩ | ⟨-, hout⟩
  · exact ⟨n, hn⟩
  -- the point above the value lies strictly between the value and the upper end
  obtain ⟨hle, hlt⟩ := beneath_le hm k
  have hslack : 0 < b.slack * b.quarter := mul_pos b.slack_pos b.quarter_pos
  have hrounds : b.Rounds ((beneath (Window.of b) k + 1 : ℕ) * 10 ^ k) := by
    refine rounds_of_lt ?_ ?_
    · unfold lower
      linarith
    · unfold upper
      push_cast
      linarith
  rw [← contains_iff hm, hout] at hrounds
  cases hrounds

/-- A search that comes to a grid with a hit ends at one. -/
theorem search_hits (hm : b.mantissa ≠ 0) (fuel : Nat) (k : Int)
    (h : ∃ j : Nat, j ≤ fuel ∧ (10 : ℚ) ^ (k - j) < 2 * b.quarter) :
    b.Rounds ((search (Window.of b) fuel k).1 * 10 ^ (search (Window.of b) fuel k).2) := by
  obtain ⟨j, hj, hfine⟩ := h
  induction fuel generalizing k j with
  | zero =>
    obtain rfl : j = 0 := by omega
    obtain ⟨n, hn⟩ := onGrid?_isSome hm (by simpa using hfine)
    simpa [search, hn] using rounds_of_onGrid? hm hn
  | succ fuel ih =>
    unfold search
    cases hgrid : onGrid? (Window.of b) k with
    | none =>
      have hne : j ≠ 0 := by
        rintro rfl
        obtain ⟨n, hn⟩ := onGrid?_isSome hm (by simpa using hfine)
        simp [hn] at hgrid
      exact ih (k - 1) (j - 1) (by omega) (by convert hfine using 2; omega)
    | some n =>
      have hrounds := rounds_of_onGrid? hm hgrid
      have hn : n ≠ 0 := by
        rintro rfl
        simpa using hrounds.pos hm
      simpa [hn] using hrounds

/-- Trailing zeros that become part of the exponent leave the value as it is. -/
theorem trim_value (fuel : Nat) (d : Nat × Int) :
    ((trim fuel d).1 : ℚ) * 10 ^ (trim fuel d).2 = d.1 * 10 ^ d.2 := by
  induction fuel generalizing d with
  | zero => rfl
  | succ fuel ih =>
    obtain ⟨n, k⟩ := d
    unfold trim
    split
    next h =>
      have hn : ((n / 10 : ℕ) : ℚ) * 10 = n := by
        exact_mod_cast Nat.div_mul_cancel (Nat.dvd_of_mod_eq_zero h.1)
      rw [ih, zpow_add_one₀ (by norm_num), ← hn]
      ring
    next => rfl

/-- A power of ten below a power of two, by `10^3 < 2^10` and `2^33 < 10^10`. -/
theorem ten_zpow_lt_two_zpow {q p : Int} (hpos : 0 ≤ q → 10 * q < 3 * p)
    (hneg : q < 0 → 33 * q ≤ 10 * p) : (10 : ℚ) ^ q < 2 ^ p := by
  rcases Int.lt_or_le q 0 with hq | hq
  · refine lt_of_pow_lt_pow_left₀ 10 (by positivity) ?_
    obtain ⟨j, rfl⟩ : ∃ j : ℕ, q = -(j + 1 : ℕ) := ⟨(-q).toNat - 1, by omega⟩
    calc ((10 : ℚ) ^ (-((j + 1 : ℕ) : ℤ))) ^ 10 = ((10 ^ 10 : ℚ) ^ (j + 1))⁻¹ := by
          rw [zpow_neg, zpow_natCast, inv_pow, ← pow_mul, ← pow_mul, mul_comm]
      _ < ((2 ^ 33 : ℚ) ^ (j + 1))⁻¹ :=
          inv_strictAnti₀ (by positivity) (pow_lt_pow_left₀ (by norm_num) (by norm_num) (by omega))
      _ = (2 : ℚ) ^ (33 * -((j + 1 : ℕ) : ℤ)) := by
          rw [zpow_mul, zpow_neg, zpow_natCast]
          rfl
      _ ≤ (2 : ℚ) ^ (10 * p) := zpow_le_zpow_right₀ (by norm_num) (hneg hq)
      _ = ((2 : ℚ) ^ p) ^ 10 := by rw [mul_comm, zpow_mul]; rfl
  · refine lt_of_pow_lt_pow_left₀ 3 (by positivity) ?_
    lift q to ℕ using hq
    calc ((10 : ℚ) ^ (q : ℤ)) ^ 3 = (10 ^ 3 : ℚ) ^ q := by
          rw [zpow_natCast, ← pow_mul, ← pow_mul, mul_comm]
      _ ≤ (2 ^ 10 : ℚ) ^ q := pow_le_pow_left₀ (by norm_num) (by norm_num) q
      _ = (2 : ℚ) ^ (10 * (q : ℤ)) := by rw [zpow_mul, zpow_natCast]; rfl
      _ < (2 : ℚ) ^ (3 * p) := zpow_lt_zpow_right₀ (by norm_num) (hpos (by omega))
      _ = ((2 : ℚ) ^ p) ^ 3 := by rw [mul_comm, zpow_mul]; rfl

/-- The shortest digits of a double denote a magnitude that rounds to it. -/
theorem rounds_digits (hd : b.IsDouble) (hm : b.mantissa ≠ 0) :
    b.Rounds ((digits b).1 * 10 ^ (digits b).2) := by
  unfold digits
  rw [trim_value]
  refine search_hits hm 24 _ ⟨24, Nat.le_refl _, ?_⟩
  have hlog : b.mantissa.log2 < 53 := (Nat.log2_lt hm).mpr hd.mantissa_lt
  have h1 := hd.le_exponent
  have h2 := hd.exponent_le
  have hhalf : 2 * b.quarter = (2 : ℚ) ^ (b.exponent - 1) := by
    rw [quarter, show b.exponent - 1 = b.exponent - 2 + 1 by omega, zpow_add_one₀ (by norm_num)]
    ring
  rw [hhalf]
  exact ten_zpow_lt_two_zpow (by omega) (by omega)

end Shortest
namespace Numeral

/-- Digits of ASCII only. -/
def AreDigits (cs : List Char) : Prop := ∀ c ∈ cs, c.isDigit = true

/-- The values of digits of ASCII. -/
def valuesOf (cs : List Char) : List Nat := cs.map fun c => c.toNat - '0'.toNat

theorem decimalValue?_of_isDigit {c : Char} (h : c.isDigit = true) :
    decimalValue? c = some (c.toNat - '0'.toNat) := by
  have hlt : c.toNat < 128 := by
    simp only [Char.isDigit, Bool.and_eq_true, decide_eq_true_eq] at h
    have : c.toNat ≤ '9'.toNat := h.2
    simp at this
    omega
  simp [decimalValue?, hlt, h]

theorem digitRun?_of_areDigits (cs : List Char) (h : AreDigits cs) (hne : cs ≠ []) :
    digitRun? cs = some (valuesOf cs) := by
  induction cs with
  | nil => cases hne rfl
  | cons c cs ih =>
    have hc : decimalValue? c = some (c.toNat - '0'.toNat) := decimalValue?_of_isDigit (h c (by simp))
    cases cs with
    | nil => simp [digitRun?, hc, valuesOf]
    | cons d ds =>
      have hd : d ≠ '_' := by
        rintro rfl
        exact absurd (h '_' (by simp)) (by decide)
      have hrest := ih (fun x hx => h x (by simp [hx])) (by simp)
      simp only [digitRun?, hc, Option.bind_eq_bind, Option.bind_some, if_neg hd, hrest]
      rfl

theorem optionalRun?_of_areDigits (cs : List Char) (h : AreDigits cs) :
    optionalRun? cs = some (valuesOf cs) := by
  unfold optionalRun?
  cases cs with
  | nil => rfl
  | cons c cs => simpa using digitRun?_of_areDigits (c :: cs) h (by simp)

theorem valueOf_valuesOf (cs : List Char) : valueOf (valuesOf cs) = Nat.ofDigitChars 10 cs 0 := by
  simp only [valueOf, valuesOf, List.foldl_map, Nat.ofDigitChars]

/-- A text without the character is not cut. -/
theorem cut_append {p : Char → Bool} {xs : List Char} (h : ∀ c ∈ xs, p c = false) (ys : List Char)
    (hys : ys = [] ∨ ∃ y zs, ys = y :: zs ∧ p y = true) : cut p (xs ++ ys) = (xs, ys) := by
  unfold cut
  rw [List.takeWhile_append_of_pos (by simpa using h), List.dropWhile_append_of_pos (by simpa using h)]
  rcases hys with rfl | ⟨y, zs, rfl, hy⟩
  · simp
  · simp [hy]

/-- Where two texts that go on are cut is known from the whole. -/
theorem cut_inj {p : Char → Bool} {xs ys r q : List Char} (hxs : ∀ c ∈ xs, p c = false)
    (hys : ∀ c ∈ ys, p c = false) (hr : r = [] ∨ ∃ c cs, r = c :: cs ∧ p c = true)
    (hq : q = [] ∨ ∃ c cs, q = c :: cs ∧ p c = true) (h : xs ++ r = ys ++ q) : xs = ys ∧ r = q := by
  have heq := cut_append hxs r hr
  rw [h, cut_append hys q hq] at heq
  simp only [Prod.mk.injEq] at heq
  exact ⟨heq.1.symm, heq.2.symm⟩

/-- The digits of a decimal before the point: no zero leads, but for a lone one. -/
def IsLed (whole : List Char) : Prop := whole = ['0'] ∨ ∃ d ds, whole = d :: ds ∧ d ≠ '0'

/-- The fraction of a decimal with its point; both are left out if there is no fraction. -/
def IsTail (point fraction : List Char) : Prop :=
  point = '.' :: fraction ∧ fraction ≠ [] ∨ point = [] ∧ fraction = []

/-- The exponent of a decimal with its mark; without a mark the exponent is zero. -/
inductive IsScale : List Char → Int → Prop
  | none : IsScale [] 0
  | plus (cs : List Char) (h : AreDigits cs) (hne : cs ≠ []) :
    IsScale ('e' :: '+' :: cs) (Nat.ofDigitChars 10 cs 0)
  | minus (cs : List Char) (h : AreDigits cs) (hne : cs ≠ []) :
    IsScale ('e' :: '-' :: cs) (-(Nat.ofDigitChars 10 cs 0 : Int))

theorem decimal?_of_parts {whole point fraction scale : List Char} {exponent : Int}
    (hwhole : AreDigits whole) (hne : whole ≠ []) (hfraction : AreDigits fraction)
    (hpoint : IsTail point fraction) (hscale : IsScale scale exponent) :
    decimal? (whole ++ point ++ scale) = some (valuesOf whole, valuesOf fraction, exponent) := by
  have hdigit {p : Char → Bool} (cs : List Char) (h : AreDigits cs)
      (hp : ∀ c : Char, c.isDigit = true → p c = false) : ∀ c ∈ cs, p c = false :=
    fun c hc => hp c (h c hc)
  have hmark : cut (fun c => c = 'e' ∨ c = 'E') (whole ++ point ++ scale) = (whole ++ point, scale) := by
    refine cut_append ?_ scale ?_
    · have hno (c : Char) (hc : c.isDigit = true) : decide (c = 'e' ∨ c = 'E') = false := by
        rw [decide_eq_false_iff_not]
        rintro (rfl | rfl) <;> exact absurd hc (by decide)
      intro c hc
      rcases List.mem_append.mp hc with hc | hc
      · exact hdigit whole hwhole hno c hc
      · rcases hpoint with ⟨rfl, -⟩ | ⟨rfl, -⟩
        · rcases List.mem_cons.mp hc with rfl | hc
          · decide
          · exact hdigit fraction hfraction hno c hc
        · cases hc
    · cases hscale <;> simp
  have hdot : cut (fun c => c = '.') (whole ++ point) = (whole, point) := by
    refine cut_append (hdigit whole hwhole ?_) point ?_
    · intro c hc
      rw [decide_eq_false_iff_not]
      rintro rfl
      exact absurd hc (by decide)
    · rcases hpoint with ⟨rfl, -⟩ | ⟨rfl, -⟩ <;> simp
  have htail : point.tail = fraction := by
    rcases hpoint with ⟨rfl, -⟩ | ⟨rfl, rfl⟩ <;> rfl
  have hsome : valuesOf whole ≠ [] := by simpa [valuesOf] using hne
  unfold decimal?
  simp only [hmark, hdot]
  simp only [htail, optionalRun?_of_areDigits whole hwhole, optionalRun?_of_areDigits fraction hfraction]
  cases hscale with
  | none => simp [hsome]
  | plus cs h hne => simp [hsome, exponent?, sign, digitRun?_of_areDigits cs h hne, valueOf_valuesOf]
  | minus cs h hne => simp [hsome, exponent?, sign, digitRun?_of_areDigits cs h hne, valueOf_valuesOf]

/-- The magnitude that a decimal denotes. -/
def Denotes (cs : List Char) (x : ℚ) : Prop :=
  ∃ whole fraction exponent, decimal? cs = some (whole, fraction, exponent) ∧
    x = valueOf (whole ++ fraction) * 10 ^ (exponent - fraction.length)

theorem Denotes.unique {cs : List Char} {x y : ℚ} (hx : Denotes cs x) (hy : Denotes cs y) : x = y := by
  obtain ⟨w, f, e, h, rfl⟩ := hx
  obtain ⟨w', f', e', h', rfl⟩ := hy
  rw [h] at h'
  cases h'
  rfl

/-- A decimal whose text cannot be mistaken for an integer: digits of ASCII with a point or an exponent. -/
structure Spells (cs : List Char) (x : ℚ) : Prop where
  denotes : Denotes cs x
  head : ∃ d ds, cs = d :: ds ∧ d.isDigit = true
  marked : '.' ∈ cs ∨ 'e' ∈ cs
  chars : ∀ c ∈ cs, c.isDigit = true ∨ c ∈ ['.', 'e', '+', '-']
  parts : ∃ whole fraction point scale exponent, cs = whole ++ point ++ scale ∧ AreDigits whole ∧ IsLed whole ∧
    AreDigits fraction ∧ IsTail point fraction ∧ IsScale scale exponent ∧ point ++ scale ≠ []

theorem IsLed.ne_nil {whole : List Char} (h : IsLed whole) : whole ≠ [] := by
  rcases h with rfl | ⟨d, ds, rfl, -⟩ <;> simp

theorem spells_of_parts (whole fraction : List Char) {point scale : List Char} {exponent k : Int}
    (hwhole : AreDigits whole) (hled : IsLed whole) (hfraction : AreDigits fraction)
    (hpoint : IsTail point fraction) (hscale : IsScale scale exponent) (hsome : point ++ scale ≠ [])
    (hk : exponent - fraction.length = k) :
    Spells (whole ++ point ++ scale) (Nat.ofDigitChars 10 (whole ++ fraction) 0 * 10 ^ k) where
  denotes := by
    refine ⟨_, _, _, decimal?_of_parts hwhole hled.ne_nil hfraction hpoint hscale, ?_⟩
    rw [← hk, ← valueOf_valuesOf]
    simp [valuesOf]
  head := by
    cases whole with
    | nil => exact absurd rfl hled.ne_nil
    | cons d ds => exact ⟨d, ds ++ point ++ scale, rfl, hwhole d (by simp)⟩
  marked := by
    rcases hpoint with ⟨rfl, -⟩ | ⟨rfl, -⟩
    · simp
    · cases hscale with
      | none => cases hsome rfl
      | plus | minus => simp
  chars := by
    intro c hc
    simp only [List.mem_append] at hc
    rcases hc with (hc | hc) | hc
    · exact .inl (hwhole c hc)
    · rcases hpoint with ⟨rfl, -⟩ | ⟨rfl, -⟩
      · rcases List.mem_cons.mp hc with rfl | hc
        · exact .inr (by simp)
        · exact .inl (hfraction c hc)
      · cases hc
    · cases hscale with
      | none => cases hc
      | plus cs h hne | minus cs h hne =>
        simp only [List.mem_cons] at hc
        rcases hc with rfl | rfl | hc
        · exact .inr (by simp)
        · exact .inr (by simp)
        · exact .inl (h c hc)
  parts := ⟨whole, fraction, point, scale, exponent, rfl, hwhole, hled, hfraction, hpoint, hscale, hsome⟩

theorem areDigits_replicate (n : Nat) : AreDigits (List.replicate n '0') := by
  intro c hc
  rw [List.eq_of_mem_replicate hc]
  decide

theorem AreDigits.append {cs ds : List Char} (hcs : AreDigits cs) (hds : AreDigits ds) :
    AreDigits (cs ++ ds) := by
  intro c hc
  rcases List.mem_append.mp hc with hc | hc
  · exact hcs c hc
  · exact hds c hc

theorem areDigits_toDigits (n : Nat) : AreDigits (Nat.toDigits 10 n) :=
  fun _ hc => Nat.isDigit_of_mem_toDigits (by decide) (by decide) hc

/-- No zero leads the digits of a number other than zero. -/
theorem exists_lead {n : Nat} (hn : n ≠ 0) : ∃ d rest, Nat.toDigits 10 n = d :: rest ∧ d ≠ '0' := by
  induction n using Nat.strong_induction_on with
  | _ n ih =>
    rcases Nat.lt_or_ge n 10 with hlt | hle
    · have hdigit : ∀ n < 10, n ≠ 0 → n.digitChar ≠ '0' := by decide
      exact ⟨n.digitChar, [], Nat.toDigits_of_lt_base hlt, hdigit n hlt hn⟩
    · obtain ⟨d, rest, hd, hlead⟩ := ih (n / 10) (by omega) (by omega)
      exact ⟨d, rest ++ [(n % 10).digitChar], by rw [Nat.toDigits_of_base_le (by decide) hle, hd]; rfl, hlead⟩

theorem isLed_toDigits (n : Nat) : IsLed (Nat.toDigits 10 n) := by
  by_cases hn : n = 0
  · subst hn
    exact .inl rfl
  · exact .inr (exists_lead hn)

end Numeral

namespace FloatStyle

/-! ## 5. The texts of floats -/

open Numeral

/-- Digits with a point denote their number at the power of ten given by the place of the point. -/
theorem spells_positional {ds : List Char} (hds : AreDigits ds) (hlead : ∃ d rest, ds = d :: rest ∧ d ≠ '0')
    (i : Int) : Spells (positional ds i).toList (Nat.ofDigitChars 10 ds 0 * 10 ^ (i - ds.length)) := by
  have hne : ds ≠ [] := IsLed.ne_nil (.inr hlead)
  have hzero : ['0'] ≠ [] := List.cons_ne_nil _ _
  unfold positional
  split
  next hi =>
    have h := spells_of_parts ['0'] (List.replicate (-i).toNat '0' ++ ds) (areDigits_replicate 1)
      (.inl rfl) ((areDigits_replicate _).append hds) (.inl ⟨rfl, by simp [hne]⟩) .none (by simp)
      (show 0 - ((List.replicate (-i).toNat '0' ++ ds).length : Int) = i - ds.length by simp; omega)
    simpa [Nat.ofDigitChars_append, Nat.ofDigitChars_cons] using h
  next hi =>
    split
    next hlen =>
      have hled : IsLed (ds ++ List.replicate (i.toNat - ds.length) '0') := by
        obtain ⟨d, rest, hd, hlead⟩ := hlead
        exact .inr ⟨d, rest ++ List.replicate (i.toNat - ds.length) '0', by simp [hd], hlead⟩
      have h := spells_of_parts (ds ++ List.replicate (i.toNat - ds.length) '0') ['0']
        (hds.append (areDigits_replicate _)) hled (areDigits_replicate 1) (.inl ⟨rfl, hzero⟩) .none (by simp) rfl
      have hscale : (10 : ℚ) ^ (i - ds.length) = 10 ^ (i.toNat - ds.length) := by
        rw [← zpow_natCast]
        congr 1
        omega
      have hvalue : ((Nat.ofDigitChars 10 (ds ++ List.replicate (i.toNat - ds.length) '0' ++ ['0']) 0 : ℕ) : ℚ) *
          10 ^ (0 - ((['0'] : List Char).length : Int)) =
          Nat.ofDigitChars 10 ds 0 * 10 ^ (i - ds.length) := by
        rw [hscale]
        simp only [Nat.ofDigitChars_append, Nat.ofDigitChars_replicate_zero, Nat.ofDigitChars_cons,
          Nat.ofDigitChars_nil]
        push_cast
        simp
        ring
      rw [hvalue] at h
      simpa using h
    next hlen =>
      have hled : IsLed (ds.take i.toNat) := by
        obtain ⟨d, rest, rfl, hlead⟩ := hlead
        obtain ⟨j, hj⟩ : ∃ j, i.toNat = j + 1 := ⟨i.toNat - 1, by omega⟩
        exact .inr ⟨d, rest.take j, by simp [hj], hlead⟩
      have h := spells_of_parts (ds.take i.toNat) (ds.drop i.toNat)
        (fun c hc => hds c (List.mem_of_mem_take hc)) hled
        (fun c hc => hds c (List.mem_of_mem_drop hc)) (.inl ⟨rfl, by simp; omega⟩) .none (by simp)
        (show 0 - ((ds.drop i.toNat).length : Int) = i - ds.length by simp; omega)
      simpa using h

/-- Digits with an exponent denote their number at the power of ten given by the first of them. -/
theorem spells_scientific (style : FloatStyle) {ds : List Char} (hds : AreDigits ds) (hne : ds ≠ [])
    (power : Int) :
    Spells (scientific style ds power).toList
      (Nat.ofDigitChars 10 ds 0 * 10 ^ (power - (ds.length - 1))) := by
  obtain ⟨d, rest, rfl⟩ := List.exists_cons_of_ne_nil hne
  have hrest : AreDigits rest := fun c hc => hds c (by simp [hc])
  have hfirst : AreDigits [d] := fun c hc => hds c (by simp_all)
  have hpad (n : Nat) : AreDigits (padLeft style.exponentDigits (toString n)).toList ∧
      (padLeft style.exponentDigits (toString n)).toList ≠ [] ∧
      Nat.ofDigitChars 10 (padLeft style.exponentDigits (toString n)).toList 0 = n := by
    simp only [padLeft, String.toList_append, String.toList_ofList, Nat.toString_eq_repr, Nat.toList_repr]
    refine ⟨(areDigits_replicate _).append (areDigits_toDigits n), by simp, ?_⟩
    simp [Nat.ofDigitChars_append]
  have hpoint : IsTail (if (d :: rest).length ≤ 1 then "" else
      "." ++ String.ofList ((d :: rest).drop 1)).toList rest := by
    cases rest with
    | nil => exact .inr ⟨rfl, rfl⟩
    | cons e es => exact .inl (by simp)
  have hled : IsLed [d] := by
    by_cases hd : d = '0'
    · exact .inl (by rw [hd])
    · exact .inr ⟨d, [], rfl, hd⟩
  obtain ⟨hdigits, hdne, hvalue⟩ := hpad power.natAbs
  have hscale : IsScale ("e" ++ (if power < 0 then "-" else "+") ++
      padLeft style.exponentDigits (toString power.natAbs)).toList power := by
    split
    next hneg =>
      have := IsScale.minus _ hdigits hdne
      rw [hvalue, show -(power.natAbs : Int) = power by omega] at this
      simpa using this
    next hpos =>
      have := IsScale.plus _ hdigits hdne
      rw [hvalue, show (power.natAbs : Int) = power by omega] at this
      simpa using this
  have h := spells_of_parts [d] rest hfirst hled hrest hpoint hscale (by simp)
    (show power - (rest.length : Int) = power - ((d :: rest).length - 1) by simp)
  simpa [scientific] using h

/-- The text of a finite double: its sign, and a decimal that rounds to it. -/
theorem write_finite (style : FloatStyle) {x : Float} {b : Binary} (h : Binary.ofFloat? x = some b) :
    ∃ (t : String) (v : ℚ), style.write x = (if b.negative then "-" else "") ++ t ∧
      Spells t.toList v ∧ b.Rounds v := by
  have hd := Binary.isDouble_of_ofFloat? h
  simp only [write, h]
  split
  next hm =>
    refine ⟨"0.0", 0, rfl, ?_, ?_⟩
    · have h := spells_of_parts ['0'] ['0'] (areDigits_replicate 1) (.inl rfl) (areDigits_replicate 1)
        (.inl ⟨rfl, List.cons_ne_nil _ _⟩) .none (by simp) rfl
      simpa [Nat.ofDigitChars_cons] using h
    · have hq := b.quarter_pos
      refine Binary.rounds_of_lt ?_ ?_
      · have := mul_pos b.slack_pos hq
        simp only [Binary.lower, hm, Nat.cast_zero]
        linarith
      · simp [Binary.upper, hm, hq]
  next hm =>
    have hrounds := Shortest.rounds_digits (b := { b with negative := false }) ⟨⟨hd.1.1, hd.1.2, hd.1.3⟩, hd.2⟩ hm
    generalize Shortest.digits { b with negative := false } = d at hrounds ⊢
    obtain ⟨n, k⟩ := d
    have hn : n ≠ 0 := by
      rintro rfl
      simpa using hrounds.pos hm
    have hds := areDigits_toDigits n
    have hne : Nat.toDigits 10 n ≠ [] := Nat.toDigits_ne_nil
    have hvalue : Nat.ofDigitChars 10 (Nat.toDigits 10 n) 0 = n := Nat.ofDigitChars_ten_toDigits
    simp only [Nat.toString_eq_repr, Nat.toList_repr]
    split
    · refine ⟨_, n * 10 ^ k, rfl, ?_, hrounds⟩
      have h := spells_positional hds (exists_lead hn) (k + (Nat.toDigits 10 n).length - 1 + 1)
      rw [hvalue] at h
      convert h using 3
      omega
    · refine ⟨_, n * 10 ^ k, rfl, ?_, hrounds⟩
      have h := spells_scientific style hds hne (k + (Nat.toDigits 10 n).length - 1)
      rw [hvalue] at h
      convert h using 3
      omega

end FloatStyle

/-- The text of a float in JSON: a decimal with its sign, or one of three words. -/
theorem jsonFloat_cases (x : Float) :
    (∃ (b : Binary) (t : String) (v : ℚ), Binary.ofFloat? x = some b ∧
      jsonFloat.write x = (if b.negative then "-" else "") ++ t ∧
      Numeral.Spells t.toList v ∧ b.Rounds v) ∨
    (Binary.ofFloat? x = none ∧ (x = notANumber ∧ jsonFloat.write x = "NaN" ∨
      x = infinite false ∧ jsonFloat.write x = "Infinity" ∨
      x = infinite true ∧ jsonFloat.write x = "-Infinity")) := by
  cases h : Binary.ofFloat? x with
  | some b =>
    obtain ⟨t, v, hwrite, hspells, hrounds⟩ := FloatStyle.write_finite jsonFloat h
    exact .inl ⟨b, t, v, rfl, hwrite, hspells, hrounds⟩
  | none =>
    refine .inr ⟨rfl, ?_⟩
    rcases Binary.ofFloat?_eq_none h with rfl | rfl | rfl
    · exact .inl ⟨rfl, by decide +kernel⟩
    · exact .inr (.inl ⟨rfl, by decide +kernel⟩)
    · exact .inr (.inr ⟨rfl, by decide +kernel⟩)

/-- The sign of a decimal can be read off its text. -/
theorem signed_inj {p q : Bool} {t u : String} {x y : ℚ} (ht : Numeral.Spells t.toList x)
    (hu : Numeral.Spells u.toList y)
    (h : (if p then "-" else "") ++ t = (if q then "-" else "") ++ u) : p = q ∧ t = u := by
  obtain ⟨d, ds, hd, hdigit⟩ := ht.head
  obtain ⟨e, es, he, hedigit⟩ := hu.head
  have hlist := congrArg String.toList h
  simp only [String.toList_append, hd, he] at hlist
  cases p <;> cases q <;> simp at hlist
  · refine ⟨rfl, String.toList_inj.mp ?_⟩
    rw [hd, he, hlist.1, hlist.2]
  · rw [hlist.1] at hdigit
    exact absurd hdigit (by decide)
  · rw [← hlist.1] at hedigit
    exact absurd hedigit (by decide)
  · refine ⟨rfl, String.toList_inj.mp ?_⟩
    rw [hd, he, hlist.1, hlist.2]

/-- A decimal is none of the words. -/
theorem signed_ne_word {p : Bool} {t : String} {x : ℚ} (ht : Numeral.Spells t.toList x) :
    ∀ w ∈ ["NaN", "Infinity", "-Infinity"], (if p then "-" else "") ++ t ≠ w := by
  obtain ⟨d, ds, hd, hdigit⟩ := ht.head
  intro w hw h
  have hlist := congrArg String.toList h
  simp only [String.toList_append, hd] at hlist
  simp only [List.mem_cons, List.not_mem_nil, or_false] at hw
  have hN : d ≠ 'N' := by rintro rfl; exact absurd hdigit (by decide)
  have hI : d ≠ 'I' := by rintro rfl; exact absurd hdigit (by decide)
  have hminus : d ≠ '-' := by rintro rfl; exact absurd hdigit (by decide)
  rcases hw with rfl | rfl | rfl <;> cases p <;> simp [hN, hI, hminus] at hlist

/-- Distinct floats have distinct texts in JSON. -/
theorem jsonFloat_inj {x y : Float} (h : jsonFloat.write x = jsonFloat.write y) : x = y := by
  rcases jsonFloat_cases x with ⟨b, t, v, hx, hwx, ht, hb⟩ | ⟨-, hx⟩
  · rcases jsonFloat_cases y with ⟨c, u, w, hy, hwy, hu, hc⟩ | ⟨-, hy⟩
    · rw [hwx, hwy] at h
      obtain ⟨hsign, rfl⟩ := signed_inj ht hu h
      obtain rfl := ht.denotes.unique hu.denotes
      obtain ⟨hm, he⟩ := hb.unique hc (Binary.isDouble_of_ofFloat? hx).toIsScaled
        (Binary.isDouble_of_ofFloat? hy).toIsScaled
      obtain ⟨n, m, e⟩ := b
      obtain ⟨n', m', e'⟩ := c
      simp only at hsign hm he
      subst hsign hm he
      exact Binary.ofFloat?_inj hx hy
    · rw [hwx] at h
      rcases hy with ⟨-, hwy⟩ | ⟨-, hwy⟩ | ⟨-, hwy⟩ <;>
        exact absurd (h.trans hwy) (signed_ne_word ht _ (by simp))
  · rcases jsonFloat_cases y with ⟨c, u, w, -, hwy, hu, -⟩ | ⟨-, hy⟩
    · rw [hwy] at h
      rcases hx with ⟨-, hwx⟩ | ⟨-, hwx⟩ | ⟨-, hwx⟩ <;>
        exact absurd (h.symm.trans hwx) (signed_ne_word hu _ (by simp))
    · rcases hx with ⟨rfl, hwx⟩ | ⟨rfl, hwx⟩ | ⟨rfl, hwx⟩ <;>
        rcases hy with ⟨rfl, hwy⟩ | ⟨rfl, hwy⟩ | ⟨rfl, hwy⟩ <;> first | rfl | skip
      all_goals
        rw [hwx, hwy] at h
        exact absurd h (by decide)

end Statechart
