/-
# The order of numbers

Numbers are compared exactly, whatever they are: integers of any size, doubles, and the two mixed.  A
double is compared by its bits and an integer with a double by way of its mantissa and exponent; here
all of it is brought to one order, that of the rationals with two infinities around them.

* `Binary.unpacks`: the sign, mantissa and exponent that a float is taken apart into are those that
  its arithmetic works with;
* `Binary.cmp_magnitude`: of two doubles the one of the greater exponent is greater, because a
  mantissa has all of its bits;
* **`Number.compare?_eq`**: numbers are compared by what they are worth, and what is not a number is
  worth nothing;
* `Number.ge_trans`, `Number.not_ge_iff`: hence the order is transitive, and total but for what is not
  a number.
-/
import Statechart.Number
import Statechart.Proofs.Shortest
import Mathlib

namespace Statechart

open Float.Model (UnpackedFloat)
open Float.Model.UnpackedFloat (unpackExponent unpackMantissa unpackSign Sign)

namespace Binary

/-! ## 1. Taking a float apart -/

theorem toNat_unpackSign (x : Float) :
    (@unpackSign .binary64 x.toModel.toBits.toBitVec).toNat = x.toBits.toNat / 2 ^ 63 := by
  have h := x.toBits.toNat_lt
  have hbits : (@unpackSign .binary64 x.toModel.toBits.toBitVec).toNat =
      (x.toBits.toNat >>> 63) % 2 := by
    simp only [unpackSign, BitVec.toNat_cast, BitVec.extractLsb_toNat]
    rfl
  rw [hbits, Nat.shiftRight_eq_div_pow]
  omega

/-- The sign of a value. -/
def signOf (negative : Bool) : Sign := if negative then .negative else .positive

theorem ofBitVec_unpackSign (x : Float) :
    Sign.ofBitVec (@unpackSign .binary64 x.toModel.toBits.toBitVec) =
      signOf (x.toBits.toNat / 2 ^ 63 = 1) := by
  have h := toNat_unpackSign x
  have hlt := x.toBits.toNat_lt
  have hzero : @unpackSign .binary64 x.toModel.toBits.toBitVec = 0#1 ↔
      ¬ x.toBits.toNat / 2 ^ 63 = 1 := by
    rw [← h, ← BitVec.toNat_inj]
    change _ = 0 ↔ _
    omega
  rw [Sign.ofBitVec, if_congr hzero rfl rfl, ite_not, signOf]
  simp only [decide_eq_true_eq]

/-- A float is taken apart here as the arithmetic of floats does it. -/
inductive Unpacks : Option Binary → UnpackedFloat → Prop
  | notANumber : Unpacks none .notANumber
  | infinity (s : Sign) : Unpacks none (.infinity s)
  | zero {b : Binary} : b.mantissa = 0 → Unpacks (some b) (.zero (signOf b.negative))
  | finite {b : Binary} (h : 0 < b.mantissa) :
      Unpacks (some b) (.finite (signOf b.negative) b.mantissa b.exponent h)

theorem Unpacks.of_eq {b : Binary} {m : Nat} {e : Int} {hm : 0 < m} (hmantissa : m = b.mantissa)
    (hexponent : e = b.exponent) : Unpacks (some b) (.finite (signOf b.negative) m e hm) := by
  subst hmantissa hexponent
  exact .finite hm

theorem toNat_one_append (v : BitVec 52) : (1#1 ++ v).toNat = v.toNat + 2 ^ 52 := by
  rw [BitVec.toNat_append, ← Nat.shiftLeft_add_eq_or_of_lt v.isLt, Nat.add_comm]
  rfl

theorem unpacks (x : Float) : Unpacks (ofFloat? x) x.toModel.unpack := by
  have hones : @unpackExponent .binary64 x.toModel.toBits.toBitVec = -1#_ ↔
      (@unpackExponent .binary64 x.toModel.toBits.toBitVec).toNat = 2047 := BitVec.toNat_inj.symm
  have hzero : @unpackExponent .binary64 x.toModel.toBits.toBitVec = 0#_ ↔
      (@unpackExponent .binary64 x.toModel.toBits.toBitVec).toNat = 0 := BitVec.toNat_inj.symm
  have hnone : @unpackMantissa .binary64 x.toModel.toBits.toBitVec = 0#_ ↔
      (@unpackMantissa .binary64 x.toModel.toBits.toBitVec).toNat = 0 := BitVec.toNat_inj.symm
  rw [Float.Model.unpack, UnpackedFloat.unpack, ofBitVec_unpackSign]
  simp only [ofFloat?, Nat.pow_eq, ← toNat_unpackExponent, ← toNat_unpackMantissa]
  by_cases he : (@unpackExponent .binary64 x.toModel.toBits.toBitVec).toNat = 2047
  · rw [if_pos (hones.mpr he), if_pos he]
    split
    · exact .infinity _
    · exact .notANumber
  · rw [if_neg (mt hones.mp he), if_neg he]
    by_cases hz : (@unpackExponent .binary64 x.toModel.toBits.toBitVec).toNat = 0
    · rw [if_pos (hzero.mpr hz), if_pos hz]
      split
      · exact .zero (hnone.mp ‹_›)
      · refine .of_eq rfl ?_
        rw [hz]
        rfl
    · rw [if_neg (mt hzero.mp hz), if_neg hz]
      exact .of_eq (toNat_one_append _) rfl

/-! ## 2. What a double is worth

A mantissa above the least exponent has all of its bits, so that the exponent decides first. -/

/-- The absolute value. -/
def magnitude (b : Binary) : ℚ := b.mantissa * 2 ^ b.exponent

/-- The value, exactly. -/
def value (b : Binary) : ℚ := if b.negative then -b.magnitude else b.magnitude

theorem magnitude_pos {b : Binary} (h : 0 < b.mantissa) : 0 < b.magnitude := by
  unfold magnitude
  positivity

/-- Of two doubles the one of the greater exponent is greater. -/
theorem magnitude_lt_of_exponent_lt {b c : Binary} (hb : b.IsScaled) (hc : c.IsScaled)
    (h : b.exponent < c.exponent) : b.magnitude < c.magnitude := by
  have hfull : (2 : ℚ) ^ 52 ≤ c.mantissa := by
    have hb := hb.le_exponent
    rcases hc.normal with hc | hc
    · exact_mod_cast hc
    · omega
  have hshort : (b.mantissa : ℚ) < 2 ^ 53 := by exact_mod_cast hb.mantissa_lt
  have hstep : (2 : ℚ) ^ (b.exponent + 1) ≤ 2 ^ c.exponent := zpow_le_zpow_right₀ (by norm_num) h
  calc b.magnitude < 2 ^ 53 * 2 ^ b.exponent := mul_lt_mul_of_pos_right hshort (by positivity)
    _ = 2 ^ 52 * 2 ^ (b.exponent + 1) := by rw [zpow_add_one₀ (by norm_num)]; ring
    _ ≤ c.magnitude := mul_le_mul hfull hstep (by positivity) (by positivity)

theorem cmp_magnitude {b c : Binary} (hb : b.IsScaled) (hc : c.IsScaled) :
    (compare b.exponent c.exponent).then (compare b.mantissa c.mantissa) =
      cmp b.magnitude c.magnitude := by
  rcases lt_trichotomy b.exponent c.exponent with h | h | h
  · have hlt := magnitude_lt_of_exponent_lt hb hc h
    rw [hlt.cmp_eq_lt, compare_lt_iff_lt.mpr h]
    rfl
  · have hcmp : cmp b.magnitude c.magnitude = cmp b.mantissa c.mantissa := by
      unfold magnitude
      rw [h, cmp_mul_pos_right (by positivity)]
      exact (Nat.strictMono_cast (α := ℚ)).cmp_map_eq _ _
    rw [hcmp, compare_eq_iff_eq.mpr h]
    exact (cmp_eq_compare _ _).symm
  · have hlt := magnitude_lt_of_exponent_lt hc hb h
    rw [hlt.cmp_eq_gt, compare_gt_iff_gt.mpr h]
    rfl

/-! ## 3. Two floats -/

/-- What a number can be worth: a rational, or one of the two infinities. -/
abbrev Worth := WithBot (WithTop ℚ)

/-- A rational worth. -/
def Worth.of (q : ℚ) : Worth := ((q : WithTop ℚ) : WithBot (WithTop ℚ))

theorem Worth.of_strictMono : StrictMono Worth.of := fun _ _ h =>
  WithBot.coe_lt_coe.mpr (WithTop.coe_lt_coe.mpr h)

/-- What a float is worth, none if it is not a number. -/
def weigh : UnpackedFloat → Option Worth
  | .notANumber => none
  | .infinity .positive => some ⊤
  | .infinity .negative => some ⊥
  | .zero _ => some (.of 0)
  | .finite s m e _ => some (.of (s.apply m * 2 ^ e))

theorem Unpacks.weigh_eq {b : Binary} {u : UnpackedFloat} (h : Unpacks (some b) u) :
    weigh u = some (.of b.value) := by
  cases h with
  | zero h => simp [weigh, value, magnitude, h]
  | finite h =>
    cases hn : b.negative <;> simp [weigh, value, magnitude, signOf, hn, Sign.apply]

theorem value_of_negative {b : Binary} (h : b.negative = true) : b.value = -b.magnitude := if_pos h

theorem value_of_not_negative {b : Binary} (h : b.negative = false) : b.value = b.magnitude := by
  rw [value, h]
  rfl

theorem value_of_zero {b : Binary} (h : b.mantissa = 0) : b.value = 0 := by
  simp [value, magnitude, h]

/-- Finite floats are compared by their values. -/
theorem Unpacks.compare_eq {b c : Binary} {u v : UnpackedFloat} (hu : Unpacks (some b) u)
    (hv : Unpacks (some c) v) (hb : b.IsScaled) (hc : c.IsScaled) :
    u.compare v = some (cmp b.value c.value) := by
  cases hu with
  | zero h =>
    rw [value_of_zero h]
    cases hv with
    | zero h' =>
      rw [value_of_zero h', cmp_self_eq_eq]
      rfl
    | finite h' =>
      have hpos := magnitude_pos h'
      cases hn : c.negative with
      | true =>
        rw [value_of_negative hn, (neg_neg_of_pos hpos).cmp_eq_gt]
        rfl
      | false =>
        rw [value_of_not_negative hn, hpos.cmp_eq_lt]
        rfl
  | finite h =>
    have hpos := magnitude_pos h
    cases hv with
    | zero h' =>
      rw [value_of_zero h']
      cases hn : b.negative with
      | true =>
        rw [value_of_negative hn, (neg_neg_of_pos hpos).cmp_eq_lt]
        rfl
      | false =>
        rw [value_of_not_negative hn, hpos.cmp_eq_gt]
        rfl
    | finite h' =>
      have hpos' := magnitude_pos h'
      have hcmp := cmp_magnitude hb hc
      cases hn : b.negative with
      | true =>
        rw [value_of_negative hn]
        cases hn' : c.negative with
        | true =>
          have hflip : cmp (-b.magnitude) (-c.magnitude) = cmp c.magnitude b.magnitude :=
            StrictAnti.cmp_map_eq (fun _ _ hlt => neg_lt_neg hlt) _ _
          rw [value_of_negative hn', hflip, ← cmp_swap, ← hcmp]
          rfl
        | false =>
          rw [value_of_not_negative hn', ((neg_neg_of_pos hpos).trans hpos').cmp_eq_lt]
          rfl
      | false =>
        rw [value_of_not_negative hn]
        cases hn' : c.negative with
        | true =>
          rw [value_of_negative hn', ((neg_neg_of_pos hpos').trans hpos).cmp_eq_gt]
          rfl
        | false =>
          rw [value_of_not_negative hn', ← hcmp]
          rfl

theorem Unpacks.compare_infinity {b : Binary} {u : UnpackedFloat} (h : Unpacks (some b) u) :
    u.compare (.infinity .positive) = some .lt ∧ u.compare (.infinity .negative) = some .gt ∧
      UnpackedFloat.compare (.infinity .positive) u = some .gt ∧
      UnpackedFloat.compare (.infinity .negative) u = some .lt := by
  cases h <;> exact ⟨rfl, rfl, rfl, rfl⟩

theorem compare_notANumber (u : UnpackedFloat) :
    UnpackedFloat.compare .notANumber u = none ∧ u.compare .notANumber = none := by
  cases u <;> exact ⟨rfl, rfl⟩

theorem Worth.bot_lt_of (q : ℚ) : (⊥ : Worth) < .of q := WithBot.bot_lt_coe _

theorem Worth.of_lt_top (q : ℚ) : .of q < (⊤ : Worth) :=
  WithBot.coe_lt_coe.mpr (WithTop.coe_lt_top q)

theorem Worth.bot_lt_top : (⊥ : Worth) < ⊤ := (bot_lt_of 0).trans (of_lt_top 0)

/-- **Floats are compared by what they are worth.** -/
theorem Unpacks.compare_weigh {x y : Option Binary} {u v : UnpackedFloat}
    (hu : Unpacks x u) (hv : Unpacks y v) (hx : ∀ b, x = some b → b.IsScaled)
    (hy : ∀ c, y = some c → c.IsScaled) : u.compare v = Option.map₂ cmp (weigh u) (weigh v) := by
  cases x with
  | none =>
    cases hu with
    | notANumber => exact (compare_notANumber v).1
    | infinity s =>
      cases y with
      | none =>
        cases hv with
        | notANumber => cases s <;> rfl
        | infinity s' =>
          cases s with
          | negative =>
            cases s' with
            | negative => exact congrArg some (cmp_self_eq_eq _).symm
            | positive => exact congrArg some Worth.bot_lt_top.cmp_eq_lt.symm
          | positive =>
            cases s' with
            | negative => exact congrArg some Worth.bot_lt_top.cmp_eq_gt.symm
            | positive => exact congrArg some (cmp_self_eq_eq _).symm
      | some c =>
        obtain ⟨-, -, habove, hbelow⟩ := hv.compare_infinity
        rw [hv.weigh_eq]
        cases s with
        | negative => exact hbelow.trans (congrArg some (Worth.bot_lt_of _).cmp_eq_lt.symm)
        | positive => exact habove.trans (congrArg some (Worth.of_lt_top _).cmp_eq_gt.symm)
  | some b =>
    rw [hu.weigh_eq]
    cases y with
    | none =>
      cases hv with
      | notANumber => exact (compare_notANumber u).2
      | infinity s =>
        obtain ⟨hbelow, habove, -, -⟩ := hu.compare_infinity
        cases s with
        | negative => exact habove.trans (congrArg some (Worth.bot_lt_of _).cmp_eq_gt.symm)
        | positive => exact hbelow.trans (congrArg some (Worth.of_lt_top _).cmp_eq_lt.symm)
    | some c =>
      rw [hu.compare_eq hv (hx b rfl) (hy c rfl), hv.weigh_eq, Option.map₂_some_some,
        Worth.of_strictMono.cmp_map_eq]

theorem compare_unpack (x y : Float) : x.toModel.unpack.compare y.toModel.unpack =
    Option.map₂ cmp (weigh x.toModel.unpack) (weigh y.toModel.unpack) :=
  (unpacks x).compare_weigh (unpacks y) (fun _ hb => (isDouble_of_ofFloat? hb).toIsScaled)
    fun _ hc => (isDouble_of_ofFloat? hc).toIsScaled

end Binary

/-! ## 4. Two numbers -/

namespace Number

open Binary

/-- What a number is worth, none if it is not a number. -/
def worth : Number → Option Worth
  | .int n => some (.of n)
  | .float x => weigh x.toModel.unpack

/-- An integer is compared with a finite float by their values. -/
theorem compareInt_eq (n : Int) (b : Binary) : Binary.compareInt n b = cmp (n : ℚ) b.value := by
  -- both sides are multiplied by the denominator
  have hscaled : ∃ (num den : Nat), b.ratio = (num, den) ∧ 0 < den ∧
      (num : ℚ) = b.magnitude * den := by
    unfold Binary.ratio magnitude
    split
    · rename_i he
      refine ⟨_, _, rfl, one_pos, ?_⟩
      obtain ⟨k, hk⟩ := Int.eq_ofNat_of_zero_le he
      simp [hk]
    · rename_i he
      refine ⟨_, _, rfl, Nat.two_pow_pos _, ?_⟩
      obtain ⟨k, hk⟩ := Int.eq_ofNat_of_zero_le (show 0 ≤ -b.exponent by omega)
      have he : b.exponent = -(k : Int) := by omega
      simp [he]
  obtain ⟨num, den, hratio, hden, hnum⟩ := hscaled
  have hsigned : (((if b.negative then -(num : Int) else num) : Int) : ℚ) = b.value * den := by
    unfold value
    split <;> simp [hnum]
  have hpos : (0 : ℚ) < den := by exact_mod_cast hden
  have hcast := (Int.cast_strictMono (R := ℚ)).cmp_map_eq (n * den)
    (if b.negative then -(num : Int) else num)
  rw [← cmp_mul_pos_right hpos, ← hsigned]
  simp only [Binary.compareInt, hratio]
  rw [← cmp_eq_compare, ← hcast]
  simp

theorem float_lt_iff (x y : Float) : x < y ↔ x.toModel.unpack.compare y.toModel.unpack = some .lt := by
  change Float.lt x y = true ↔ _
  unfold Float.lt
  rw [decide_eq_true_eq]
  change Float.Model.lt _ _ = true ↔ _
  unfold Float.Model.lt UnpackedFloat.lt
  rw [beq_iff_eq]

theorem float_beq_iff (x y : Float) :
    (x == y) = true ↔ x.toModel.unpack.compare y.toModel.unpack = some .eq := by
  change Float.beq x y = true ↔ _
  change UnpackedFloat.beq _ _ = true ↔ _
  unfold UnpackedFloat.beq
  rw [beq_iff_eq]

theorem weigh_zero : weigh (0 : Float).toModel.unpack = some (.of 0) := by
  have hzero : ofFloat? 0 = some ⟨false, 0, -1074⟩ := by decide +kernel
  have h := unpacks 0
  rw [hzero] at h
  rw [h.weigh_eq, value_of_zero rfl]

theorem compareIntFloat_eq (n : Int) (x : Float) :
    compareIntFloat n x = (weigh x.toModel.unpack).map (cmp (.of n)) := by
  have hx := unpacks x
  unfold compareIntFloat
  cases hb : ofFloat? x with
  | some b =>
    rw [hb] at hx
    rw [hx.weigh_eq, Option.map_some, Worth.of_strictMono.cmp_map_eq, ← compareInt_eq]
  | none =>
    rw [hb] at hx
    have hsame := float_beq_iff x x
    have hbelow := float_lt_iff x 0
    rw [compare_unpack] at hsame hbelow
    rw [weigh_zero] at hbelow
    generalize x.toModel.unpack = u at hx hsame hbelow ⊢
    cases hx with
    | notANumber =>
      have hne : (x != x) = true := by
        rw [bne, Bool.not_eq_true', ← Bool.not_eq_true, hsame]
        intro h
        cases h
      rw [if_pos hne]
      rfl
    | infinity s =>
      have heq : (x != x) = false := by
        rw [bne, Bool.not_eq_false', hsame]
        cases s <;> exact congrArg some (cmp_self_eq_eq _)
      rw [heq, if_neg Bool.false_ne_true]
      cases s with
      | negative =>
        rw [if_pos (hbelow.mpr (congrArg some (Worth.bot_lt_of 0).cmp_eq_lt))]
        exact congrArg some (Worth.bot_lt_of _).cmp_eq_gt.symm
      | positive =>
        have hnot : ¬ x < 0 := by
          rw [hbelow]
          intro h
          rw [weigh, Option.map₂_some_some, (Worth.of_lt_top 0).cmp_eq_gt] at h
          cases h
        rw [if_neg hnot]
        exact congrArg some (Worth.of_lt_top _).cmp_eq_lt.symm

/-- **Numbers are compared by what they are worth.** -/
theorem compare?_eq (a b : Number) : a.compare? b = Option.map₂ cmp a.worth b.worth := by
  cases a with
  | int n =>
    cases b with
    | int k =>
      rw [compare?_int, worth, worth, Option.map₂_some_some, Worth.of_strictMono.cmp_map_eq,
        (Int.cast_strictMono (R := ℚ)).cmp_map_eq, cmp_eq_compare]
    | float y =>
      rw [compare?, compareIntFloat_eq, worth, worth]
      cases weigh y.toModel.unpack <;> rfl
  | float x =>
    cases b with
    | int k =>
      rw [compare?, compareIntFloat_eq, worth, worth]
      cases weigh x.toModel.unpack with
      | none => rfl
      | some u => exact congrArg some (cmp_swap _ _)
    | float y =>
      have hlt := float_lt_iff x y
      have hgt := float_lt_iff y x
      have heq := float_beq_iff x y
      rw [compare_unpack] at hlt hgt heq
      rw [compare?, if_congr hlt rfl rfl, if_congr hgt rfl rfl, if_congr heq rfl rfl, worth, worth]
      cases weigh x.toModel.unpack with
      | none => simp
      | some u =>
        cases weigh y.toModel.unpack with
        | none => simp
        | some v =>
          simp only [Option.map₂_some_some, Option.some.injEq]
          rw [← cmp_swap u v]
          cases cmp u v <;> rfl

/-! ## 5. The order -/

theorem ge_iff {a b : Number} :
    a.ge b = true ↔ ∃ u v, a.worth = some u ∧ b.worth = some v ∧ v ≤ u := by
  unfold ge gt eq
  rw [compare?_eq, Bool.or_eq_true, decide_eq_true_eq, decide_eq_true_eq]
  cases a.worth with
  | none => simp
  | some u =>
    cases b.worth with
    | none => simp
    | some v =>
      simp only [Option.map₂_some_some, Option.some.injEq, cmp_eq_gt_iff, cmp_eq_eq_iff]
      constructor
      · intro h
        exact ⟨u, v, rfl, rfl, h.elim le_of_lt fun heq => heq.ge⟩
      · rintro ⟨_, _, rfl, rfl, hle⟩
        exact hle.lt_or_eq.imp_right Eq.symm

theorem lt_iff {a b : Number} :
    a.lt b = true ↔ ∃ u v, a.worth = some u ∧ b.worth = some v ∧ u < v := by
  unfold lt
  rw [compare?_eq, decide_eq_true_eq]
  cases a.worth with
  | none => simp
  | some u =>
    cases b.worth with
    | none => simp
    | some v => simp [cmp_eq_lt_iff]

theorem isNaN_iff {a : Number} : a.isNaN = true ↔ a.worth = none := by
  cases a with
  | int n => simp [isNaN, worth]
  | float x =>
    have hsame := float_beq_iff x x
    rw [compare_unpack] at hsame
    rw [isNaN, worth, bne, Bool.not_eq_true', ← Bool.not_eq_true, hsame]
    cases weigh x.toModel.unpack with
    | none => simp
    | some u => simp

theorem ge_trans {a b c : Number} (hab : a.ge b = true) (hbc : b.ge c = true) : a.ge c = true := by
  obtain ⟨u, v, ha, hb, hle⟩ := ge_iff.mp hab
  obtain ⟨v', w, hb', hc, hle'⟩ := ge_iff.mp hbc
  rw [hb] at hb'
  cases hb'
  exact ge_iff.mpr ⟨u, w, ha, hc, hle'.trans hle⟩

theorem not_ge_iff {a b : Number} :
    a.ge b = false ↔ a.lt b = true ∨ a.isNaN = true ∨ b.isNaN = true := by
  rw [← Bool.not_eq_true, ge_iff, lt_iff, isNaN_iff, isNaN_iff]
  cases a.worth with
  | none => simp
  | some u =>
    cases b.worth with
    | none => simp
    | some v => simp

end Number
end Statechart
