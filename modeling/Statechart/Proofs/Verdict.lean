/-
# Verdicts of guards

A guard that gates a transition counts a failed evaluation as false.  Whether it has a verdict at all
is a matter of what else can fail while it is tested: the path of a field, the comparison of a value
that is no number, an operation inside an expression, code of the host.  All of these are foreseen but
for two, and both are about the size of integers:

* a field is compared as a double, and an integer may lie **beyond the largest double**
  (`Binary.ofInt?_eq_none_iff` says which do);
* the complaint about an expression quotes it, and an integer inside may be too long to be written
  (`evaluate_eq_tooLong_iff`).

These make up `Guard.Overflows`, and the results of this file are about it:

* `Guard.ready_of_resolve`: what is known of a guard that comes of a reference;
* `Guard.test_cases`, **`Guard.decides_of_resolve`**: such a guard has a verdict exactly when it does
  not overflow, and passes or fails the check accordingly.
-/
import Statechart.Proofs.Dots
import Statechart.Guard.Reference
import Mathlib.Tactic.SplitIfs
import Mathlib.Order.Lattice

namespace Statechart

/-! ## 1. Integers beyond the doubles -/

/-- Rounding a number below `2 d k` reaches `k` from the middle of the last step on: `k - 1` is odd,
so that a tie goes up. -/
theorem roundHalfEven_eq_iff {n d k : Nat} (hd : 0 < d) (hk : k % 2 = 0) (hn : n < 2 * d * k) :
    roundHalfEven n (2 * d) = k ↔ 2 * d * k - d ≤ n := by
  have hsplit : 2 * d * (n / (2 * d)) + n % (2 * d) = n := Nat.div_add_mod n (2 * d)
  have hrest : n % (2 * d) < 2 * d := Nat.mod_lt _ (by omega)
  have hq : n / (2 * d) < k := Nat.div_lt_of_lt_mul hn
  generalize n / (2 * d) = q at hsplit hq
  generalize n % (2 * d) = r at hsplit hrest
  unfold roundHalfEven
  have hdiv : n / (2 * d) = q := by
    rw [← hsplit, Nat.mul_add_div (by omega), Nat.div_eq_of_lt hrest, Nat.add_zero]
  have hmod : n % (2 * d) = r := by
    rw [← hsplit, Nat.mul_add_mod, Nat.mod_eq_of_lt hrest]
  simp only [hdiv, hmod]
  rcases Nat.lt_or_ge (q + 1) k with hlow | htop
  · -- below the last step nothing rounds up to `k`
    have hstep : 2 * d * (q + 2) ≤ 2 * d * k := Nat.mul_le_mul_left _ (by omega)
    rw [Nat.mul_add] at hstep
    split_ifs <;> omega
  · obtain rfl : k = q + 1 := by omega
    rw [Nat.mul_add] at hn ⊢
    split_ifs <;> omega

namespace Binary

/-- A power of two. -/
def power (k : Nat) : Nat := Nat.pow 2 k

/-- The middle between the largest double and the next power of two. -/
def edge : Nat := power 1024 - power 970

theorem power_pos (k : Nat) : 0 < power k := Nat.two_pow_pos k

theorem power_succ (k : Nat) : power (k + 1) = 2 * power k := Nat.pow_succ'

theorem power_add (a b : Nat) : power (a + b) = power a * power b := Nat.pow_add 2 a b

theorem power_mono {a b : Nat} (h : a ≤ b) : power a ≤ power b := Nat.pow_le_pow_right (by omega) h

theorem power_split (a b c : Nat) (h : c = a + 1 + b) : power c = 2 * power a * power b := by
  rw [h, power_add, power_succ]

theorem edge_eq : edge = 2 * power 970 * power 53 - power 970 := by
  rw [edge, power_split 970 53 1024 rfl]

theorem power_le_sub (a b c : Nat) (hc : c = a + 1) (hb : b ≤ a) : power a ≤ power c - power b := by
  have hle := power_mono hb
  rw [hc, power_succ]
  omega

theorem power_le_edge : power 1023 ≤ edge := power_le_sub 1023 970 1024 rfl (by omega)

theorem log2_one : Nat.log2 1 = 0 := rfl

/-- The exponent that a number is scaled by before it is rounded. -/
def scale (n : Nat) : Int :=
  let estimate : Int := (n.log2 : Int) - (1 : Nat).log2 - 53
  let tooFine :=
    if 0 ≤ estimate then Nat.pow 2 53 ≤ n / (1 * Nat.pow 2 estimate.toNat)
    else Nat.pow 2 53 ≤ n * Nat.pow 2 (-estimate).toNat / 1
  max (if tooFine then estimate + 1 else estimate) (-1074)

/-- The mantissa and the exponent that are left, once a carry has been taken into account. -/
def rounded (n : Nat) : Nat × Int :=
  if scaled n 1 (scale n) = power 53 then (power 52, scale n + 1)
  else (scaled n 1 (scale n), scale n)

/-- The exponent that is left decides whether there is a nearest double, and it is one higher if the
rounding carries. -/
theorem ofRatio?_one (negative : Bool) {n : Nat} (hn : n ≠ 0) :
    ofRatio? negative n 1 = none ↔
      971 < (if scaled n 1 (scale n) = power 53 then scale n + 1 else scale n) := by
  have hfinal : ofRatio? negative n 1 =
      if 971 < (rounded n).2 then none
      else some (toFloat ⟨negative, (rounded n).1, (rounded n).2⟩) := by
    rw [ofRatio?, if_neg hn]
    rfl
  rw [hfinal, rounded]
  by_cases hm : scaled n 1 (scale n) = power 53
  · rw [if_pos hm, if_pos hm]
    simp
  · rw [if_neg hm, if_neg hm]
    simp

/-- A number below `2 ^ 53` has a nearest double. -/
theorem ofRatio?_one_of_small (negative : Bool) {n : Nat} (hL : n.log2 < 53) :
    ofRatio? negative n 1 ≠ none := by
  by_cases hn : n = 0
  · simp [ofRatio?, hn]
  · -- the exponent is not positive, so that it is far from the largest one
    have hscale : scale n ≤ 0 := by
      refine max_le ?_ (by omega)
      rw [log2_one]
      split_ifs <;> omega
    rw [Ne, ofRatio?_one negative hn]
    split_ifs <;> omega

/-- How far a number of at least 53 binary digits has to be scaled down. -/
theorem tooFine_of_large {n : Nat} (hn : n ≠ 0) (hL : 53 ≤ n.log2) :
    Nat.pow 2 53 ≤ n / (1 * Nat.pow 2 ((n.log2 : Int) - (0 : Nat) - 53).toNat) := by
  have hshift : ((n.log2 : Int) - (0 : Nat) - 53).toNat = n.log2 - 53 := by omega
  rw [hshift, Nat.one_mul]
  refine (Nat.le_div_iff_mul_le (power_pos _)).mpr ?_
  calc Nat.pow 2 53 * Nat.pow 2 (n.log2 - 53) = Nat.pow 2 (53 + (n.log2 - 53)) :=
        (Nat.pow_add 2 53 (n.log2 - 53)).symm
    _ = Nat.pow 2 n.log2 := by rw [Nat.add_sub_cancel' hL]
    _ ≤ n := Nat.log2_self_le hn

/-- A number of at least 53 binary digits is rounded to 53 of them. -/
theorem ofRatio?_one_of_large (negative : Bool) {n : Nat} (hn : n ≠ 0) (hL : 53 ≤ n.log2) :
    ofRatio? negative n 1 = none ↔
      971 < (if roundHalfEven n (power (n.log2 - 52)) = power 53 then n.log2 - 51
        else n.log2 - 52) := by
  have hscale : scale n = ((n.log2 - 52 : Nat) : Int) := by
    unfold scale
    dsimp only
    rw [log2_one, if_pos]
    · omega
    · rw [if_pos (by omega)]
      exact tooFine_of_large hn hL
  have hscaled : scaled n 1 ((n.log2 - 52 : Nat) : Int) = roundHalfEven n (power (n.log2 - 52)) := by
    rw [scaled, if_pos (Int.natCast_nonneg _), Int.toNat_natCast, Nat.one_mul]
    rfl
  rw [ofRatio?_one negative hn, hscale, hscaled]
  split_ifs <;> omega

/-- **The double nearest to a number lies beyond the largest one from the edge on.** -/
theorem ofRatio?_one_eq_none_iff (negative : Bool) (n : Nat) :
    ofRatio? negative n 1 = none ↔ edge ≤ n := by
  have hedge := power_le_edge
  have hhigh : n < power (n.log2 + 1) := Nat.lt_log2_self
  have hsmall : n.log2 ≤ 1022 → ¬ edge ≤ n := fun hL => Nat.not_le.mpr <|
    lt_of_lt_of_le hhigh (le_trans (power_mono (by omega)) hedge)
  rcases Nat.lt_or_ge n.log2 53 with hL | hL
  · simp only [ofRatio?_one_of_small negative hL, hsmall (by omega)]
  have hn : n ≠ 0 := by
    rintro rfl
    simp [Nat.log2_zero] at hL
  rw [ofRatio?_one_of_large negative hn hL]
  rcases Nat.lt_trichotomy n.log2 1023 with hlt | heq | hgt
  · simp only [hsmall (by omega), iff_false]
    split_ifs <;> omega
  · -- in the last step before `2 ^ 1024` the rounding decides
    have hexp : n.log2 - 52 = 970 + 1 := by omega
    have hlast : n < 2 * power 970 * power 53 :=
      lt_of_lt_of_eq hhigh (power_split 970 53 _ (by omega))
    have htop := roundHalfEven_eq_iff (power_pos 970) (by decide) hlast
    rw [← edge_eq] at htop
    rw [← htop, hexp, power_succ]
    generalize roundHalfEven n (2 * power 970) = m
    split_ifs with hm <;> simp only [hm, iff_true, iff_false] <;> omega
  · have hlow : edge ≤ n := calc
      edge ≤ power 1024 := Nat.sub_le _ _
      _ ≤ power n.log2 := power_mono hgt
      _ ≤ n := Nat.log2_self_le hn
    simp only [hlow, iff_true]
    split_ifs <;> omega

/-- **Which integers have no nearest double.** -/
theorem ofInt?_eq_none_iff (n : Int) : ofInt? n = none ↔ edge ≤ n.natAbs :=
  ofRatio?_one_eq_none_iff _ _

end Binary

/-! ## 2. Checks on one field -/

/-- An integer that has no nearest double. -/
def Value.Oversized (v : Value) : Prop := ∃ n, v = .int n ∧ Binary.edge ≤ n.natAbs

namespace FieldCheck

/-- Whether a check is one of order, which compares doubles. -/
def IsOrder : FieldCheck → Prop
  | greaterThan | greaterThanOrEqual | lessThan | lessThanOrEqual => True
  | _ => False

/-- Whether a check has to make a double of an integer that has none. -/
def Overflows (check : FieldCheck) (v literal : Value) : Prop :=
  (check.IsOrder ∧ (v.Oversized ∨ literal.Oversized)) ∨ (check = .hasMinLength ∧ literal.Oversized)

/-- A value is compared as a double, if it is a number with one; otherwise it passes no comparison. -/
theorem amount?_cases (v : Value) :
    (¬ v.Oversized ∧ ∃ x?, amount? v = .ok x?) ∨
      (v.Oversized ∧ amount? v = .error (.arith .intTooLarge)) := by
  cases v with
  | int n =>
    have hint : (Value.int n).Oversized ↔ Binary.edge ≤ n.natAbs := by simp [Value.Oversized]
    rw [hint, ← Binary.ofInt?_eq_none_iff]
    cases h : Binary.ofInt? n <;>
      simp [amount?, Value.asFloat, Value.number?, liftArith, Except.mapError, Number.toFloat,
        intToFloat, h]
  | text s =>
    refine .inl ⟨by simp [Value.Oversized], ?_⟩
    rcases Value.asFloat_text s with ⟨x, hx⟩ | hx
    · exact ⟨some x, by simp [amount?, hx]⟩
    · exact ⟨none, by simp [amount?, hx]⟩
  | null | bool b => exact .inl ⟨by simp [Value.Oversized], none, rfl⟩
  | float x => exact .inl ⟨by simp [Value.Oversized], some x, rfl⟩
  | list vs | dict es => exact .inl ⟨by simp [Value.Oversized], none, rfl⟩

theorem compared_cases (test : Float → Float → Bool) (v literal : Value) :
    (¬ (v.Oversized ∨ literal.Oversized) ∧ ∃ b, compared test v literal = .ok b) ∨
      ((v.Oversized ∨ literal.Oversized) ∧
        compared test v literal = .error (.arith .intTooLarge)) := by
  unfold compared
  rcases amount?_cases v with ⟨hv, x?, hx⟩ | ⟨hv, hx⟩
  · rcases amount?_cases literal with ⟨hl, y?, hy⟩ | ⟨hl, hy⟩
    · refine .inl ⟨by simp [hv, hl], ?_⟩
      rw [hx, hy]
      cases x? <;> cases y? <;> exact ⟨_, rfl⟩
    · refine .inr ⟨.inr hl, ?_⟩
      rw [hx, hy]
      rfl
  · refine .inr ⟨.inl hv, ?_⟩
    rw [hx]
    rfl

/-- **A check passes or does not, unless it overflows.** -/
theorem holds_cases (check : FieldCheck) (v literal : Value) :
    (¬ check.Overflows v literal ∧ ∃ b, check.holds v literal = .ok b) ∨
      (check.Overflows v literal ∧ check.holds v literal = .error (.arith .intTooLarge)) := by
  cases check with
  | greaterThan | greaterThanOrEqual | lessThan | lessThanOrEqual =>
    simpa [Overflows, IsOrder, holds] using compared_cases _ v literal
  | hasMinLength =>
    rcases amount?_cases literal with ⟨hl, x?, hx⟩ | ⟨hl, hx⟩
    · refine .inl ⟨by simp [Overflows, IsOrder, hl], ?_⟩
      simp only [holds, hx]
      cases x? <;> cases length? v <;> exact ⟨_, rfl⟩
    · refine .inr ⟨by simp [Overflows, hl], ?_⟩
      simp only [holds, hx]
      rfl
  | contains =>
    refine .inl ⟨by simp [Overflows, IsOrder], ?_⟩
    cases v <;> exact ⟨_, rfl⟩
  | isNull | isNotNull | isTruthy | isFalsy | equals | notEquals =>
    exact .inl ⟨by simp [Overflows, IsOrder], _, rfl⟩

end FieldCheck

/-! ## 3. Paths of fields -/

/-- The value at a path, null when nothing is there. -/
theorem exists_atTextD {path : String} {p : Path} (h : Path.parse path = .ok p) (v : Value) :
    ∃ w, v.atTextD path = .ok w := by
  rw [Value.atTextD, Value.atText, h]
  exact ⟨_, rfl⟩

/-- **A path with a scope that is well formed leads to a value**, in any context and event. -/
theorem exists_lookupScoped {path : String} {p : Path}
    (hscope : (beginsWith "context." path || beginsWith "event." path) = true)
    (hp : Path.parse path = .ok p) (context event : Value) :
    ∃ v, lookupScoped path context event = .ok v := by
  obtain ⟨scope, rest, rfl⟩ := exists_join_of_begins hscope
  obtain ⟨q, hq, -⟩ := (Path.parse_scoped scope).mp hp
  exact ⟨_, lookupScoped_join scope hq context event .null⟩

namespace Guard

/-! ## 4. Guards that come of references -/

/-- The field of a guard is found in any context and event. -/
def Ready : Guard → Prop
  | field _ _ path _ => ∀ context event, ∃ v, lookupScoped path context event = .ok v
  | _ => True

theorem Ready.renamed {g : Guard} (h : g.Ready) (name : String) : (g.renamed name).Ready := by
  cases g <;> exact h

theorem parse_of_checkedPath {path guard : String} (h : checkedPath path guard = .ok ()) :
    ∃ p, Path.parse path = .ok p := by
  unfold checkedPath at h
  split at h
  · exact ⟨_, by assumption⟩
  · cases h

/-- A shorthand stands for a check of a field, whose path has a scope and is well formed. -/
theorem exists_path_of_ofShorthand {ref : String} {g : Guard} (h : ofShorthand ref = .ok g) :
    ∃ check path literal, g = .field ref check path literal ∧
      (beginsWith "context." path || beginsWith "event." path) = true ∧ ∃ p, Path.parse path = .ok p := by
  have hstop : ∀ (e : GuardRefError) (f : PUnit → Except GuardRefError Guard),
      (Except.error e >>= f) = .error e := fun _ _ => rfl
  unfold ofShorthand at h
  dsimp only at h
  split at h
  · rename_i check _
    generalize strip (cutAt ':' ((cutAt ':' ref).2.getD "")).1 = path at h
    simp only [hstop] at h
    split at h
    · cases h
    · split at h
      · rename_i hscope
        obtain ⟨_, hpath, h⟩ := bind_eq_ok.mp h
        have hparses := parse_of_checkedPath hpath
        split at h
        · cases h
          exact ⟨_, _, _, rfl, hscope, hparses⟩
        · split at h
          · cases h
          · cases h
            exact ⟨_, _, _, rfl, hscope, hparses⟩
      · cases h
  · cases h

/-- The field is found. -/
theorem exists_field_of_ofShorthand {ref : String} {g : Guard} (h : ofShorthand ref = .ok g) :
    ∃ check path literal, g = .field ref check path literal ∧
      ∀ context event, ∃ v, lookupScoped path context event = .ok v := by
  obtain ⟨check, path, literal, hg, hscope, p, hp⟩ := exists_path_of_ofShorthand h
  exact ⟨check, path, literal, hg, exists_lookupScoped hscope hp⟩

theorem ready_of_ofShorthand {ref : String} {g : Guard} (h : ofShorthand ref = .ok g) : g.Ready := by
  obtain ⟨_, _, _, rfl, hfound⟩ := exists_field_of_ofShorthand h
  exact hfound

/-- An expression stands for itself. -/
theorem eq_logic_of_ofExpression {expression : Value} {name : String} {g : Guard}
    (h : ofExpression expression name = .ok g) : g = .logic name expression := by
  unfold ofExpression at h
  dsimp only at h
  split at h
  · split at h
    · obtain ⟨_, -, h⟩ := bind_eq_ok.mp h
      cases h
      rfl
    · cases h
  · cases h

theorem ready_of_ofExpression {expression : Value} {name : String} {g : Guard}
    (h : ofExpression expression name = .ok g) : g.Ready := by
  rw [eq_logic_of_ofExpression h]
  trivial

/-- A name is looked up in the flow, then at the host, and only then read as shorthand. -/
theorem resolveFrom_text (flow : Entries) (host : String → Option HostGuard) (unused : Entries)
    (s : String) : resolveFrom flow host unused (.text s) =
      if (strip s).isEmpty then .error (.invalid (.text s))
      else match Entries.lookup (strip s) unused with
        | some definition =>
          (·.renamed (strip s)) <$>
            resolveFrom flow host (Entries.erase (strip s) unused) definition
        | none =>
          if Entries.has (strip s) flow then .error (.selfReference (strip s))
          else match host (strip s) with
            | some code => .ok (.host (strip s) code)
            | none =>
              if (strip s).toList.contains ':' then ofShorthand (strip s)
              else .error (.unknown (strip s)) := by
  rw [resolveFrom]
  generalize strip s = name
  congr 1
  cases Entries.lookup name unused <;> rfl

/-- **What holds of every shorthand, expression and code of the host holds of a guard that comes of a
reference**, however many names lead to it: each of them uses up one of the guards of the flow. -/
theorem of_resolveFrom {P : Guard → Prop} (shorthand : ∀ ref g, ofShorthand ref = .ok g → P g)
    (expression : ∀ e name g, ofExpression e name = .ok g → P g)
    (code : ∀ name c, P (.host name c)) (renamed : ∀ g name, P g → P (g.renamed name))
    {flow : Entries} {host : String → Option HostGuard} {unused : Entries} {ref : Value} {g : Guard}
    (h : resolveFrom flow host unused ref = .ok g) : P g := by
  induction hn : unused.length using Nat.strong_induction_on generalizing unused ref g with
  | _ n ih =>
    cases ref with
    | dict es =>
      rw [resolveFrom] at h
      exact expression _ _ _ h
    | text s =>
      rw [resolveFrom_text] at h
      generalize strip s = name at h
      split at h
      · cases h
      · split at h
        · rename_i definition hfound
          obtain ⟨g', hg', rfl⟩ := map_eq_ok.mp h
          have hless := length_erase_lt hfound
          exact renamed g' name (ih _ (hn ▸ hless) hg' rfl)
        · split at h
          · cases h
          · split at h
            · cases h
              exact code _ _
            · split at h
              · exact shorthand _ _ h
              · cases h
    | _ =>
      rw [resolveFrom] at h
      · cases h
      · exact fun _ hd => by cases hd
      · exact fun _ ht => by cases ht

theorem ready_of_resolve {flow : Entries} {host : String → Option HostGuard} {ref : Value} {g : Guard}
    (h : resolve flow host ref = .ok g) : g.Ready :=
  of_resolveFrom (fun _ _ => ready_of_ofShorthand) (fun _ _ _ => ready_of_ofExpression)
    (fun _ _ => trivial) (fun _ name hg => hg.renamed name) h

/-! ## 5. Verdicts -/

/-- Whether an integer stands in the way of a verdict: one that has no double where doubles are
compared, or one that cannot be written where an expression has to be quoted. -/
def Overflows (context event : Value) : Guard → Prop
  | field _ check path literal =>
    ∃ v, lookupScoped path context event = .ok v ∧ check.Overflows v literal
  | logic _ e => e.writable = false ∧ ∃ f, meaning e (.flow context event) = .error (.data f)
  | host .. => False

/-- What stands in the way. -/
def overflow : Guard → DataFault
  | field .. => .arith .intTooLarge
  | _ => .textTooLong

/-- **A guard has a verdict or fails to be evaluated, unless it overflows.** -/
theorem test_cases {g : Guard} (h : g.Ready) (context event : Value) :
    (¬ g.Overflows context event ∧
      ((∃ b, g.test context event = .ok b) ∨ ∃ e, g.test context event = .error (.evaluation e))) ∨
    (g.Overflows context event ∧ g.test context event = .error (.data g.overflow)) := by
  cases g with
  | field name check path literal =>
    obtain ⟨v, hv⟩ := h context event
    have htest : (field name check path literal).test context event =
        liftData (check.holds v literal) := by
      rw [test, hv]
      rfl
    have hoverflows : (field name check path literal).Overflows context event ↔
        check.Overflows v literal := by simp [Overflows, hv]
    rw [hoverflows, htest]
    rcases check.holds_cases v literal with ⟨hno, b, hb⟩ | ⟨hyes, hfault⟩
    · exact .inl ⟨hno, .inl ⟨b, by rw [hb]; rfl⟩⟩
    · exact .inr ⟨hyes, by rw [hfault]; rfl⟩
  | logic name e =>
    rw [test, evaluateBool]
    cases he : evaluate e context event with
    | ok v =>
      refine .inl ⟨?_, .inl ⟨v.holds, rfl⟩⟩
      rintro ⟨hlong, f, hf⟩
      have hfail := evaluate_eq_tooLong_iff.mpr ⟨rfl, hlong, f, hf⟩
      rw [he] at hfail
      cases hfail
    | error f =>
      rcases evaluate_failsOnly e context event f he with ⟨e', rfl⟩ | ⟨rfl, -⟩
      · refine .inl ⟨?_, .inr ⟨e', rfl⟩⟩
        rintro ⟨hlong, f, hf⟩
        have hfail := evaluate_eq_tooLong_iff.mpr ⟨rfl, hlong, f, hf⟩
        rw [he] at hfail
        cases hfail
      · exact .inr ⟨(evaluate_eq_tooLong_iff.mp he).2, rfl⟩
  | host name code =>
    refine .inl ⟨id, ?_⟩
    rw [test]
    cases code.decide context event with
    | ok v => exact .inl ⟨_, rfl⟩
    | error e => exact .inr ⟨_, rfl⟩

/-- The entry that a failed evaluation leaves in the log. -/
def warning (g : Guard) (e : EvalError) : LogEntry :=
  ⟨.warning, .guards, "Guard '" ++ g.name ++ "' failed to evaluate, treating as false: " ++ e.message⟩

/-- What a check makes of a guard: its verdict, false with a warning if it fails to be evaluated, and
nothing else than what stands in the way of a verdict. -/
def Decides (g : Guard) : Prop :=
  ∀ context event fx,
    (¬ g.Overflows context event ∧
      ((∃ b, g.test context event = .ok b ∧ (g.check context event).exec fx = (.ok b, fx)) ∨
        ∃ e, g.test context event = .error (.evaluation e) ∧
          (g.check context event).exec fx =
            (.ok false, { fx with log := fx.log ++ [g.warning e] }))) ∨
    (g.Overflows context event ∧ (g.check context event).exec fx = (.error (.data g.overflow), fx))

theorem decides_of_ready {g : Guard} (h : g.Ready) : g.Decides := by
  intro context event fx
  rcases test_cases h context event with ⟨hno, ⟨b, hb⟩ | ⟨e, he⟩⟩ | ⟨hyes, hfault⟩
  · exact .inl ⟨hno, .inl ⟨b, hb, check_of_test fx hb⟩⟩
  · refine .inl ⟨hno, .inr ⟨e, he, ?_⟩⟩
    have hfails : (Act.lift (g.test context event)).exec fx = (.error (.evaluation e), fx) := by
      rw [he, Act.exec_lift]
    rw [check, Act.catchEval_of_eval hfails]
    rfl
  · refine .inr ⟨hyes, ?_⟩
    simp [check, Act.catchEval, Act.exec, Act.lift, hfault]

/-- **A guard that comes of a reference decides**: its check gives a truth value unless it
overflows. -/
theorem decides_of_resolve {flow : Entries} {host : String → Option HostGuard} {ref : Value}
    {g : Guard} (h : resolve flow host ref = .ok g) : g.Decides :=
  decides_of_ready (ready_of_resolve h)

end Guard

end Statechart
