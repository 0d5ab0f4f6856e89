/-
# Values that can be written

An integer of more than `Numeral.digitLimit` digits cannot be written in decimal, and so neither can a
value that holds one.  It cannot be read in decimal either: whatever is read from a JSON text can be
written again.  Such an integer has to be computed, or written in another base, as YAML allows.

This is all that keeps an evaluation from its word.  An expression that fails on its operands is quoted
in the complaint, and a complaint that cannot be written is no failed evaluation but a failure of
writing:

* `Numeral.natAbs_lt_of_int`, `Json.writable_of_read`: what is read is within the limit;
* **`evaluates_or_complains`**: an evaluation comes to a value or a failed evaluation, exactly unless
  its complaint cannot be written, which an expression that was read from JSON always can;
* `unsaid_of_oversized`: an expression that is too long to be quoted.
-/
import Statechart.Proofs.Evaluation

namespace Statechart

/-! ## 1. Numerals -/

theorem decimalValue?_lt {c : Char} {d : Nat} (h : decimalValue? c = some d) : d < 10 := by
  unfold decimalValue? at h
  split at h
  · split at h
    · rename_i hdigit
      simp only [Char.isDigit, Bool.and_eq_true, decide_eq_true_eq] at hdigit
      obtain rfl := Option.some.inj h
      have htop : c.toNat ≤ '9'.toNat := hdigit.2
      have hnine : '9'.toNat = 57 := rfl
      omega
    · cases h
  · obtain ⟨_, -, rfl⟩ := Option.map_eq_some_iff.mp h
    exact Nat.mod_lt _ (by omega)

namespace Numeral

theorem lt_of_digitRun? {cs : List Char} {ds : List Nat} (h : digitRun? cs = some ds) :
    ∀ d ∈ ds, d < 10 := by
  fun_induction digitRun? cs generalizing ds with
  | case1 => cases h
  | case2 c =>
    obtain ⟨d, hd, rfl⟩ := Option.map_eq_some_iff.mp h
    simpa using decimalValue?_lt hd
  | case3 c d rest ihSkip ihNext =>
    obtain ⟨v, hv, h⟩ := Option.bind_eq_some_iff.mp h
    -- an underscore between two digits is passed over
    have htail : ∃ ds', ds = v :: ds' ∧ ∀ e ∈ ds', e < 10 := by
      split at h
      · obtain ⟨ds', hds, h⟩ := Option.bind_eq_some_iff.mp h
        exact ⟨ds', (Option.some.inj h).symm, ihSkip hds⟩
      · obtain ⟨ds', hds, h⟩ := Option.bind_eq_some_iff.mp h
        exact ⟨ds', (Option.some.inj h).symm, ihNext hds⟩
    obtain ⟨ds', rfl, hlt⟩ := htail
    exact List.forall_mem_cons.mpr ⟨decimalValue?_lt hv, hlt⟩

/-- A run of digits stands for less than the power of ten that has one more digit. -/
theorem valueOf_lt {ds : List Nat} (h : ∀ d ∈ ds, d < 10) (start : Nat) :
    valueOf ds start < (start + 1) * Nat.pow 10 ds.length := by
  induction ds generalizing start with
  | nil => simp [valueOf]
  | cons d ds ih =>
    have hd : d < 10 := h d (by simp)
    have hstep : 10 * start + d + 1 ≤ (start + 1) * 10 := by omega
    calc valueOf (d :: ds) start = valueOf ds (10 * start + d) := rfl
      _ < (10 * start + d + 1) * Nat.pow 10 ds.length := ih (fun e he => h e (by simp [he])) _
      _ ≤ (start + 1) * 10 * Nat.pow 10 ds.length := Nat.mul_le_mul_right _ hstep
      _ = (start + 1) * Nat.pow 10 (d :: ds).length := by
        rw [Nat.mul_assoc, List.length_cons, Nat.mul_comm 10]
        rfl

/-- **An integer that is read can be written.** -/
theorem natAbs_lt_of_int {s : String} {n : Int} (h : int s = .ok n) :
    n.natAbs < Value.writable.bound := by
  unfold Value.writable.bound
  unfold int at h
  dsimp only at h
  split at h
  · cases h
  · rename_i ds hds
    split at h
    · cases h
    · rename_i hlength
      have hmono : ∀ a b : Nat, a ≤ b → Nat.pow 10 a ≤ Nat.pow 10 b := fun _ _ hab =>
        Nat.pow_le_pow_right (by omega) hab
      have hvalue : valueOf ds < Nat.pow 10 digitLimit := calc
        valueOf ds < (0 + 1) * Nat.pow 10 ds.length := valueOf_lt (lt_of_digitRun? hds) 0
        _ = Nat.pow 10 ds.length := by rw [Nat.zero_add, Nat.one_mul]
        _ ≤ Nat.pow 10 digitLimit := hmono _ _ (Nat.le_of_not_lt hlength)
      obtain rfl := Except.ok.inj h
      generalize Nat.pow 10 digitLimit = bound at hvalue ⊢
      split <;> omega

end Numeral

/-! ## 2. Values that are read from JSON -/

namespace Value

theorem writable_int {n : Int} :
    (Value.int n).writable = true ↔ n.natAbs < writable.bound := by
  rw [writable, writable.go]
  exact decide_eq_true_iff

theorem writable_list {vs : List Value} :
    (Value.list vs).writable = true ↔ ∀ v ∈ vs, v.writable = true := by
  have hitems : ∀ vs, writable.goItems vs = true ↔ ∀ v ∈ vs, v.writable = true := by
    intro vs
    induction vs with
    | nil => simp [writable.goItems]
    | cons v vs ih => simp [writable.goItems, ih, writable]
  exact hitems vs

theorem writable_dict {es : Entries} :
    (Value.dict es).writable = true ↔ ∀ e ∈ es, writable.goKey e.1 = true ∧ e.2.writable = true := by
  have hentries : ∀ es, writable.goEntries es = true ↔
      ∀ e ∈ es, writable.goKey e.1 = true ∧ e.2.writable = true := by
    intro es
    induction es with
    | nil => simp [writable.goEntries]
    | cons e es ih =>
      obtain ⟨k, v⟩ := e
      simp [writable.goEntries, ih, writable, and_assoc]
  exact hentries es

theorem writable_insert {s : String} {v : Value} {es : Entries} (hv : v.writable = true)
    (hes : (Value.dict es).writable = true) : (Value.dict (Entries.insert s v es)).writable = true := by
  induction es with
  | nil => simpa [Entries.insert, writable_dict, writable.goKey] using hv
  | cons e es ih =>
    obtain ⟨k, w⟩ := e
    have htail := ih (writable_dict.mpr fun x hx => writable_dict.mp hes x (by simp [hx]))
    have hhead := writable_dict.mp hes (k, w) (by simp)
    rw [writable_dict] at htail ⊢
    unfold Entries.insert
    split
    · intro x hx
      rcases List.mem_cons.mp hx with rfl | hx
      · exact ⟨hhead.1, hv⟩
      · exact writable_dict.mp hes x (by simp [hx])
    · intro x hx
      rcases List.mem_cons.mp hx with rfl | hx
      · exact hhead
      · exact htail x hx

end Value

namespace Json

theorem writable_of_readNumber {c c' : Cursor} {v : Value} (h : readNumber c = .ok (v, c')) :
    v.writable = true := by
  unfold readNumber at h
  split at h
  · cases h
  · dsimp only at h
    split at h
    · cases h
      rfl
    · split at h
      · rename_i n hn
        cases h
        exact Value.writable_int.mpr (Numeral.natAbs_lt_of_int hn)
      · cases h
      · cases h

theorem writable_of_word? {c c' : Cursor} {v : Value} (h : word? c = some (v, c')) :
    v.writable = true := by
  obtain ⟨⟨w, u⟩, hfind, hpair⟩ := Option.map_eq_some_iff.mp h
  cases hpair
  have hall : ∀ e ∈ words, e.2.writable = true := by
    simp [words, Value.writable, Value.writable.go]
  exact hall _ (List.mem_of_find?_eq_some hfind)

/-- What every step of a fold keeps holds in the end. -/
theorem holds_of_foldlM {ε α β : Type} {P : β → Prop} {f : β → α → Except ε β} {xs : List α} {b b' : β}
    (hstep : ∀ b a b', a ∈ xs → P b → f b a = .ok b' → P b') (hb : P b)
    (h : xs.foldlM f b = .ok b') : P b' := by
  induction xs generalizing b with
  | nil =>
    cases h
    exact hb
  | cons x xs ih =>
    rw [List.foldlM_cons] at h
    obtain ⟨b₁, hfirst, h⟩ := bind_eq_ok.mp h
    exact ih (fun b a b' ha => hstep b a b' (by simp [ha])) (hstep b x b₁ (by simp) hb hfirst) h

theorem writable_of_ofPairs {policy : Duplicates} {pairs : List (String × Value)} {v : Value}
    (hpairs : ∀ e ∈ pairs, e.2.writable = true) (h : ofPairs policy pairs = .ok v) :
    v.writable = true := by
  obtain ⟨es, hes, rfl⟩ := map_eq_ok.mp h
  refine holds_of_foldlM (P := fun es => (Value.dict es).writable = true) ?_ rfl hes
  intro es e es' he hok hstep
  dsimp only at hstep
  split at hstep
  · cases hstep
  · cases hstep
    exact Value.writable_insert (hpairs e he) hok

/-- What is read at a place can be written if what has been read before it can. -/
theorem writable_of_readFrom (policy : Duplicates) (fuel : Nat) :
    (∀ c v c', readValue policy fuel c = .ok (v, c') → v.writable = true) ∧
      (∀ c done v c', (∀ e ∈ done, e.2.writable = true) →
        readEntries policy fuel c done = .ok (v, c') → v.writable = true) ∧
      ∀ c done v c', (∀ w ∈ done, w.writable = true) →
        readItems policy fuel c done = .ok (v, c') → v.writable = true := by
  induction fuel with
  | zero =>
    refine ⟨?_, ?_, ?_⟩
    · intro c v c' h
      cases h
    · intro c done v c' _ h
      cases h
    · intro c done v c' _ h
      cases h
  | succ fuel ih =>
    obtain ⟨ihValue, ihEntries, ihItems⟩ := ih
    refine ⟨?_, ?_, ?_⟩
    · intro c v c' h
      rw [readValue] at h
      split at h
      · obtain ⟨⟨s, c₁⟩, -, h⟩ := bind_eq_ok.mp h
        cases h
        rfl
      · dsimp only at h
        split at h
        · cases h
          rfl
        · exact ihEntries _ _ _ _ (by simp) h
      · dsimp only at h
        split at h
        · cases h
          rfl
        · exact ihItems _ _ _ _ (by simp) h
      · split at h
        · rename_i found hfound
          cases h
          exact writable_of_word? hfound
        · exact writable_of_readNumber h
    · intro c done v c' hdone h
      rw [readEntries] at h
      split at h
      · obtain ⟨⟨name, c₁⟩, -, h⟩ := bind_eq_ok.mp h
        dsimp only at h
        split at h
        · obtain ⟨⟨w, c₂⟩, hw, h⟩ := bind_eq_ok.mp h
          have hall : ∀ e ∈ (name, w) :: done, e.2.writable = true :=
            List.forall_mem_cons.mpr ⟨ihValue _ _ _ hw, hdone⟩
          dsimp only at h
          split at h
          · obtain ⟨u, hu, h⟩ := bind_eq_ok.mp h
            cases h
            exact writable_of_ofPairs (fun e he => hall e (List.mem_reverse.mp he)) hu
          · exact ihEntries _ _ _ _ hall h
          · cases h
        · cases h
      · cases h
    · intro c done v c' hdone h
      rw [readItems] at h
      obtain ⟨⟨w, c₁⟩, hw, h⟩ := bind_eq_ok.mp h
      have hall : ∀ u ∈ w :: done, u.writable = true :=
        List.forall_mem_cons.mpr ⟨ihValue _ _ _ hw, hdone⟩
      dsimp only at h
      split at h
      · cases h
        exact Value.writable_list.mpr fun u hu => hall u (List.mem_reverse.mp hu)
      · exact ihItems _ _ _ _ hall h
      · cases h

/-- **What is read from a JSON text can be written.** -/
theorem writable_of_read {text : String} {policy : Duplicates} {v : Value}
    (h : read text policy = .ok v) : v.writable = true := by
  have h := mapError_eq_ok.mp h
  split at h
  · cases h
  · obtain ⟨⟨w, c⟩, hvalue, h⟩ := bind_eq_ok.mp h
    have hw := (writable_of_readFrom policy _).1 _ _ _ hvalue
    dsimp only at h
    split at h
    · cases h
      exact hw
    · cases h

end Json

/-! ## 3. What an evaluation comes to -/

/-- **An evaluation comes to a value or a failed evaluation**, or to a complaint that cannot be written:
this it does exactly if an operation fails inside an expression that cannot be written itself, which
no expression is that was read from a JSON text. -/
theorem evaluates_or_complains (expr context event : Value) :
    ((∃ v, evaluate expr context event = .ok v) ∨
        (∃ e, evaluate expr context event = .error (.evaluation e)) ∨
        evaluate expr context event = .error (.data .textTooLong)) ∧
      (evaluate expr context event = .error (.data .textTooLong) ↔
        expr.writable = false ∧ ∃ e, meaning expr (.flow context event) = .error (.data e)) ∧
      ∀ text policy, Json.read text policy = .ok expr →
        (∃ v, evaluate expr context event = .ok v) ∨
          ∃ e, evaluate expr context event = .error (.evaluation e) := by
  have hcases : (∃ v, evaluate expr context event = .ok v) ∨
      (∃ e, evaluate expr context event = .error (.evaluation e)) ∨
      (evaluate expr context event = .error (.data .textTooLong) ∧ expr.writable = false) := by
    cases h : evaluate expr context event with
    | ok v => exact .inl ⟨v, rfl⟩
    | error f =>
      rcases evaluate_failsOnly expr context event f h with ⟨e, rfl⟩ | ⟨rfl, hlong⟩
      · exact .inr (.inl ⟨e, rfl⟩)
      · exact .inr (.inr ⟨rfl, hlong⟩)
  refine ⟨?_, ?_, fun text policy hread => ?_⟩
  · rcases hcases with hok | he | ⟨hlong, -⟩
    · exact .inl hok
    · exact .inr (.inl he)
    · exact .inr (.inr hlong)
  · rw [evaluate_eq_tooLong_iff]
    simp
  · have hwritable := Json.writable_of_read hread
    rcases hcases with hok | he | ⟨-, hlong⟩
    · exact .inl hok
    · exact .inr he
    · rw [hwritable] at hlong
      cases hlong

/-- A quotient by null that is read from a text comes to one or the other. -/
theorem evaluates_or_complains_read :
    ∃ expr, Json.read "\x7b\"/\": [1, null]\x7d" .keepLast = .ok expr ∧
      ((∃ v, evaluate expr .null .null = .ok v) ∨
        ∃ e, evaluate expr .null .null = .error (.evaluation e)) := by
  have hok : (Json.read "\x7b\"/\": [1, null]\x7d" .keepLast).isOk = true := by decide +kernel
  cases hread : Json.read "\x7b\"/\": [1, null]\x7d" .keepLast with
  | error e =>
    rw [hread] at hok
    cases hok
  | ok expr => exact ⟨expr, rfl, (evaluates_or_complains expr .null .null).2.2 _ _ hread⟩

/-- A quotient whose dividend is written in another base than ten. -/
def oversizedQuotient : Value :=
  .dict [(.text "/", .list [.int (Int.pow 16 3600), .int 3])]

/-- Whether a complaint could not be written. -/
def isUnsaid {α : Type} : Except Fault α → Bool
  | .error (.data .textTooLong) => true
  | _ => false

theorem eq_of_isUnsaid {α : Type} {r : Except Fault α} (h : isUnsaid r = true) :
    r = .error (.data .textTooLong) := by
  unfold isUnsaid at h
  split at h
  · rfl
  · cases h

/-- The quotient is too large for a double, and the complaint about it cannot be written. -/
theorem unsaid_of_oversized :
    evaluate oversizedQuotient .null .null = .error (.data .textTooLong) ∧
      ¬ ((∃ v, evaluate oversizedQuotient .null .null = .ok v) ∨
        ∃ e, evaluate oversizedQuotient .null .null = .error (.evaluation e)) := by
  have hunsaid : evaluate oversizedQuotient .null .null = .error (.data .textTooLong) :=
    eq_of_isUnsaid (by decide +kernel)
  refine ⟨hunsaid, ?_⟩
  rw [hunsaid]
  rintro (⟨v, hv⟩ | ⟨e, he⟩)
  · cases hv
  · cases he

end Statechart
