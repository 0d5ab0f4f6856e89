/-
# Canonical notation can be read

The canonical notation of a value is what the keys of kept results are made of, so it has to say which
value it is the notation of.  It says this but for two things that are lost in writing: the order in
which entries were made, and whether a key was a text or something with the same name.

* `Json.readText_textOf`: a text in quotes reads back as the text, by the reader of this library, and
  the reader stops where the text ends;
* `Json.Splits`: the notation of a value ends where it can be seen to end, so that parts that stand
  next to each other can be told apart; one lemma for each kind of value, and the whole by recursion;
* `Json.Alike`: equal but for the order of entries and the spelling of keys;
* **`Json.alike_of_canonical`**: values of one notation are alike.
-/
import Std.Data.String.ToInt
import Statechart.Json.Canonical
import Statechart.Json.Reader
import Statechart.Proofs.Shortest
import Mathlib.Data.List.Forall2

namespace Statechart

namespace Json

/-! ## 1. Texts read back -/

theorem hexValue?_digitChar : ∀ d < 16, hexValue? (Nat.digitChar d) = some d := by decide

/-- The hexadecimal digits of a number stand for it. -/
theorem foldlM_toDigits (n : Nat) :
    (Nat.toDigits 16 n).foldlM (fun n c => (hexValue? c).map (16 * n + ·)) 0 = some n := by
  induction n using Nat.strong_induction_on with
  | _ n ih =>
    rcases Nat.lt_or_ge n 16 with h | h
    · simp [Nat.toDigits_of_lt_base h, hexValue?_digitChar n h]
    · rw [Nat.toDigits_of_base_le (by decide) h, List.foldlM_append, ih (n / 16) (by omega)]
      simp only [Option.bind_eq_bind, Option.bind_some, List.foldlM_cons, List.foldlM_nil,
        hexValue?_digitChar (n % 16) (by omega), Option.map_some, Option.pure_def, Option.some.injEq]
      omega

theorem length_hexDigits {n : Nat} (h : n < 0x10000) : (hexDigits 4 n).length = 4 := by
  have := (Nat.length_toDigits_le_iff (b := 16) (n := n) (k := 4) (by decide) (by decide)).mpr (by omega)
  simp only [hexDigits, List.length_append, List.length_replicate]
  omega

theorem fourHex?_hexDigits {n : Nat} (h : n < 0x10000) : fourHex? (hexDigits 4 n) = some n := by
  have hzeros (j : Nat) : (List.replicate j '0').foldlM
      (fun n c => (hexValue? c).map (16 * n + ·)) 0 = some 0 := by
    induction j with
    | zero => rfl
    | succ j ih => simpa [List.replicate_succ, hexValue?] using ih
  unfold fourHex?
  rw [if_pos (length_hexDigits h), hexDigits, List.foldlM_append, hzeros]
  exact foldlM_toDigits n

/-- A code unit with something after it reads back. -/
theorem fourHex?_take {n : Nat} (h : n < 0x10000) {rest : List Char} (hrest : rest ≠ []) :
    ¬ (hexDigits 4 n ++ rest).length < 5 ∧ fourHex? ((hexDigits 4 n ++ rest).take 4) = some n ∧
    (hexDigits 4 n ++ rest).drop 4 = rest := by
  have hlength := length_hexDigits h
  have hpos := List.length_pos_iff.mpr hrest
  rw [List.take_left' hlength, List.drop_left' hlength, List.length_append]
  exact ⟨by omega, fourHex?_hexDigits h, rfl⟩

/-- The escape of a code unit that is no half of a pair reads back. -/
theorem readText_unitEscape (start fuel pos : Nat) {n : Nat} (h : n < 0xD800 ∨ 0xDFFF < n ∧ n < 0x10000)
    {rest : List Char} (done : List Char) (hrest : rest ≠ []) :
    readText start (fuel + 1) (unitEscape n ++ rest) pos done =
      readText start fuel rest (pos + 6) (Char.ofNat n :: done) := by
  obtain ⟨hlen, hfour, hdrop⟩ := fourHex?_take (show n < 0x10000 by omega) hrest
  simp only [unitEscape, List.cons_append, readText]
  rw [if_neg (by decide), if_pos trivial, if_neg hlen, hfour]
  simp only [hdrop]
  rw [if_neg (by omega), if_neg (by omega)]

/-- The escapes of both halves of a pair read back as one character. -/
theorem readText_pair (start fuel pos : Nat) {high low : Nat} (hhigh : 0xD800 ≤ high ∧ high < 0xDC00)
    (hlow : 0xDC00 ≤ low ∧ low < 0xE000) {rest : List Char} (done : List Char) (hrest : rest ≠ []) :
    readText start (fuel + 1) (unitEscape high ++ unitEscape low ++ rest) pos done =
      readText start fuel rest (pos + 12)
        (Char.ofNat (0x10000 + (high - 0xD800) * 0x400 + (low - 0xDC00)) :: done) := by
  obtain ⟨hlen, hfour, hdrop⟩ := fourHex?_take (show high < 0x10000 by omega)
    (show unitEscape low ++ rest ≠ [] by simp [unitEscape])
  obtain ⟨hlen', hfour', hdrop'⟩ := fourHex?_take (show low < 0x10000 by omega) hrest
  have hsecond : lowSurrogate? (unitEscape low ++ rest) = some (.ok low) := by
    simp only [unitEscape, List.cons_append, lowSurrogate?]
    rw [if_neg hlen', hfour']
    simp [hlow]
  have hdone : (unitEscape low ++ rest).drop 6 = rest := by
    simpa [unitEscape] using hdrop'
  rw [List.append_assoc]
  generalize unitEscape low ++ rest = after at *
  simp only [unitEscape, List.cons_append, readText]
  rw [if_neg (by decide), if_pos trivial, if_neg hlen, hfour]
  simp only [hdrop, hsecond, hdone]
  rw [if_pos hhigh]

/-- The characters are those numbers that are no halves of a pair. -/
theorem toNat_valid (c : Char) : c.toNat < 0xD800 ∨ 0xDFFF < c.toNat ∧ c.toNat < 0x110000 := by
  have := c.valid
  simp only [UInt32.isValidChar, Nat.isValidChar] at this
  exact this

/-- What is written for a character inside a text reads back as the character. -/
theorem readText_escapeChar (ascii : Bool) (start fuel pos : Nat) (c : Char) {rest : List Char}
    (done : List Char) (hrest : rest ≠ []) :
    readText start (fuel + 1) (escapeChar ascii c ++ rest) pos done =
      readText start fuel rest (pos + (escapeChar ascii c).length) (c :: done) := by
  have hsimple {e : Char} (he : simpleEscape? e = some c) (hu : e ≠ 'u') :
      readText start (fuel + 1) (['\\', e] ++ rest) pos done =
        readText start fuel rest (pos + ['\\', e].length) (c :: done) := by
    simp [readText, he]
  unfold escapeChar
  split
  next h => rcases h with rfl | rfl <;> exact hsimple rfl (by decide)
  next hplain =>
  split
  next h => subst h; exact hsimple rfl (by decide)
  split
  next h => subst h; exact hsimple rfl (by decide)
  split
  next h => subst h; exact hsimple rfl (by decide)
  split
  next h => subst h; exact hsimple rfl (by decide)
  split
  next h => subst h; exact hsimple rfl (by decide)
  -- no letter stands for the character
  simp only []
  split
  next =>
    have hvalid := toNat_valid c
    split
    next hsmall =>
      rw [readText_unitEscape start fuel pos (by omega) done hrest, Char.ofNat_toNat]
      simp [unitEscape, length_hexDigits hsmall]
    next hlarge =>
      obtain ⟨high, hhigh⟩ : ∃ high, high = 0xD800 + (c.toNat - 0x10000) / 0x400 := ⟨_, rfl⟩
      obtain ⟨low, hlow⟩ : ∃ low, low = 0xDC00 + (c.toNat - 0x10000) % 0x400 := ⟨_, rfl⟩
      have hsum : 0x10000 + (high - 0xD800) * 0x400 + (low - 0xDC00) = c.toNat := by omega
      rw [← hhigh, ← hlow, readText_pair start fuel pos (by omega) (by omega) done hrest, hsum,
        Char.ofNat_toNat]
      simp [unitEscape, length_hexDigits (show high < 0x10000 by omega),
        length_hexDigits (show low < 0x10000 by omega)]
  next hraw =>
    push Not at hplain
    have : ¬ c.toNat < 32 := fun h => hraw (.inl h)
    simp [readText, hplain, this]

/-- What is written for a text reads back as the text, whatever comes after it. -/
theorem readText_textOf (ascii : Bool) (start : Nat) (rest : List Char) (cs : List Char) (fuel pos : Nat)
    (done : List Char) (hfuel : cs.length < fuel) :
    ∃ pos', readText start fuel (cs.flatMap (escapeChar ascii) ++ '"' :: rest) pos done =
      .ok (String.ofList (done.reverse ++ cs), ⟨rest, pos'⟩) := by
  induction cs generalizing fuel pos done with
  | nil =>
    obtain ⟨fuel, rfl⟩ : ∃ n, fuel = n + 1 := ⟨fuel - 1, by simp at hfuel; omega⟩
    exact ⟨pos + 1, by simp [readText]⟩
  | cons c cs ih =>
    obtain ⟨fuel, rfl⟩ : ∃ n, fuel = n + 1 := ⟨fuel - 1, by simp at hfuel; omega⟩
    obtain ⟨pos', h⟩ := ih fuel (pos + (escapeChar ascii c).length) (c :: done) (by simpa using hfuel)
    refine ⟨pos', ?_⟩
    rw [List.flatMap_cons, List.append_assoc, readText_escapeChar ascii start fuel pos c done (by simp), h]
    simp

/-- A text in quotes ends where it can be seen to end. -/
theorem textOf_inj (ascii : Bool) {s t : String} {r q : List Char}
    (h : (textOf ascii s).toList ++ r = (textOf ascii t).toList ++ q) : s = t ∧ r = q := by
  simp only [textOf, String.toList_ofList, List.cons_append, List.append_assoc, List.cons.injEq,
    true_and, List.nil_append] at h
  obtain ⟨p, hs⟩ := readText_textOf ascii 0 r s.toList (s.toList.length + t.toList.length + 1) 0 [] (by omega)
  obtain ⟨p', ht⟩ := readText_textOf ascii 0 q t.toList (s.toList.length + t.toList.length + 1) 0 [] (by omega)
  rw [h, ht] at hs
  simp only [List.reverse_nil, List.nil_append, Except.ok.injEq, Prod.mk.injEq, Cursor.mk.injEq,
    String.ofList_toList] at hs
  exact ⟨hs.1.symm, hs.2.1.symm⟩

/-! ## 2. Words -/

/-- The characters that begin and end values and separate them. -/
def isMark (c : Char) : Bool := [',', ']', '}', '"', '[', '{'].contains c

/-- A text goes on with something that ends a value, or not at all. -/
def Ends (rest : List Char) : Prop := rest = [] ∨ ∃ c cs, rest = c :: cs ∧ c ∈ [',', ']', '}']

/-- A value without parts that is no text is written as one word. -/
structure IsWord (cs : List Char) : Prop where
  nonempty : cs ≠ []
  plain : ∀ c ∈ cs, isMark c = false

theorem isMark_of_end {c : Char} (h : c ∈ [',', ']', '}']) : isMark c = true := by
  simp only [List.mem_cons, List.not_mem_nil, or_false] at h
  rcases h with rfl | rfl | rfl <;> decide

theorem isWord_of_all {cs : List Char} (hne : cs ≠ []) (h : cs.all (fun c => !isMark c) = true) :
    IsWord cs where
  nonempty := hne
  plain c hc := by simpa using List.all_eq_true.mp h c hc

/-- Words end where something comes that ends a value. -/
theorem IsWord.inj {xs ys r q : List Char} (hxs : IsWord xs) (hys : IsWord ys) (hr : Ends r) (hq : Ends q)
    (h : xs ++ r = ys ++ q) : xs = ys ∧ r = q := by
  have hcut {rest : List Char} (hrest : Ends rest) : rest = [] ∨ ∃ c cs, rest = c :: cs ∧ isMark c = true :=
    hrest.imp_right fun ⟨c, cs, heq, hc⟩ => ⟨c, cs, heq, isMark_of_end hc⟩
  exact Numeral.cut_inj hxs.plain hys.plain (hcut hr) (hcut hq) h

theorem not_isMark_of_isDigit {c : Char} (h : c.isDigit = true) : isMark c = false := by
  by_contra hmark
  simp only [isMark, List.contains_eq_mem, List.mem_cons, List.not_mem_nil, or_false,
    Bool.not_eq_false, decide_eq_true_eq] at hmark
  rcases hmark with rfl | rfl | rfl | rfl | rfl | rfl <;> exact absurd h (by decide)

/-- An integer is written with a sign and digits. -/
theorem chars_int (n : Int) :
    (toString n).toList ≠ [] ∧ ∀ c ∈ (toString n).toList, c.isDigit = true ∨ c = '-' := by
  cases n with
  | ofNat n =>
    have : (toString (Int.ofNat n)).toList = Nat.toDigits 10 n := Nat.toList_repr
    rw [this]
    exact ⟨Nat.toDigits_ne_nil, fun c hc => .inl (Numeral.areDigits_toDigits n c hc)⟩
  | negSucc n =>
    have : (toString (Int.negSucc n)).toList = '-' :: Nat.toDigits 10 (n + 1) := by
      change ("-" ++ Nat.repr (n + 1)).toList = _
      simp [Nat.toList_repr]
    rw [this]
    refine ⟨by simp, ?_⟩
    intro c hc
    rcases List.mem_cons.mp hc with rfl | hc
    · exact .inr rfl
    · exact .inl (Numeral.areDigits_toDigits _ c hc)

theorem isWord_int (n : Int) : IsWord (toString n).toList where
  nonempty := (chars_int n).1
  plain c hc := by
    rcases (chars_int n).2 c hc with hc | rfl
    · exact not_isMark_of_isDigit hc
    · decide

/-- A decimal is written with a sign and digits, and a point or an exponent, which integers lack. -/
theorem chars_decimal (p : Bool) {t : String} {v : ℚ} (h : Numeral.Spells t.toList v) :
    (∀ c ∈ ((if p then "-" else "") ++ t).toList, c.isDigit = true ∨ c ∈ ['.', 'e', '+', '-']) ∧
    ∃ c ∈ ((if p then "-" else "") ++ t).toList, c.isDigit = false ∧ c ≠ '-' := by
  rw [String.toList_append]
  constructor
  · intro c hc
    rcases List.mem_append.mp hc with hc | hc
    · cases p <;> simp at hc
      exact .inr (by simp [hc])
    · exact h.chars c hc
  · rcases h.marked with hmark | hmark
    · exact ⟨'.', List.mem_append_right _ hmark, by decide, by decide⟩
    · exact ⟨'e', List.mem_append_right _ hmark, by decide, by decide⟩

/-- The fixed words have letters that decimals do not have. -/
theorem exists_letter :
    ∀ w ∈ ["null", "true", "false"], ∃ c ∈ w.toList, c.isDigit = false ∧ c ∉ ['.', 'e', '+', '-'] := by
  simp only [List.mem_cons, List.not_mem_nil, or_false]
  rintro w (rfl | rfl | rfl)
  · exact ⟨'n', by decide, by decide, by decide⟩
  · exact ⟨'t', by decide, by decide, by decide⟩
  · exact ⟨'f', by decide, by decide, by decide⟩

/-- A float is written as a word that no other value without parts is written as. -/
theorem isWord_float (x : Float) :
    IsWord (jsonFloat.write x).toList ∧
    (∃ c ∈ (jsonFloat.write x).toList, c.isDigit = false ∧ c ≠ '-') ∧
    jsonFloat.write x ∉ ["null", "true", "false"] := by
  rcases jsonFloat_cases x with ⟨b, t, v, -, hwrite, hspells, -⟩ | ⟨-, hword⟩
  · rw [hwrite]
    obtain ⟨hchars, c, hc, hdigit, hminus⟩ := chars_decimal b.negative hspells
    refine ⟨⟨List.ne_nil_of_mem hc, fun d hd => ?_⟩, ⟨c, hc, hdigit, hminus⟩, fun hword => ?_⟩
    · rcases hchars d hd with hd | hd
      · exact not_isMark_of_isDigit hd
      · simp only [List.mem_cons, List.not_mem_nil, or_false] at hd
        rcases hd with rfl | rfl | rfl | rfl <;> decide
    · obtain ⟨d, hd, hletter, hsign⟩ := exists_letter _ hword
      rcases hchars d hd with hd | hd
      · simp [hd] at hletter
      · exact hsign hd
  · rcases hword with ⟨-, h⟩ | ⟨-, h⟩ | ⟨-, h⟩ <;> rw [h]
    · exact ⟨isWord_of_all (by decide) (by decide), ⟨'N', by decide⟩, by decide⟩
    · exact ⟨isWord_of_all (by decide) (by decide), ⟨'I', by decide⟩, by decide⟩
    · exact ⟨isWord_of_all (by decide) (by decide), ⟨'I', by decide⟩, by decide⟩

/-! ## 3. Values that are written alike -/

/-- Values that differ at most in the order of entries and in the spelling of their keys: a key that is
no text counts as its name. -/
inductive Alike : Value → Value → Prop
  | refl (v : Value) : Alike v v
  | list {vs ws : List Value} (h : List.Forall₂ Alike vs ws) : Alike (.list vs) (.list ws)
  | dict {es es' fs fs' : Entries} (hes : es'.Perm es) (hfs : fs'.Perm fs)
    (hnames : es'.map (fun e => nameOf e.1) = fs'.map (fun f => nameOf f.1))
    (hvalues : List.Forall₂ Alike (es'.map (·.2)) (fs'.map (·.2))) : Alike (.dict es) (.dict fs)

/-- The mark with which the notation of a value begins; a word begins with none. -/
def opening : Value → Option Char
  | .text _ => some '"'
  | .list _ => some '['
  | .dict _ => some '{'
  | _ => none

/-- The values that are written as fixed words. -/
def constants : List (String × Value) := [("null", .null), ("true", .bool true), ("false", .bool false)]

theorem scalar_cases {v : Value} {s : String} (hv : opening v = none) (h : canonical v = .ok s) :
    (s, v) ∈ constants ∨ (∃ n, v = .int n ∧ s = toString n) ∨
      ∃ x, v = .float x ∧ s = jsonFloat.write x := by
  cases v with
  | null =>
    cases h
    exact .inl (by simp [constants])
  | bool b =>
    cases h
    cases b <;> exact .inl (by simp [constants])
  | int n =>
    simp only [canonical] at h
    split at h
    · cases h
      exact .inr (.inl ⟨n, rfl, rfl⟩)
    · cases h
  | float x =>
    cases h
    exact .inr (.inr ⟨x, rfl, rfl⟩)
  | text t => cases hv
  | list vs => cases hv
  | dict es => cases hv

theorem isWord_scalar {v : Value} {s : String} (hv : opening v = none) (h : canonical v = .ok s) :
    IsWord s.toList := by
  rcases scalar_cases hv h with hmem | ⟨n, -, rfl⟩ | ⟨x, -, rfl⟩
  · simp only [constants, List.mem_cons, Prod.mk.injEq, List.not_mem_nil, or_false] at hmem
    rcases hmem with ⟨rfl, -⟩ | ⟨rfl, -⟩ | ⟨rfl, -⟩ <;> exact isWord_of_all (by decide) (by decide)
  · exact isWord_int n
  · exact (isWord_float x).1

/-- A constant is written as no number is. -/
theorem constant_ne {v : Value} {s : String} (h : (s, v) ∈ constants) :
    (∀ n : Int, s ≠ toString n) ∧ ∀ x, s ≠ jsonFloat.write x := by
  have hword : s ∈ ["null", "true", "false"] := by
    simp only [constants, List.mem_cons, Prod.mk.injEq, List.not_mem_nil, or_false] at h ⊢
    tauto
  constructor
  · rintro n rfl
    obtain ⟨c, hc, hdigit, hsign⟩ := exists_letter _ hword
    rcases (chars_int n).2 c hc with hc | rfl
    · simp [hc] at hdigit
    · exact hsign (by decide)
  · rintro x rfl
    exact (isWord_float x).2.2 hword

theorem int_ne_float (n : Int) (x : Float) : toString n ≠ jsonFloat.write x := by
  intro h
  obtain ⟨c, hc, hdigit, hminus⟩ := (isWord_float x).2.1
  rw [← h] at hc
  rcases (chars_int n).2 c hc with hc | hc
  · simp [hc] at hdigit
  · exact hminus hc

/-- Different words for different values. -/
theorem scalar_inj {v w : Value} {s : String} (hv : opening v = none) (hw : opening w = none)
    (h : canonical v = .ok s) (h' : canonical w = .ok s) : v = w := by
  rcases scalar_cases hv h with hmem | ⟨n, rfl, rfl⟩ | ⟨x, rfl, rfl⟩
  · rcases scalar_cases hw h' with hmem' | ⟨m, rfl, hs⟩ | ⟨y, rfl, hs⟩
    · simp only [constants, List.mem_cons, Prod.mk.injEq, List.not_mem_nil, or_false] at hmem hmem'
      rcases hmem with ⟨rfl, rfl⟩ | ⟨rfl, rfl⟩ | ⟨rfl, rfl⟩ <;> simp_all
    · exact absurd hs ((constant_ne hmem).1 m)
    · exact absurd hs ((constant_ne hmem).2 y)
  · rcases scalar_cases hw h' with hmem' | ⟨m, rfl, hs⟩ | ⟨y, rfl, hs⟩
    · exact absurd rfl ((constant_ne hmem').1 n)
    · rw [Int.repr_injective hs]
    · exact absurd hs (int_ne_float n y)
  · rcases scalar_cases hw h' with hmem' | ⟨m, rfl, hs⟩ | ⟨y, rfl, hs⟩
    · exact absurd rfl ((constant_ne hmem').2 x)
    · exact absurd hs.symm (int_ne_float m x)
    · rw [jsonFloat_inj hs]

/-! ## 4. Values with parts -/

/-- What follows the first of several parts: the others, each after a comma, and the closing bracket. -/
def following (closing : Char) (rest : List Char) : List String → List Char
  | [] => closing :: rest
  | s :: ss => ',' :: ' ' :: (s.toList ++ following closing rest ss)

theorem enclosed_cons {o c : String} {opening closing : Char} (ho : o.toList = [opening])
    (hc : c.toList = [closing]) (rest : List Char) (s : String) (ss : List String) :
    (enclosed o c (s :: ss)).toList ++ rest = opening :: (s.toList ++ following closing rest ss) := by
  have h : (", ".intercalate (s :: ss)).toList ++ closing :: rest = s.toList ++ following closing rest ss := by
    induction ss generalizing s with
    | nil => simp [following]
    | cons t ts ih =>
      rw [String.intercalate_cons_cons]
      simp only [String.toList_append, List.append_assoc, ih t]
      rfl
  simpa [enclosed, ho, hc] using h

theorem ends_following {closing : Char} (hclosing : closing ∈ [']', '}']) (rest : List Char)
    (ss : List String) : Ends (following closing rest ss) := by
  cases ss with
  | nil => exact .inr ⟨closing, rest, rfl, List.mem_cons_of_mem _ hclosing⟩
  | cons s ss => exact .inr ⟨',', _, rfl, by simp⟩

section Parts

variable {α : Type} {P : α → String → Prop} {R : α → α → Prop} {closing : Char}

/-- A part written by `P` ends where it can be seen to end, and what was written is known up to `R`. -/
def Splits (P : α → String → Prop) (R : α → α → Prop) (a : α) : Prop :=
  ∀ b s t r q, P a s → P b t → Ends r → Ends q → s.toList ++ r = t.toList ++ q → R a b ∧ r = q

/-- No part written by `P` begins with the closing bracket. -/
def Starts (P : α → String → Prop) (closing : Char) : Prop :=
  ∀ a s, P a s → ∃ c cs, s.toList = c :: cs ∧ c ≠ closing

theorem following_inj (hclosing : closing ∈ [']', '}']) {as bs : List α} {ss ts : List String}
    {r q : List Char} (hsplits : ∀ a ∈ as, Splits P R a) (has : List.Forall₂ P as ss)
    (hbs : List.Forall₂ P bs ts) (h : following closing r ss = following closing q ts) :
    List.Forall₂ R as bs ∧ r = q := by
  have hcomma : ',' ≠ closing := by
    rintro rfl
    exact absurd hclosing (by decide)
  induction has generalizing bs ts with
  | nil =>
    cases hbs with
    | nil => exact ⟨.nil, (List.cons.inj h).2⟩
    | cons => exact absurd (List.cons.inj h).1 hcomma.symm
  | cons ha _ ih =>
    cases hbs with
    | nil => exact absurd (List.cons.inj h).1 hcomma
    | cons hb hbs =>
      simp only [following, List.cons.injEq, true_and] at h
      obtain ⟨hr, h⟩ := hsplits _ (by simp) _ _ _ _ _ ha hb (ends_following hclosing _ _)
        (ends_following hclosing _ _) h
      obtain ⟨hrs, hrest⟩ := ih (fun a ha => hsplits a (by simp [ha])) hbs h
      exact ⟨.cons hr hrs, hrest⟩

/-- Parts between brackets can be told apart. -/
theorem enclosed_inj {o c : String} {opening : Char} (ho : o.toList = [opening])
    (hc : c.toList = [closing]) (hclosing : closing ∈ [']', '}']) {as bs : List α} {ss ts : List String}
    {r q : List Char} (hstarts : Starts P closing) (hsplits : ∀ a ∈ as, Splits P R a)
    (has : List.Forall₂ P as ss) (hbs : List.Forall₂ P bs ts)
    (h : (enclosed o c ss).toList ++ r = (enclosed o c ts).toList ++ q) :
    List.Forall₂ R as bs ∧ r = q := by
  have hempty (rest : List Char) : (enclosed o c []).toList ++ rest = opening :: closing :: rest := by
    simp [enclosed, ho, hc]
  have hnonempty {b : α} {t : String} (hb : P b t) (ts : List String) (rest : List Char) :
      closing :: r ≠ t.toList ++ following closing rest ts ∧
      t.toList ++ following closing rest ts ≠ closing :: q := by
    obtain ⟨d, ds, hd, hne⟩ := hstarts _ _ hb
    rw [hd]
    simp [hne, Ne.symm hne]
  cases has with
  | nil =>
    cases hbs with
    | nil =>
      rw [hempty, hempty] at h
      exact ⟨.nil, by simpa using h⟩
    | cons hb hbs =>
      rw [hempty, enclosed_cons ho hc, List.cons.injEq] at h
      exact absurd h.2 (hnonempty hb _ _).1
  | cons ha has =>
    cases hbs with
    | nil =>
      rw [hempty, enclosed_cons ho hc, List.cons.injEq] at h
      exact absurd h.2 (hnonempty ha _ _).2
    | cons hb hbs =>
      rw [enclosed_cons ho hc, enclosed_cons ho hc, List.cons.injEq] at h
      obtain ⟨hr, h⟩ := hsplits _ (by simp) _ _ _ _ _ ha hb (ends_following hclosing _ _)
        (ends_following hclosing _ _) h.2
      obtain ⟨hrs, hrest⟩ := following_inj hclosing (fun a ha => hsplits a (by simp [ha])) has hbs h
      exact ⟨.cons hr hrs, hrest⟩

end Parts

theorem forall₂_of_mapM {ε α β : Type} {f : α → Except ε β} {xs : List α} {ys : List β}
    (h : xs.mapM f = .ok ys) : List.Forall₂ (fun x y => f x = .ok y) xs ys := by
  induction xs generalizing ys with
  | nil =>
    cases h
    exact .nil
  | cons x xs ih =>
    rw [List.mapM_cons] at h
    cases hx : f x with
    | error e => simp [hx, bind, Except.bind] at h
    | ok y =>
      cases hxs : xs.mapM f with
      | error e => simp [hx, hxs, bind, Except.bind] at h
      | ok zs =>
        simp only [hx, hxs, bind, Except.bind, pure, Except.pure, Except.ok.injEq] at h
        subst h
        exact .cons hx (ih hxs)

/-- Putting things in the order of their keys only moves them. -/
theorem perm_of_ordered {α : Type} {key : α → Key} {xs ys : List α} (h : Key.ordered key xs = .ok ys) :
    ys.Perm xs := by
  unfold Key.ordered at h
  dsimp only at h
  split at h
  · cases h
    exact List.mergeSort_perm xs _
  · split at h
    · cases h
    · cases h
      exact .refl _

theorem canonicalItems_eq (vs : List Value) : canonicalItems vs = vs.mapM canonical := by
  induction vs with
  | nil => rfl
  | cons v vs ih => simp [canonicalItems, ih]

theorem canonicalEntries_eq (es : Entries) :
    canonicalEntries es = es.map fun e => (e.1, canonical e.2) := by
  induction es with
  | nil => rfl
  | cons e es ih => simp [canonicalEntries, ih]

/-- The notation of an entry. -/
def WritesEntry (e : Key × Value) (part : String) : Prop :=
  ∃ s, canonical e.2 = .ok s ∧ part = textOf true (nameOf e.1) ++ ": " ++ s

/-- The notation of a list. -/
theorem list_of_canonical {vs : List Value} {s : String} (h : canonical (.list vs) = .ok s) :
    ∃ ss, List.Forall₂ (fun v t => canonical v = .ok t) vs ss ∧ s = enclosed "[" "]" ss := by
  simp only [canonical, canonicalItems_eq] at h
  cases hitems : vs.mapM canonical with
  | error e => simp [hitems] at h
  | ok ss =>
    simp only [hitems] at h
    cases h
    exact ⟨ss, forall₂_of_mapM hitems, rfl⟩

/-- The notation of a mapping. -/
theorem dict_of_canonical {es : Entries} {s : String} (h : canonical (.dict es) = .ok s) :
    ∃ es' parts, es'.Perm es ∧ List.Forall₂ WritesEntry es' parts ∧
      s = enclosed "\x7b" "\x7d" parts := by
  simp only [canonical, canonicalEntries_eq, bind, Except.bind, pure, Except.pure] at h
  split at h
  · cases h
  next ordered hordered =>
    split at h
    · cases h
    next parts hparts =>
      cases h
      obtain ⟨es', rfl, hes'⟩ := (congrFun (congrFun (List.eq_map_comp_perm
        fun e : Key × Value => (e.1, canonical e.2)) ordered) es).mpr (perm_of_ordered hordered)
      refine ⟨es', parts, hes', ?_, rfl⟩
      have hwrites := forall₂_of_mapM hparts
      rw [List.forall₂_map_left_iff] at hwrites
      refine hwrites.imp ?_
      intro e part hpart
      simp only [canonicalEntry, canonicalName, bind, Except.bind, pure, Except.pure] at hpart
      split at hpart
      · cases hpart
      next name hname =>
        split at hname
        · cases hname
          cases hvalue : canonical e.2 with
          | error f => simp [hvalue] at hpart
          | ok t =>
            simp only [hvalue, Except.ok.injEq] at hpart
            exact ⟨t, hvalue, hpart.symm⟩
        · cases hname

/-- The notation of a value begins with the mark of its kind, or else with no mark at all. -/
theorem begins_of_canonical {v : Value} {s : String} (h : canonical v = .ok s) :
    ∃ c cs, s.toList = c :: cs ∧ (opening v = none ∧ isMark c = false ∨ opening v = some c) := by
  by_cases hv : opening v = none
  · obtain ⟨hne, hplain⟩ := isWord_scalar hv h
    obtain ⟨c, cs, hc⟩ := List.exists_cons_of_ne_nil hne
    exact ⟨c, cs, hc, .inl ⟨hv, hplain c (by simp [hc])⟩⟩
  · cases v with
    | null | bool | int | float => simp [opening] at hv
    | text t =>
      cases h
      exact ⟨'"', _, by simp only [textOf, String.toList_ofList, List.cons_append]; rfl, .inr rfl⟩
    | list vs =>
      obtain ⟨ss, -, rfl⟩ := list_of_canonical h
      exact ⟨'[', _, by simp only [enclosed, String.toList_append]; rfl, .inr rfl⟩
    | dict es =>
      obtain ⟨es', parts, -, -, rfl⟩ := dict_of_canonical h
      exact ⟨'{', _, by simp only [enclosed, String.toList_append]; rfl, .inr rfl⟩

/-- Kinds of values are told apart by their first characters. -/
theorem opening_eq {v w : Value} {s t : String} {r q : List Char} (hv : canonical v = .ok s)
    (hw : canonical w = .ok t) (h : s.toList ++ r = t.toList ++ q) : opening v = opening w := by
  have hmark {u : Value} {c : Char} (hu : opening u = some c) : isMark c = true := by
    cases u <;> cases hu <;> decide
  obtain ⟨c, cs, hs, hc⟩ := begins_of_canonical hv
  obtain ⟨d, ds, ht, hd⟩ := begins_of_canonical hw
  rw [hs, ht, List.cons_append, List.cons_append, List.cons.injEq] at h
  obtain ⟨rfl, -⟩ := h
  rcases hc with ⟨hv, hplain⟩ | hv <;> rcases hd with ⟨hw, hplain'⟩ | hw
  · rw [hv, hw]
  · rw [hmark hw] at hplain
    cases hplain
  · rw [hmark hv] at hplain'
    cases hplain'
  · rw [hv, hw]

theorem starts_canonical {closing : Char} (hclosing : closing ∈ [']', '}']) :
    Starts (fun v s => canonical v = .ok s) closing := by
  intro v s h
  obtain ⟨c, cs, hs, hc⟩ := begins_of_canonical h
  refine ⟨c, cs, hs, ?_⟩
  rintro rfl
  rcases hc with ⟨-, hplain⟩ | hv
  · rw [isMark_of_end (List.mem_cons_of_mem _ hclosing)] at hplain
    cases hplain
  · cases v <;> cases hv <;> exact absurd hclosing (by decide)

theorem starts_writesEntry {closing : Char} (hclosing : closing ∈ [']', '}']) :
    Starts WritesEntry closing := by
  rintro e part ⟨s, -, rfl⟩
  refine ⟨'"', _, by
    simp only [textOf, String.toList_append, String.toList_ofList, List.cons_append]
    rfl, ?_⟩
  rintro rfl
  exact absurd hclosing (by decide)

/-- An entry can be told apart if its value can. -/
theorem Splits.entry {e : Key × Value} (h : Splits (fun v s => canonical v = .ok s) Alike e.2) :
    Splits WritesEntry (fun e f => nameOf e.1 = nameOf f.1 ∧ Alike e.2 f.2) e := by
  rintro f s t r q ⟨s, hs, rfl⟩ ⟨t, ht, rfl⟩ hr hq heq
  simp only [String.toList_append, List.append_assoc] at heq
  obtain ⟨hname, heq⟩ := textOf_inj true heq
  obtain ⟨halike, hrest⟩ := h f.2 s t r q hs ht hr hq (List.append_cancel_left heq)
  exact ⟨⟨hname, halike⟩, hrest⟩

theorem splits_scalar {v : Value} (hv : opening v = none) :
    Splits (fun v s => canonical v = .ok s) Alike v := by
  intro w s t r q hs ht hr hq h
  have hw : opening w = none := (opening_eq hs ht h).symm.trans hv
  obtain ⟨hst, hrest⟩ := (isWord_scalar hv hs).inj (isWord_scalar hw ht) hr hq h
  obtain rfl := String.toList_inj.mp hst
  obtain rfl := scalar_inj hv hw hs ht
  exact ⟨.refl v, hrest⟩

theorem splits_text (a : String) : Splits (fun v s => canonical v = .ok s) Alike (.text a) := by
  intro w s t r q hs ht _ _ h
  have hw := opening_eq hs ht h
  obtain ⟨b, rfl⟩ : ∃ b, w = .text b := by cases w <;> simp [opening] at hw ⊢
  cases hs
  cases ht
  obtain ⟨rfl, hrest⟩ := textOf_inj true h
  exact ⟨.refl _, hrest⟩

theorem splits_list {vs : List Value} (hvs : ∀ v ∈ vs, Splits (fun v s => canonical v = .ok s) Alike v) :
    Splits (fun v s => canonical v = .ok s) Alike (.list vs) := by
  intro w s t r q hs ht _ _ h
  have hw := opening_eq hs ht h
  obtain ⟨ws, rfl⟩ : ∃ ws, w = .list ws := by cases w <;> simp [opening] at hw ⊢
  obtain ⟨ss, hss, rfl⟩ := list_of_canonical hs
  obtain ⟨ts, hts, rfl⟩ := list_of_canonical ht
  obtain ⟨halike, hrest⟩ := enclosed_inj rfl rfl (by decide) (starts_canonical (by decide)) hvs hss hts h
  exact ⟨.list halike, hrest⟩

theorem splits_dict {es : Entries}
    (hes : ∀ e ∈ es, Splits (fun v s => canonical v = .ok s) Alike e.2) :
    Splits (fun v s => canonical v = .ok s) Alike (.dict es) := by
  intro w s t r q hs ht _ _ h
  have hw := opening_eq hs ht h
  obtain ⟨fs, rfl⟩ : ∃ fs, w = .dict fs := by cases w <;> simp [opening] at hw ⊢
  obtain ⟨es', ss, hperm, hss, rfl⟩ := dict_of_canonical hs
  obtain ⟨fs', ts, hperm', hts, rfl⟩ := dict_of_canonical ht
  obtain ⟨halike, hrest⟩ := enclosed_inj rfl rfl (by decide) (starts_writesEntry (by decide))
    (fun e he => (hes e (hperm.mem_iff.mp he)).entry) hss hts h
  refine ⟨.dict hperm hperm' ?_ ?_, hrest⟩
  · rw [← List.forall₂_eq_eq_eq, List.forall₂_map_left_iff, List.forall₂_map_right_iff]
    exact halike.imp fun _ _ h => h.1
  · rw [List.forall₂_map_left_iff, List.forall₂_map_right_iff]
    exact halike.imp fun _ _ h => h.2

/-- The notation of a value ends where it can be seen to end, and says what the value is but for the
order of entries and the spelling of keys. -/
theorem splits_canonical : (v : Value) → Splits (fun v s => canonical v = .ok s) Alike v
  | .null => splits_scalar rfl
  | .bool _ => splits_scalar rfl
  | .int _ => splits_scalar rfl
  | .float _ => splits_scalar rfl
  | .text a => splits_text a
  | .list vs => splits_list fun v _ => splits_canonical v
  | .dict es => splits_dict fun e _ => splits_canonical e.2
termination_by v => sizeOf v
decreasing_by
  · have := List.sizeOf_lt_of_mem ‹_›
    simp
    omega
  · have := List.sizeOf_lt_of_mem ‹e ∈ es›
    obtain ⟨k, v⟩ := e
    simp at this ⊢
    omega

/-- Values of one canonical notation are alike. -/
theorem alike_of_canonical {v w : Value} {s : String} (hv : canonical v = .ok s)
    (hw : canonical w = .ok s) : Alike v w :=
  (splits_canonical v w s s [] [] hv hw (.inl rfl) (.inl rfl) rfl).1

theorem Alike.text_inj {s t : String} (h : Alike (.text s) (.text t)) : s = t := by
  cases h
  rfl

end Json

end Statechart
