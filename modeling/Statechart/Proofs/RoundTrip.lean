/-
# What is written as JSON is read back

JSON as other programs usually write it, in ASCII and with a blank after commas and colons, is read as
the value that was written.  The reader goes by the characters in front and by fuel, so what is proved of
a part is that it is read with whatever comes after it, as long as there is more fuel than text.

* `Json.spaced`: a value in this notation;
* `Json.IsJson`: the values that can be written so, with a condition on their texts;
* `Json.Reads`: what is written for a part is read as this part;
* **`Json.read_spaced`**: what is written for a value is read as this value.
-/
import Statechart.Proofs.Numerals

namespace Statechart

namespace Value

variable {s : String} {fields : List (String × Value)}

/-- A new key comes last. -/
theorem insert_record (v : Value) (h : s ∉ fields.map (·.1)) :
    Entries.insert s v (record fields).entries = (record (fields ++ [(s, v)])).entries := by
  induction fields with
  | nil => rfl
  | cons field fields ih =>
    obtain ⟨t, w⟩ := field
    simp only [List.map_cons, List.mem_cons, not_or] at h
    have hkey : Key.text t ≠ Key.text s := by simpa using Ne.symm h.1
    have htail := ih h.2
    simp only [record, entries, List.map_cons, List.cons_append, Entries.insert, if_neg hkey] at htail ⊢
    rw [htail]

theorem has_record (h : s ∉ fields.map (·.1)) : Entries.has s (record fields).entries = false := by
  induction fields with
  | nil => rfl
  | cons field fields ih =>
    obtain ⟨t, w⟩ := field
    simp only [List.map_cons, List.mem_cons, not_or] at h
    have hkey : Key.text t ≠ Key.text s := by simpa using Ne.symm h.1
    have htail := ih h.2
    simp only [record, entries, List.map_cons, Entries.has, Entries.lookup_cons, if_neg hkey] at htail ⊢
    exact htail

end Value

namespace Json

open Numeral

variable {policy : Duplicates} {Q : String → Prop}

/-! ## 1. The notation -/

mutual

/-- A value in ASCII, with a blank after commas and colons. -/
def spaced : Value → String
  | .null => "null"
  | .bool b => if b then "true" else "false"
  | .int n => toString n
  | .float x => jsonFloat.write x
  | .text s => textOf true s
  | .list vs => enclosed "[" "]" (spacedItems vs)
  | .dict es => enclosed "\x7b" "\x7d" (spacedEntries es)

def spacedItems : List Value → List String
  | [] => []
  | v :: vs => spaced v :: spacedItems vs

def spacedEntries : List (Key × Value) → List String
  | [] => []
  | (k, v) :: es => (textOf true (nameOf k) ++ ": " ++ spaced v) :: spacedEntries es

end

/-- An entry of a mapping in this notation. -/
def spacedField (field : String × Value) : String := textOf true field.1 ++ ": " ++ spaced field.2

theorem spaced_list (vs : List Value) : spaced (.list vs) = enclosed "[" "]" (vs.map spaced) := by
  have hitems : ∀ vs, spacedItems vs = vs.map spaced := by
    intro vs
    induction vs with
    | nil => rfl
    | cons v vs ih => rw [spacedItems, ih, List.map_cons]
  rw [spaced, hitems]

theorem spaced_record (fields : List (String × Value)) :
    spaced (.record fields) = enclosed "\x7b" "\x7d" (fields.map spacedField) := by
  have hentries : spacedEntries (Value.record fields).entries = fields.map spacedField := by
    induction fields with
    | nil => rfl
    | cons field fields ih =>
      obtain ⟨s, v⟩ := field
      simp only [Value.record, Value.entries, List.map_cons, spacedEntries] at ih ⊢
      rw [ih]
      rfl
  rw [← hentries]
  rfl

/-- The values of JSON that can be written, with a condition on their texts: the keys of mappings are texts,
no two of one mapping alike, and integers are not too long. -/
inductive IsJson (Q : String → Prop) : Value → Prop
  | null : IsJson Q .null
  | bool (b : Bool) : IsJson Q (.bool b)
  | int {n : Int} (size : n.natAbs < Value.writable.bound) : IsJson Q (.int n)
  | float (x : Float) : IsJson Q (.float x)
  | text {s : String} (text : Q s) : IsJson Q (.text s)
  | list {vs : List Value} (items : ∀ v ∈ vs, IsJson Q v) : IsJson Q (.list vs)
  | record {fields : List (String × Value)} (distinct : (fields.map (·.1)).Nodup)
    (keys : ∀ field ∈ fields, Q field.1) (values : ∀ field ∈ fields, IsJson Q field.2) :
    IsJson Q (.record fields)

/-! ## 2. Blanks between parts -/

theorem skipSpace_cons {c : Char} (h : Cursor.isSpace c = false) (cs : List Char) (position : Nat) :
    Cursor.skipSpace ⟨c :: cs, position⟩ = ⟨c :: cs, position⟩ := by
  simp [Cursor.skipSpace, Cursor.skip, h]

theorem skipSpace_blank {c : Char} (h : Cursor.isSpace c = false) (cs : List Char) (position : Nat) :
    Cursor.skipSpace ⟨' ' :: c :: cs, position⟩ = ⟨c :: cs, position + 1⟩ := by
  have hblank : Cursor.isSpace ' ' = true := by decide
  simp [Cursor.skipSpace, Cursor.skip, h, hblank]

theorem skipSpace_ends {rest : List Char} (h : Ends rest) (position : Nat) :
    Cursor.skipSpace ⟨rest, position⟩ = ⟨rest, position⟩ := by
  rcases h with rfl | ⟨c, cs, rfl, hc⟩
  · rfl
  · refine skipSpace_cons ?_ cs position
    exact List.all_iff_forall_prop.mp (by decide : [',', ']', '}'].all fun c => Cursor.isSpace c = false) c hc

/-! ## 3. Parts that are read -/

/-- A character that is neither passed over nor taken for the end of a list. -/
structure IsFirst (c : Char) : Prop where
  ascii : c.toNat < 128
  space : Cursor.isSpace c = false
  inside : c ≠ ']'

/-- What is written begins with such a character. -/
def Begins (s : String) : Prop := ∃ c cs, s.toList = c :: cs ∧ IsFirst c

theorem Begins.append {s : String} (h : Begins s) (rest : List Char) :
    ∃ c cs, s.toList ++ rest = c :: cs ∧ IsFirst c := by
  obtain ⟨c, cs, hs, hc⟩ := h
  exact ⟨c, cs ++ rest, by rw [hs, List.cons_append], hc⟩

/-- What is written is read as the value, with whatever comes after it that ends a value. -/
structure Reads (policy : Duplicates) (s : String) (v : Value) : Prop where
  begins : Begins s
  reads : ∀ fuel rest position, 2 * (s.toList ++ rest).length ≤ fuel → Ends rest →
    ∃ position', readValue policy fuel ⟨s.toList ++ rest, position⟩ = .ok (v, ⟨rest, position'⟩)

/-- A word or a number is what is in front if no mark is. -/
theorem readValue_of_plain {c : Char} (h : isMark c = false) (fuel : Nat) (cs : List Char) (position : Nat) :
    readValue policy (fuel + 1) ⟨c :: cs, position⟩ =
      match word? ⟨c :: cs, position⟩ with
      | some found => .ok found
      | none => readNumber ⟨c :: cs, position⟩ := by
  unfold readValue
  split
  · rename_i heq
    cases heq
    exact absurd h (by decide)
  · rename_i heq
    cases heq
    exact absurd h (by decide)
  · rename_i heq
    cases heq
    exact absurd h (by decide)
  · rfl

/-- Words are read as what they stand for. -/
theorem word?_append {w : String} {v : Value} (h : (w, v) ∈ words) (rest : List Char) (position : Nat) :
    word? ⟨w.toList ++ rest, position⟩ = some (v, ⟨rest, position + w.length⟩) := by
  simp only [words, List.mem_cons, Prod.mk.injEq, List.not_mem_nil, or_false] at h
  rcases h with ⟨rfl, rfl⟩ | ⟨rfl, rfl⟩ | ⟨rfl, rfl⟩ | ⟨rfl, rfl⟩ | ⟨rfl, rfl⟩ | ⟨rfl, rfl⟩ <;> rfl

/-- No word begins as a number does. -/
theorem word?_of_isDigit (negative : Bool) {d : Char} (h : d.isDigit = true) (rest : List Char) (position : Nat) :
    word? ⟨signOf negative ++ d :: rest, position⟩ = none := by
  have hletters : ∀ c ∈ ['n', 't', 'f', 'N', 'I', '-'], c ≠ d := by
    rintro c hc rfl
    simp only [List.mem_cons, List.not_mem_nil, or_false] at hc
    rcases hc with rfl | rfl | rfl | rfl | rfl | rfl <;> exact absurd h (by decide)
  simp only [List.mem_cons, List.not_mem_nil, or_false, forall_eq_or_imp, forall_eq] at hletters
  cases negative <;> simp [word?, words, signOf, hletters]

theorem reads_word {w : String} {v : Value} (h : (w, v) ∈ words) : Reads policy w v := by
  have hfirst : ∀ w ∈ words.map (·.1), ∃ c cs, w.toList = c :: cs ∧ IsFirst c ∧ isMark c = false := by
    simp only [words, List.map_cons, List.map_nil, List.mem_cons, List.not_mem_nil, or_false]
    rintro w (rfl | rfl | rfl | rfl | rfl | rfl) <;>
      exact ⟨_, _, rfl, ⟨by decide, by decide, by decide⟩, by decide⟩
  obtain ⟨c, cs, hw, hc, hmark⟩ := hfirst w (List.mem_map_of_mem h)
  refine ⟨⟨c, cs, hw, hc⟩, ?_⟩
  intro fuel rest position hfuel _
  obtain ⟨fuel, rfl⟩ : ∃ n, fuel = n + 1 := ⟨fuel - 1, by simp [hw] at hfuel; omega⟩
  have hword := word?_append h rest position
  rw [hw, List.cons_append] at hword ⊢
  rw [readValue_of_plain hmark, hword]
  exact ⟨_, rfl⟩

/-- What is written for a number is read as this number. -/
theorem reads_number {s : String} {v : Value} {negative : Bool} {d : Char} {ds : List Char}
    (hs : s.toList = signOf negative ++ d :: ds) (hd : d.isDigit = true) (h : ReadsNumber s v) :
    Reads policy s v := by
  obtain ⟨c, cs, hc, hfirst, hmark⟩ : ∃ c cs, s.toList = c :: cs ∧ IsFirst c ∧ isMark c = false := by
    cases negative with
    | true => exact ⟨'-', d :: ds, hs, ⟨by decide, by decide, by decide⟩, by decide⟩
    | false =>
      have hmark := not_isMark_of_isDigit hd
      have hdigit := toNat_of_isDigit hd
      refine ⟨d, ds, hs, ⟨by omega, ?_, ?_⟩, hmark⟩
      · rw [Cursor.isSpace, decide_eq_false_iff_not]
        rintro (rfl | rfl | rfl | rfl) <;> exact absurd hd (by decide)
      · rintro rfl
        exact absurd hmark (by decide)
  refine ⟨⟨c, cs, hc, hfirst⟩, ?_⟩
  intro fuel rest position hfuel hrest
  obtain ⟨fuel, rfl⟩ : ∃ n, fuel = n + 1 := ⟨fuel - 1, by simp [hc] at hfuel; omega⟩
  obtain ⟨position', hnumber⟩ := h rest position hrest
  have hword : word? ⟨s.toList ++ rest, position⟩ = none := by
    rw [hs, List.append_assoc]
    exact word?_of_isDigit negative hd (ds ++ rest) position
  rw [hc, List.cons_append] at hnumber hword ⊢
  rw [readValue_of_plain hmark, hword]
  exact ⟨position', hnumber⟩

theorem reads_int {n : Int} (hn : n.natAbs < Value.writable.bound) : Reads policy (toString n) (.int n) := by
  obtain ⟨d, ds, hd⟩ := List.exists_cons_of_ne_nil (Nat.toDigits_ne_nil (b := 10) (n := n.natAbs))
  have hlist : (toString n).toList = signOf (n < 0) ++ d :: ds := by rw [toList_toString, hd]
  exact reads_number hlist (areDigits_toDigits n.natAbs d (by simp [hd])) (readNumber_int hn)

theorem reads_float (x : Float) : Reads policy (jsonFloat.write x) (.float x) := by
  rcases jsonFloat_cases x with ⟨b, t, v, hx, hwrite, hspells, hrounds⟩ | ⟨-, hword⟩
  · obtain ⟨d, ds, ht, hd⟩ := hspells.head
    have hlist : ((if b.negative then "-" else "") ++ t).toList = signOf b.negative ++ d :: ds := by
      rw [String.toList_append, ht]
      cases b.negative <;> rfl
    rw [hwrite]
    exact reads_number hlist hd (readNumber_of_spells hx hspells hrounds)
  · refine reads_word ?_
    rcases hword with ⟨rfl, hwrite⟩ | ⟨rfl, hwrite⟩ | ⟨rfl, hwrite⟩ <;> simp [words, hwrite]

theorem toList_textOf (s : String) (rest : List Char) :
    (textOf true s).toList ++ rest = '"' :: (s.toList.flatMap (escapeChar true) ++ '"' :: rest) := by
  simp [textOf]

/-- What can be written for a character inside a text. -/
inductive IsEscape (c : Char) : List Char → Prop
  | self (hquote : c ≠ '"') (hslash : c ≠ '\\') : IsEscape c [c]
  | mark (h : c = '"' ∨ c = '\\') : IsEscape c ['\\', c]
  | letter {e : Char} (he : e.isAlphanum = true) : IsEscape c ['\\', e]
  | unit (n : Nat) : IsEscape c (unitEscape n)
  | pair (high low : Nat) : IsEscape c (unitEscape high ++ unitEscape low)

theorem isEscape_escapeChar (c : Char) : IsEscape c (escapeChar true c) := by
  unfold escapeChar
  split
  next h => exact .mark h
  next hplain =>
  split
  next => exact .letter (by decide)
  split
  next => exact .letter (by decide)
  split
  next => exact .letter (by decide)
  split
  next => exact .letter (by decide)
  split
  next => exact .letter (by decide)
  dsimp only
  split
  next =>
    split
    next => exact .unit _
    next => exact .pair _ _
  next =>
    rw [not_or] at hplain
    exact .self hplain.1 hplain.2

theorem IsEscape.length_pos {c : Char} {cs : List Char} (h : IsEscape c cs) : 1 ≤ cs.length := by
  cases h <;> simp [unitEscape]

/-- What is written for a text is no shorter than the text. -/
theorem length_le_escaped (cs : List Char) : cs.length ≤ (cs.flatMap (escapeChar true)).length := by
  induction cs with
  | nil => simp
  | cons c cs ih =>
    have := (isEscape_escapeChar c).length_pos
    rw [List.flatMap_cons, List.length_append, List.length_cons]
    omega

/-- The reader of texts, as it is called, comes to the text that was written. -/
theorem readText_of_textOf (s : String) (rest : List Char) (start position : Nat) :
    ∃ position', readText start ((s.toList.flatMap (escapeChar true) ++ '"' :: rest).length + 1)
      (s.toList.flatMap (escapeChar true) ++ '"' :: rest) position [] = .ok (s, ⟨rest, position'⟩) := by
  have hlength := length_le_escaped s.toList
  obtain ⟨position', h⟩ := readText_textOf true start rest s.toList
    ((s.toList.flatMap (escapeChar true) ++ '"' :: rest).length + 1) position [] (by
      rw [List.length_append]
      omega)
  refine ⟨position', ?_⟩
  rw [h]
  simp

theorem reads_text (s : String) : Reads policy (textOf true s) (.text s) := by
  refine ⟨⟨'"', _, by simpa using toList_textOf s [], ⟨by decide, by decide, by decide⟩⟩, ?_⟩
  intro fuel rest position hfuel _
  rw [toList_textOf] at hfuel ⊢
  obtain ⟨fuel, rfl⟩ : ∃ n, fuel = n + 1 := ⟨fuel - 1, by simp at hfuel; omega⟩
  obtain ⟨position', h⟩ := readText_of_textOf s rest position (position + 1)
  refine ⟨position', ?_⟩
  unfold readValue
  simp only [h]
  rfl

/-! ## 4. Lists and mappings -/

/-- The reader of items comes to the items that were written. -/
theorem readItems_following {v : Value} {vs : List Value} (h : ∀ w ∈ v :: vs, Reads policy (spaced w) w)
    (fuel : Nat) (rest : List Char) (position : Nat) (done : List Value)
    (hfuel : 2 * ((spaced v).toList ++ following ']' rest (vs.map spaced)).length + 1 ≤ fuel) :
    ∃ position', readItems policy fuel ⟨(spaced v).toList ++ following ']' rest (vs.map spaced), position⟩ done =
      .ok (.list (done.reverse ++ v :: vs), ⟨rest, position'⟩) := by
  induction vs generalizing v fuel position done with
  | nil =>
    obtain ⟨fuel, rfl⟩ : ∃ n, fuel = n + 1 := ⟨fuel - 1, by omega⟩
    have hends : Ends (']' :: rest) := ends_following (by decide) rest []
    obtain ⟨position', hv⟩ := (h v (by simp)).reads fuel _ position (by simp [following] at hfuel ⊢; omega) hends
    refine ⟨position' + 1, ?_⟩
    unfold readItems
    simp only [List.map_nil, following, hv, bind, Except.bind, skipSpace_ends hends]
    simp [Cursor.skip, pure, Except.pure]
  | cons w vs ih =>
    obtain ⟨fuel, rfl⟩ : ∃ n, fuel = n + 1 := ⟨fuel - 1, by omega⟩
    have hends : Ends (following ']' rest ((w :: vs).map spaced)) := ends_following (by decide) rest _
    obtain ⟨position', hv⟩ := (h v (by simp)).reads fuel _ position (by omega) hends
    obtain ⟨c, cs, hw, hc⟩ := (h w (by simp)).begins.append (following ']' rest (vs.map spaced))
    obtain ⟨position'', hvs⟩ := ih (fun u hu => h u (List.mem_cons_of_mem v hu)) fuel (position' + 1 + 1)
      (v :: done) (by
        simp [following] at hfuel ⊢
        omega)
    refine ⟨position'', ?_⟩
    unfold readItems
    simp only [hv, bind, Except.bind, skipSpace_ends hends]
    simp only [List.map_cons, following, Cursor.skip, List.drop_one, List.tail_cons, hw, skipSpace_blank hc.space]
    rw [hw] at hvs
    rw [hvs]
    simp

theorem toList_spacedField (field : String × Value) (rest : List Char) :
    (spacedField field).toList ++ rest = '"' :: (field.1.toList.flatMap (escapeChar true) ++
      '"' :: ':' :: ' ' :: ((spaced field.2).toList ++ rest)) := by
  simp [spacedField, textOf]

/-- The reader of entries takes one entry and goes by the character after it. -/
theorem readEntries_field {field : String × Value} (h : Reads policy (spaced field.2) field.2) {fuel : Nat}
    {rest : List Char} (position : Nat) (done : List (String × Value))
    (hfuel : 2 * ((spacedField field).toList ++ rest).length ≤ fuel) (hrest : Ends rest) :
    ∃ position',
      (∀ tail, rest = '}' :: tail →
        readEntries policy (fuel + 1) ⟨(spacedField field).toList ++ rest, position⟩ done =
          (fun v => (v, Cursor.mk tail (position' + 1))) <$> ofPairs policy (field :: done).reverse) ∧
      (∀ tail, rest = ',' :: tail →
        readEntries policy (fuel + 1) ⟨(spacedField field).toList ++ rest, position⟩ done =
          readEntries policy fuel (Cursor.skipSpace ⟨tail, position' + 1⟩) (field :: done)) := by
  have hcolon : Cursor.isSpace ':' = false := by decide
  obtain ⟨c, cs, hv, hc⟩ := h.begins.append rest
  rw [toList_spacedField] at hfuel ⊢
  obtain ⟨position', hname⟩ := readText_of_textOf field.1 (':' :: ' ' :: ((spaced field.2).toList ++ rest))
    position (position + 1)
  have hshorter : 2 * ((spaced field.2).toList ++ rest).length ≤ fuel := by
    simp only [List.length_cons, List.length_append] at hfuel ⊢
    omega
  obtain ⟨last, hvalue⟩ := h.reads fuel rest (position' + 1 + 1) hshorter hrest
  rw [hv] at hname hvalue ⊢
  refine ⟨last, ?_, ?_⟩ <;> rintro tail rfl <;>
    simp only [readEntries, hname, bind, Except.bind, skipSpace_cons hcolon, Cursor.skip, List.drop_one,
      List.tail_cons, skipSpace_blank hc.space, hvalue, skipSpace_ends hrest]
  rfl

/-- The reader of entries comes to the entries that were written. -/
theorem readEntries_following {field : String × Value} {fields : List (String × Value)}
    (h : ∀ f ∈ field :: fields, Reads policy (spaced f.2) f.2) (fuel : Nat) (rest : List Char) (position : Nat)
    (done : List (String × Value))
    (hfuel : 2 * ((spacedField field).toList ++ following '}' rest (fields.map spacedField)).length + 1 ≤ fuel) :
    ∃ position', readEntries policy fuel
        ⟨(spacedField field).toList ++ following '}' rest (fields.map spacedField), position⟩ done =
      (fun v => (v, Cursor.mk rest position')) <$> ofPairs policy (done.reverse ++ field :: fields) := by
  induction fields generalizing field fuel position done with
  | nil =>
    obtain ⟨fuel, rfl⟩ : ∃ n, fuel = n + 1 := ⟨fuel - 1, by omega⟩
    obtain ⟨position', hfield, -⟩ := readEntries_field (h field (by simp)) position done
      (show 2 * ((spacedField field).toList ++ '}' :: rest).length ≤ fuel by simpa [following] using hfuel)
      (ends_following (by decide) rest [])
    refine ⟨position' + 1, ?_⟩
    simpa [following] using hfield rest rfl
  | cons next fields ih =>
    obtain ⟨fuel, rfl⟩ : ∃ n, fuel = n + 1 := ⟨fuel - 1, by omega⟩
    obtain ⟨position', -, hfield⟩ := readEntries_field (h field (by simp)) position done
      (show 2 * ((spacedField field).toList ++
        following '}' rest ((next :: fields).map spacedField)).length ≤ fuel by omega)
      (ends_following (by decide) rest _)
    obtain ⟨last, hrest⟩ := ih (fun f hf => h f (List.mem_cons_of_mem field hf)) fuel (position' + 1 + 1)
      (field :: done) (by
        simp only [following, List.map_cons, List.length_cons, List.length_append] at hfuel ⊢
        omega)
    have hblank (tail : List Char) : Cursor.skipSpace ⟨' ' :: ((spacedField next).toList ++ tail), position' + 1⟩ =
        ⟨(spacedField next).toList ++ tail, position' + 1 + 1⟩ := by
      rw [toList_spacedField]
      exact skipSpace_blank (by decide) _ _
    refine ⟨last, ?_⟩
    rw [hfield _ rfl, hblank, hrest]
    simp

/-- Entries with distinct keys make up a mapping, in the order in which they were read. -/
theorem ofPairs_of_nodup (policy : Duplicates) {fields : List (String × Value)}
    (h : (fields.map (·.1)).Nodup) : ofPairs policy fields = .ok (.record fields) := by
  have hfold (done : List (String × Value)) (h : ((done ++ fields).map (·.1)).Nodup) :
      (fields.foldlM (fun es field =>
        if policy = Duplicates.reject ∧ Entries.has field.1 es then .error (Stop.duplicate field.1)
        else .ok (Entries.insert field.1 field.2 es)) (Value.record done).entries : Except Stop Entries) =
      .ok (Value.record (done ++ fields)).entries := by
    induction fields generalizing done with
    | nil => simp [pure, Except.pure]
    | cons field fields ih =>
      obtain ⟨s, v⟩ := field
      have hnew : s ∉ done.map (·.1) := by
        rw [List.map_append, List.nodup_append] at h
        intro hmem
        exact h.2.2 s hmem s (by simp) rfl
      have hrest : (fields.map (·.1)).Nodup := by
        rw [List.map_append, List.nodup_append] at h
        exact (List.nodup_cons.mp h.2.1).2
      have hstep := ih hrest (done ++ [(s, v)]) (by simpa using h)
      rw [List.foldlM_cons]
      simp only [Value.has_record hnew, Bool.false_eq_true, and_false, if_false, bind, Except.bind,
        Value.insert_record v hnew, hstep]
      simp
  have hall := hfold [] (by simpa using h)
  unfold ofPairs
  exact congrArg (Value.dict <$> ·) hall

theorem reads_list {vs : List Value} (h : ∀ v ∈ vs, Reads policy (spaced v) v) :
    Reads policy (spaced (.list vs)) (.list vs) := by
  have hopen : Begins (spaced (.list vs)) :=
    ⟨'[', _, by simp only [spaced_list, enclosed, String.toList_append]; rfl, ⟨by decide, by decide, by decide⟩⟩
  refine ⟨hopen, ?_⟩
  intro fuel rest position hfuel hrest
  rw [spaced_list] at hfuel ⊢
  cases vs with
  | nil =>
    have hlist : (enclosed "[" "]" []).toList ++ rest = '[' :: ']' :: rest := rfl
    rw [List.map_nil, hlist] at hfuel ⊢
    obtain ⟨fuel, rfl⟩ : ∃ n, fuel = n + 1 := ⟨fuel - 1, by simp at hfuel; omega⟩
    have hend : Cursor.isSpace ']' = false := by decide
    refine ⟨position + 1 + 1, ?_⟩
    simp only [readValue, Cursor.skip, List.drop_one, List.tail_cons, skipSpace_cons hend]
  | cons v vs =>
    rw [List.map_cons, enclosed_cons (show "[".toList = ['['] from rfl) (show "]".toList = [']'] from rfl)]
      at hfuel ⊢
    obtain ⟨fuel, rfl⟩ : ∃ n, fuel = n + 1 := ⟨fuel - 1, by simp at hfuel; omega⟩
    obtain ⟨position', hitems⟩ := readItems_following h fuel rest (position + 1) [] (by
      rw [List.length_cons] at hfuel
      omega)
    obtain ⟨c, cs, hv, hc⟩ := (h v (by simp)).begins.append (following ']' rest (vs.map spaced))
    refine ⟨position', ?_⟩
    rw [hv] at hitems ⊢
    simp only [readValue, Cursor.skip, List.drop_one, List.tail_cons, skipSpace_cons hc.space]
    split
    · rename_i heq
      exact absurd (List.cons.inj heq).1 hc.inside
    · exact hitems

theorem reads_record {fields : List (String × Value)} (hdistinct : (fields.map (·.1)).Nodup)
    (h : ∀ field ∈ fields, Reads policy (spaced field.2) field.2) :
    Reads policy (spaced (.record fields)) (.record fields) := by
  have hopen : Begins (spaced (.record fields)) :=
    ⟨'{', _, by simp only [spaced_record, enclosed, String.toList_append]; rfl, ⟨by decide, by decide, by decide⟩⟩
  refine ⟨hopen, ?_⟩
  intro fuel rest position hfuel hrest
  rw [spaced_record] at hfuel ⊢
  cases fields with
  | nil =>
    have hlist : (enclosed "\x7b" "\x7d" []).toList ++ rest = '{' :: '}' :: rest := rfl
    rw [List.map_nil, hlist] at hfuel ⊢
    obtain ⟨fuel, rfl⟩ : ∃ n, fuel = n + 1 := ⟨fuel - 1, by simp at hfuel; omega⟩
    have hend : Cursor.isSpace '}' = false := by decide
    refine ⟨position + 1 + 1, ?_⟩
    simp only [readValue, Cursor.skip, List.drop_one, List.tail_cons, skipSpace_cons hend]
    rfl
  | cons field fields =>
    rw [List.map_cons, enclosed_cons (show "\x7b".toList = ['{'] from rfl) (show "\x7d".toList = ['}'] from rfl)]
      at hfuel ⊢
    obtain ⟨fuel, rfl⟩ : ∃ n, fuel = n + 1 := ⟨fuel - 1, by simp at hfuel; omega⟩
    obtain ⟨position', hentries⟩ := readEntries_following h fuel rest (position + 1) [] (by
      rw [List.length_cons] at hfuel
      omega)
    refine ⟨position', ?_⟩
    rw [List.reverse_nil, List.nil_append, ofPairs_of_nodup policy hdistinct] at hentries
    rw [toList_spacedField] at hentries ⊢
    have hquote : Cursor.isSpace '"' = false := by decide
    simp only [readValue, Cursor.skip, List.drop_one, List.tail_cons, skipSpace_cons hquote]
    exact hentries

/-- What is written for a value is read as this value, whatever comes after it. -/
theorem reads_spaced {v : Value} (h : IsJson Q v) : Reads policy (spaced v) v := by
  induction h with
  | null => exact reads_word (by simp [words, spaced])
  | bool b => cases b <;> exact reads_word (by simp [words, spaced])
  | int size => exact reads_int size
  | float x => exact reads_float x
  | text => exact reads_text _
  | list _ ih => exact reads_list ih
  | record distinct _ _ ih => exact reads_record distinct ih

/-- **What is written for a value is read as this value.** -/
theorem read_spaced {v : Value} (h : IsJson Q v) : read (spaced v) policy = .ok v := by
  have hreads : Reads policy (spaced v) v := reads_spaced h
  obtain ⟨c, cs, hs, hc⟩ := hreads.begins
  obtain ⟨position', hv⟩ := hreads.reads (2 * (spaced v).toList.length + 2) [] 0 (by simp) (.inl rfl)
  have hmark : c ≠ '\ufeff' := by
    rintro rfl
    exact absurd hc.ascii (by decide)
  rw [List.append_nil, hs] at hv
  unfold read
  simp only [hs, List.head?_cons, Option.some.injEq, if_neg hmark, skipSpace_cons hc.space, hv, bind,
    Except.bind, skipSpace_ends (.inl rfl : Ends [])]
  rfl

end Json

end Statechart
