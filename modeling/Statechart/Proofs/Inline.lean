/-
# Inline JSON in templates

The head of an expression may be JSON, and two scanners run over it before it is read: one looks for the
braces that close the expression, the other for the bars between the head and its filters.  The first knows
what JSON knows of quotes and escapes, so it passes over whatever is written as JSON.  The second knows
quotes but no escapes: for it an escaped quote ends the text it stands in, and what comes next is outside.
It comes out of a text as it went in if the quotes in the text come in pairs and nothing that counts for it
stands between the two of a pair.

* `Template.Enclosed`, `Template.Unsplit`: what the scanners pass over;
* `Template.Passes.spaced`: one that passes over the texts of a value passes over the value;
* `Template.scan_inline`: the braces that close the expression are found, whatever the value;
* **`Renderer.evaluate_inline`**: a value in whose texts quotes come in pairs is evaluated, and the filters
  are applied to its value;
* **`not_evaluated_of_quote`**: one quote in a text, and the filters are taken for a part of the text.
-/
import Statechart.Proofs.RoundTrip
import Statechart.Template.Render
import Mathlib.Data.List.TakeWhile

namespace Statechart

open Json

namespace Template

variable {depth : Int} {quote quote' quote'' : Option Char} {as bs cs : List Char} {Q : String → Prop}

/-! ## 1. What the scanner for closing braces passes over -/

/-- The characters are taken into an expression in braces and leave it as deep; the quote that is open may
change. -/
def Enclosed (depth : Int) (quote : Option Char) (cs : List Char) (quote' : Option Char) : Prop :=
  ∀ pos start done rest, scanFrom pos (.braces start depth quote done) (cs ++ rest) =
    scanFrom (pos + cs.length) (.braces start depth quote' (cs.reverse ++ done)) rest

theorem Enclosed.nil : Enclosed depth quote [] quote := fun _ _ _ _ => rfl

theorem Enclosed.append (has : Enclosed depth quote as quote') (hbs : Enclosed depth quote' bs quote'') :
    Enclosed depth quote (as ++ bs) quote'' := by
  intro pos start done rest
  rw [List.append_assoc, has, hbs, List.length_append, List.reverse_append, List.append_assoc, Nat.add_assoc]

theorem Enclosed.cons {c : Char} (hc : Enclosed depth quote [c] quote') (hcs : Enclosed depth quote' cs quote'') :
    Enclosed depth quote (c :: cs) quote'' := hc.append hcs

/-- Neither quotes nor braces are open or closed. -/
theorem Enclosed.plain (h : ∀ c ∈ cs, c ∉ ['\'', '"', '{', '}']) : Enclosed depth none cs none := by
  induction cs with
  | nil => exact .nil
  | cons c cs ih =>
    obtain ⟨hc, hcs⟩ := List.forall_mem_cons.mp h
    refine .cons ?_ (ih hcs)
    intro pos start done rest
    simp only [List.mem_cons, List.not_mem_nil, or_false, not_or] at hc
    rw [List.singleton_append, scanFrom]
    · simp [inBraces, hc]
    · simp
    · simp [hc]

theorem Enclosed.opens {q : Char} (hq : q = '\'' ∨ q = '"') : Enclosed depth none [q] (some q) := by
  intro pos start done rest
  rw [List.singleton_append, scanFrom]
  · simp [inBraces, hq]
  · simp
  · rintro cs - rfl
    simp at hq

/-- Between quotes, only the quote and an escape count. -/
theorem Enclosed.quoted {q : Char} (h : ∀ c ∈ cs, c ≠ q ∧ c ≠ '\\') : Enclosed depth (some q) cs (some q) := by
  induction cs with
  | nil => exact .nil
  | cons c cs ih =>
    obtain ⟨hc, hcs⟩ := List.forall_mem_cons.mp h
    refine .cons ?_ (ih hcs)
    intro pos start done rest
    rw [List.singleton_append, scanFrom]
    · simp [inBraces, hc.1]
    · simp [hc.2]
    · simp

theorem Enclosed.closes {q : Char} (hq : q ≠ '\\') : Enclosed depth (some q) [q] none := by
  intro pos start done rest
  rw [List.singleton_append, scanFrom]
  · simp [inBraces]
  · simp [hq]
  · simp

theorem Enclosed.skips (c : Char) : Enclosed depth (some '"') ['\\', c] (some '"') := by
  intro pos start done rest
  rw [List.cons_append, List.singleton_append, scanFrom]
  rfl

theorem Enclosed.curly (h : Enclosed (depth + 1) none cs none) (hdepth : 0 ≤ depth) :
    Enclosed depth none ('{' :: (cs ++ ['}'])) none := by
  have hopen (pos start : Nat) (done rest : List Char) :
      scanFrom pos (.braces start depth none done) ('{' :: rest) =
        scanFrom (pos + 1) (.braces start (depth + 1) none ('{' :: done)) rest := by
    rw [scanFrom]
    · simp [inBraces]
    · simp
    · simp
  have hclose (pos start : Nat) (done rest : List Char) :
      scanFrom pos (.braces start (depth + 1) none done) ('}' :: rest) =
        scanFrom (pos + 1) (.braces start depth none ('}' :: done)) rest := by
    have hback : depth + 1 - 1 = depth := by omega
    -- two closing braces in a row are told apart from the end by the depth
    by_cases hnext : ∃ rest', rest = '}' :: rest'
    · obtain ⟨rest', rfl⟩ := hnext
      rw [scanFrom, if_neg (by omega), hback]
    · rw [scanFrom]
      · simp [inBraces, hback]
      · simp
      · rintro rest' - - rfl
        exact hnext ⟨rest', rfl⟩
  intro pos start done rest
  rw [List.cons_append, hopen, List.append_assoc, h, List.singleton_append, hclose]
  simp [Nat.add_comm, Nat.add_left_comm]

/-- **A template of one expression**: braces around what the scanner passes over. -/
theorem scan_of_enclosed {s : String} (h : Enclosed 0 none cs none)
    (hs : s.toList = '{' :: '{' :: (cs ++ ['}', '}'])) : scan s = .ok [.expression (strip (String.ofList cs))] := by
  rw [scan, hs, scanFrom, h, scanFrom, if_pos rfl, scanFrom]
  simp [expressionPiece, textPiece, Functor.map, Except.map]

/-! ## 2. What the scanner for bars passes over -/

/-- No bar in the characters divides an expression, and they leave it as deep; the quote that is open may
change. -/
def Unsplit (depth : Int) (quote : Option Char) (cs : List Char) (quote' : Option Char) : Prop :=
  ∀ done rest, stagesFrom depth quote done (cs ++ rest) = stagesFrom depth quote' (cs.reverse ++ done) rest

theorem Unsplit.nil : Unsplit depth quote [] quote := fun _ _ => rfl

theorem Unsplit.append (has : Unsplit depth quote as quote') (hbs : Unsplit depth quote' bs quote'') :
    Unsplit depth quote (as ++ bs) quote'' := by
  intro done rest
  rw [List.append_assoc, has, hbs, List.reverse_append, List.append_assoc]

theorem Unsplit.cons {c : Char} (hc : Unsplit depth quote [c] quote') (hcs : Unsplit depth quote' cs quote'') :
    Unsplit depth quote (c :: cs) quote'' := hc.append hcs

/-- Neither quotes nor brackets are open or closed, and a bar is inside brackets. -/
theorem Unsplit.plain (h : ∀ c ∈ cs, c ∉ ['\'', '"', '{', '}', '[', ']'] ∧ (c = '|' → depth ≠ 0)) :
    Unsplit depth none cs none := by
  induction cs with
  | nil => exact .nil
  | cons c cs ih =>
    obtain ⟨⟨hc, hbar⟩, hcs⟩ := List.forall_mem_cons.mp h
    refine .cons ?_ (ih hcs)
    intro done rest
    simp only [List.mem_cons, List.not_mem_nil, or_false, not_or] at hc
    rw [List.singleton_append, stagesFrom]
    simp only [hc, or_false, if_false]
    rw [if_neg fun h => hbar h.1 h.2]
    rfl

theorem Unsplit.opens : Unsplit depth none ['"'] (some '"') := by
  intro done rest
  simp [stagesFrom]

/-- Inside a text, only a quote counts. -/
theorem Unsplit.quoted (h : ∀ c ∈ cs, c ≠ '"') : Unsplit depth (some '"') cs (some '"') := by
  induction cs with
  | nil => exact .nil
  | cons c cs ih =>
    obtain ⟨hc, hcs⟩ := List.forall_mem_cons.mp h
    refine .cons ?_ (ih hcs)
    intro done rest
    simp [stagesFrom, hc]

theorem Unsplit.closes : Unsplit depth (some '"') ['"'] none := by
  intro done rest
  simp [stagesFrom]

theorem Unsplit.bracket {opening closing : Char} (hpair : (opening, closing) ∈ [('{', '}'), ('[', ']')])
    (h : Unsplit (depth + 1) none cs none) : Unsplit depth none (opening :: (cs ++ [closing])) none := by
  have hback : depth + 1 - 1 = depth := by omega
  have hopen (done rest : List Char) :
      stagesFrom depth none done (opening :: rest) = stagesFrom (depth + 1) none (opening :: done) rest := by
    simp only [List.mem_cons, Prod.mk.injEq, List.not_mem_nil, or_false] at hpair
    rcases hpair with ⟨rfl, rfl⟩ | ⟨rfl, rfl⟩ <;> simp [stagesFrom]
  have hclose (done rest : List Char) :
      stagesFrom (depth + 1) none done (closing :: rest) = stagesFrom depth none (closing :: done) rest := by
    simp only [List.mem_cons, Prod.mk.injEq, List.not_mem_nil, or_false] at hpair
    rcases hpair with ⟨rfl, rfl⟩ | ⟨rfl, rfl⟩ <;> simp [stagesFrom, hback]
  intro done rest
  rw [List.cons_append, hopen, List.append_assoc, h, List.singleton_append, hclose]
  simp

/-! ## 3. A value between two scanners -/

/-- The characters that mean nothing to either scanner. -/
def IsPlain (c : Char) : Prop := c ∉ ['\'', '"', '{', '}', '[', ']', '|']

instance : DecidablePred IsPlain := fun _ => inferInstanceAs (Decidable (¬ _))

theorem IsPlain.notMem {c : Char} (h : IsPlain c) {marks : List Char}
    (hmarks : marks ⊆ ['\'', '"', '{', '}', '[', ']', '|']) : c ∉ marks := fun hc => h (hmarks hc)

theorem Enclosed.of_isPlain (h : ∀ c ∈ cs, IsPlain c) : Enclosed depth none cs none :=
  .plain fun c hc => (h c hc).notMem (by simp)

theorem Unsplit.of_isPlain (h : ∀ c ∈ cs, IsPlain c) : Unsplit depth none cs none :=
  .plain fun c hc => ⟨(h c hc).notMem (by simp), fun hbar => absurd (h c hc) (hbar ▸ by decide)⟩

/-- What is passed over at a depth: pieces next to each other, plain characters, and brackets around what is
passed over inside them. -/
structure Passes (T : Int → List Char → Prop) : Prop where
  append : ∀ {depth as bs}, T depth as → T depth bs → T depth (as ++ bs)
  plain : ∀ {depth cs}, (∀ c ∈ cs, IsPlain c) → T depth cs
  square : ∀ {depth cs}, 0 ≤ depth → T (depth + 1) cs → T depth ('[' :: (cs ++ [']']))
  curly : ∀ {depth cs}, 0 ≤ depth → T (depth + 1) cs → T depth ('{' :: (cs ++ ['}']))

variable {T : Int → List Char → Prop}

theorem isPlain_of_all (h : cs.all (fun c => IsPlain c) = true) : ∀ c ∈ cs, IsPlain c :=
  List.all_iff_forall_prop.mp h

theorem isPlain_of_isNumeric {c : Char} (h : Numeral.IsNumeric c) : IsPlain c := by
  intro hc
  simp only [List.mem_cons, List.not_mem_nil, or_false] at hc
  rcases hc with rfl | rfl | rfl | rfl | rfl | rfl | rfl <;> simp [Numeral.IsNumeric, Char.isDigit] at h

/-- Numbers and words are plain. -/
theorem isPlain_int (n : Int) : ∀ c ∈ (toString n).toList, IsPlain c := by
  intro c hc
  refine isPlain_of_isNumeric ?_
  rcases (chars_int n).2 c hc with hc | rfl
  · exact .inl hc
  · exact .inr (by simp)

theorem isPlain_float (x : Float) : ∀ c ∈ (jsonFloat.write x).toList, IsPlain c := by
  rcases jsonFloat_cases x with ⟨b, t, v, -, hwrite, hspells, -⟩ | ⟨-, hword⟩
  · rw [hwrite]
    exact fun c hc => isPlain_of_isNumeric ((chars_decimal b.negative hspells).1 c hc)
  · rcases hword with ⟨-, h⟩ | ⟨-, h⟩ | ⟨-, h⟩ <;> rw [h] <;> exact isPlain_of_all (by decide)

theorem Passes.intercalate (hT : Passes T) {ss : List String} (h : ∀ s ∈ ss, T depth s.toList) :
    T depth (", ".intercalate ss).toList := by
  cases ss with
  | nil => exact hT.plain (by simp)
  | cons s ss =>
    induction ss generalizing s with
    | nil => simpa using h s (by simp)
    | cons t ts ih =>
      rw [String.intercalate_cons_cons, String.toList_append, String.toList_append]
      refine hT.append (hT.append (h s (by simp)) (hT.plain (isPlain_of_all (by decide)))) ?_
      exact ih t fun u hu => h u (List.mem_cons_of_mem s hu)

theorem Passes.list (hT : Passes T) (hdepth : 0 ≤ depth) {vs : List Value}
    (h : ∀ v ∈ vs, T (depth + 1) (spaced v).toList) : T depth (spaced (.list vs)).toList := by
  have hparts : ∀ s ∈ vs.map spaced, T (depth + 1) s.toList := by simpa using h
  have hbracket := hT.square hdepth (hT.intercalate hparts)
  rw [spaced_list]
  simpa [enclosed] using hbracket

theorem Passes.record (hT : Passes T) (hdepth : 0 ≤ depth) {fields : List (String × Value)}
    (hkeys : ∀ field ∈ fields, T (depth + 1) (textOf true field.1).toList)
    (h : ∀ field ∈ fields, T (depth + 1) (spaced field.2).toList) : T depth (spaced (.record fields)).toList := by
  have hfield : ∀ s ∈ fields.map spacedField, T (depth + 1) s.toList := by
    simp only [List.forall_mem_map]
    intro field hmem
    rw [spacedField, String.toList_append, String.toList_append]
    exact hT.append (hT.append (hkeys field hmem) (hT.plain (isPlain_of_all (by decide)))) (h field hmem)
  have hbracket := hT.curly hdepth (hT.intercalate hfield)
  rw [spaced_record]
  simpa [enclosed] using hbracket

/-- A scanner that passes over the texts of a value passes over the value, inside brackets. -/
theorem Passes.spaced (hT : Passes T) (htext : ∀ s, Q s → ∀ depth, 0 < depth → T depth (textOf true s).toList)
    {v : Value} (h : IsJson Q v) : ∀ depth, 0 < depth → T depth (spaced v).toList := by
  induction h with
  | null => exact fun _ _ => hT.plain (isPlain_of_all (by decide))
  | bool b => cases b <;> exact fun _ _ => hT.plain (isPlain_of_all (by decide))
  | int => exact fun _ _ => hT.plain (isPlain_int _)
  | float x => exact fun _ _ => hT.plain (isPlain_float x)
  | text hs => exact htext _ hs
  | list _ ih => exact fun depth hdepth => hT.list hdepth.le fun v hv => ih v hv _ (by omega)
  | record _ hkeys _ ih =>
    exact fun depth hdepth => hT.record hdepth.le (fun f hf => htext _ (hkeys f hf) _ (by omega))
      fun f hf => ih f hf _ (by omega)

/-- A list or a mapping is passed over where it stands alone as well. -/
theorem Passes.inline (hT : Passes T) (htext : ∀ s, Q s → ∀ depth, 0 < depth → T depth (textOf true s).toList)
    {v : Value} (h : IsJson Q v) (hkind : v.kind = .list ∨ v.kind = .dict) : T 0 (Json.spaced v).toList := by
  cases h with
  | null | bool | int | float | text => simp [Value.kind] at hkind
  | list hvs => exact hT.list le_rfl fun v hv => hT.spaced htext (hvs v hv) _ (by omega)
  | record _ hkeys hvalues =>
    exact hT.record le_rfl (fun f hf => htext _ (hkeys f hf) _ (by omega))
      fun f hf => hT.spaced htext (hvalues f hf) _ (by omega)

/-! ## 4. Texts -/

theorem isAlphanum_hexDigits (width n : Nat) : ∀ c ∈ hexDigits width n, c.isAlphanum = true := by
  have hdigit : ∀ d < 16, (Nat.digitChar d).isAlphanum = true := by decide
  have hdigits : ∀ c ∈ Nat.toDigits 16 n, c.isAlphanum = true := by
    induction n using Nat.strong_induction_on with
    | _ n ih =>
      intro c hc
      rcases Nat.lt_or_ge n 16 with hlt | hle
      · rw [Nat.toDigits_of_lt_base hlt, List.mem_singleton] at hc
        exact hc ▸ hdigit n hlt
      · rw [Nat.toDigits_of_base_le (by decide) hle, List.mem_append, List.mem_singleton] at hc
        rcases hc with hc | rfl
        · exact ih (n / 16) (by omega) c hc
        · exact hdigit _ (by omega)
  intro c hc
  rcases List.mem_append.mp hc with hc | hc
  · rw [List.eq_of_mem_replicate hc]
    decide
  · exact hdigits c hc

/-- What is written for a character is the character, or else plain. -/
theorem IsEscape.chars {c : Char} (h : IsEscape c cs) : ∀ d ∈ cs, d = c ∨ IsPlain d := by
  have halpha {d : Char} (hd : d.isAlphanum = true) : IsPlain d := by
    intro hmem
    simp only [List.mem_cons, List.not_mem_nil, or_false] at hmem
    rcases hmem with rfl | rfl | rfl | rfl | rfl | rfl | rfl <;> exact absurd hd (by decide)
  have hslash : IsPlain '\\' := by decide
  have hunit (n : Nat) : ∀ d ∈ unitEscape n, IsPlain d := by
    intro d hd
    simp only [unitEscape, List.mem_cons] at hd
    rcases hd with rfl | rfl | hd
    · exact hslash
    · decide
    · exact halpha (isAlphanum_hexDigits 4 n d hd)
  cases h with
  | self => simp
  | mark => simp [hslash]
  | letter he => simp [hslash, halpha he]
  | unit n => exact fun d hd => .inr (hunit n d hd)
  | pair high low => exact fun d hd => .inr ((List.mem_append.mp hd).elim (hunit high d) (hunit low d))

/-- The scanner for braces passes over what is written for a character. -/
theorem Enclosed.escape {c : Char} (h : IsEscape c cs) : Enclosed depth (some '"') cs (some '"') := by
  have hunit (n : Nat) : Enclosed depth (some '"') (unitEscape n) (some '"') := by
    have hmark : Enclosed depth (some '"') ['\\', 'u'] (some '"') := .skips 'u'
    refine hmark.append (.quoted fun c hc => ?_)
    have halpha := isAlphanum_hexDigits 4 n c hc
    constructor <;> rintro rfl <;> exact absurd halpha (by decide)
  cases h with
  | self hquote hslash => exact .quoted (by simp [hquote, hslash])
  | mark => exact .skips c
  | letter => exact .skips _
  | unit n => exact hunit n
  | pair high low => exact (hunit high).append (hunit low)

/-- **The scanner for braces passes over every text.** -/
theorem Enclosed.text (s : String) : Enclosed depth none (textOf true s).toList none := by
  have hinside (cs : List Char) : Enclosed depth (some '"') (cs.flatMap (escapeChar true)) (some '"') := by
    induction cs with
    | nil => exact .nil
    | cons c cs ih => exact (Enclosed.escape (isEscape_escapeChar c)).append ih
  have hall := (Enclosed.opens (.inr rfl)).append ((hinside s.toList).append (.closes (by decide)))
  simpa [textOf] using hall

/-- In a text the quotes come in pairs, and between the two of a pair stands no single quote, no brace and no
bracket; `inside` says whether one of a pair has come without the other. -/
def pairsQuotes (inside : Bool) : List Char → Bool
  | [] => !inside
  | c :: cs =>
    if c = '"' then pairsQuotes (!inside) cs
    else (!inside || c ∉ ['\'', '{', '}', '[', ']']) && pairsQuotes inside cs

/-- The quotes of a text come in pairs, with nothing between the two of a pair that counts for a scanner. -/
def QuotesPaired (s : String) : Prop := pairsQuotes false s.toList = true

instance : DecidablePred QuotesPaired := fun _ => inferInstanceAs (Decidable (_ = true))

/-- For the scanner for bars, what stands between two quotes of a text is outside. -/
theorem Unsplit.escaped (hdepth : 0 < depth) {inside : Bool} (h : pairsQuotes inside cs = true) :
    Unsplit depth (if inside then none else some '"') (cs.flatMap (escapeChar true)) (some '"') := by
  induction cs generalizing inside with
  | nil =>
    obtain rfl : inside = false := by simpa [pairsQuotes] using h
    exact .nil
  | cons c cs ih =>
    rw [List.flatMap_cons]
    by_cases hquote : c = '"'
    · subst hquote
      refine Unsplit.append ?_ (ih (by simpa [pairsQuotes] using h))
      cases inside with
      | false => exact .cons (.quoted (by simp)) .closes
      | true => exact .cons (.plain (by simp)) .opens
    · have hchars := IsEscape.chars (isEscape_escapeChar c)
      cases inside with
      | false =>
        have hcs : pairsQuotes false cs = true := by simpa [pairsQuotes, hquote] using h
        refine Unsplit.append (.quoted fun d hd => ?_) (ih hcs)
        rcases hchars d hd with rfl | hd
        · exact hquote
        · rintro rfl
          exact absurd hd (by decide)
      | true =>
        obtain ⟨hc, hcs⟩ : c ∉ ['\'', '{', '}', '[', ']'] ∧ pairsQuotes true cs = true := by
          simpa [pairsQuotes, hquote] using h
        refine Unsplit.append (.plain fun d hd => ⟨?_, fun _ => hdepth.ne'⟩) (ih hcs)
        rcases hchars d hd with rfl | hd
        · simp only [List.mem_cons, not_or] at hc ⊢
          exact ⟨hc.1, hquote, hc.2⟩
        · exact hd.notMem (by simp)

/-- The scanner for bars passes over a text whose quotes come in pairs. -/
theorem Unsplit.text {s : String} (h : QuotesPaired s) (hdepth : 0 < depth) :
    Unsplit depth none (textOf true s).toList none := by
  have hall := Unsplit.opens.append ((Unsplit.escaped hdepth h).append .closes)
  simpa [textOf] using hall

/-- **The scanner for braces passes over every value.** -/
theorem enclosed_spaced {e : Value} (h : IsJson Q e) (hkind : e.kind = .list ∨ e.kind = .dict) :
    Enclosed 0 none (spaced e).toList none := by
  -- for this scanner only braces are deeper, so it has to be at home at every depth
  have hT : Passes fun _ cs => ∀ depth, 0 ≤ depth → Enclosed depth none cs none :=
    { append := fun has hbs depth hdepth => (has depth hdepth).append (hbs depth hdepth)
      plain := fun h _ _ => .of_isPlain h
      square := fun _ h depth hdepth =>
        .cons (.plain (by simp)) ((h depth hdepth).append (.plain (by simp)))
      curly := fun _ h depth hdepth => (h (depth + 1) (by omega)).curly hdepth }
  exact hT.inline (fun s _ _ _ _ _ => .text s) h hkind 0 le_rfl

/-- The scanner for bars passes over a value in whose texts quotes come in pairs. -/
theorem unsplit_spaced {e : Value} (h : IsJson QuotesPaired e) (hkind : e.kind = .list ∨ e.kind = .dict) :
    Unsplit 0 none (spaced e).toList none := by
  have hT : Passes fun depth cs => Unsplit depth none cs none :=
    { append := Unsplit.append
      plain := .of_isPlain
      square := fun _ h => .bracket (by simp) h
      curly := fun _ h => .bracket (by simp) h }
  exact hT.inline (fun s hs depth hdepth => .text hs hdepth) h hkind

/-! ## 5. Blanks -/

theorem isPlain_of_isBlank {c : Char} (h : isBlank c = true) : IsPlain c := by
  intro hmem
  simp only [List.mem_cons, List.not_mem_nil, or_false] at hmem
  rcases hmem with rfl | rfl | rfl | rfl | rfl | rfl | rfl <;> exact absurd h (by decide)

/-- Blanks after an expression are not seen. -/
theorem stagesFrom_append_blanks (hbs : ∀ c ∈ bs, isBlank c = true) (depth : Int) (quote : Option Char)
    (done cs : List Char) : stagesFrom depth quote done (cs ++ bs) = stagesFrom depth quote done cs := by
  induction cs generalizing depth quote done with
  | nil =>
    have hall : stagesFrom depth quote done bs = [strip (String.ofList (done.reverse ++ bs))] := by
      induction bs generalizing quote done with
      | nil => simp [stagesFrom]
      | cons b bs ih =>
        obtain ⟨hb, hbs⟩ := List.forall_mem_cons.mp hbs
        cases quote with
        | some q =>
          rw [stagesFrom, ih hbs]
          simp
        | none =>
          have hplain : ∀ c ∈ [b], IsPlain c := by simpa using isPlain_of_isBlank hb
          rw [← List.singleton_append, Unsplit.of_isPlain hplain, ih hbs]
          simp
    have hstrip := strip_between done.reverse (List.forall_mem_nil _) hbs
    rw [List.nil_append, hall, stagesFrom]
    simpa using hstrip
  | cons c cs ih =>
    cases quote <;> simp only [List.cons_append, stagesFrom, ih]

/-- Blanks before a stage are not seen. -/
theorem stagesFrom_blanks (hbs : ∀ c ∈ bs, isBlank c = true) (depth : Int) (quote : Option Char)
    (done cs : List Char) : stagesFrom depth quote (done ++ bs) cs = stagesFrom depth quote done cs := by
  have hstrip (done : List Char) :
      strip (String.ofList (done ++ bs).reverse) = strip (String.ofList done.reverse) := by
    have hbefore : ∀ c ∈ bs.reverse, isBlank c = true := by simpa using hbs
    have h := strip_between done.reverse hbefore (List.forall_mem_nil _)
    simpa using h
  induction cs generalizing depth quote done with
  | nil => rw [stagesFrom, stagesFrom, hstrip]
  | cons c cs ih =>
    cases quote <;> simp only [stagesFrom, ← List.cons_append, ih, hstrip]

/-- A text that has been stripped has no blanks at its ends. -/
theorem strip_strip (s : String) : strip (strip s) = strip s := by
  obtain ⟨as, bs, hs, has, hbs⟩ := exists_of_strip s
  have hsame := strip_between (strip s).toList has hbs
  rw [← hs, String.ofList_toList, String.ofList_toList] at hsame
  exact hsame.symm

/-- **Blanks around an expression are not seen.** -/
theorem pipeline_strip (s : String) : pipeline (strip s) = pipeline s := by
  obtain ⟨as, bs, hs, has, hbs⟩ := exists_of_strip s
  have hsame : stagesFrom 0 none [] s.toList = stagesFrom 0 none [] (strip s).toList := by
    have hplain : ∀ c ∈ as, IsPlain c := fun c hc => isPlain_of_isBlank (has c hc)
    have hbefore : ∀ c ∈ as.reverse, isBlank c = true := by simpa using has
    rw [hs, Unsplit.of_isPlain hplain, List.append_nil, stagesFrom_append_blanks hbs,
      ← List.nil_append as.reverse, stagesFrom_blanks hbefore]
  rw [pipeline, pipeline, hsame]

/-! ## 6. Inline expressions -/

/-- A name by which a filter can be called in a template. -/
structure IsFilterName (name : String) : Prop where
  plain : ∀ c ∈ name.toList, IsPlain c ∧ c ≠ ':'
  stripped : strip name = name

theorem isFilterName_of_all {name : String} (h : name.toList.all (fun c => IsPlain c ∧ c ≠ ':') = true)
    (hstrip : strip name = name) : IsFilterName name := ⟨List.all_iff_forall_prop.mp h, hstrip⟩

/-- JSON and the filters that are applied to it, one after the other. -/
def inlineText (e : Value) (names : List String) : String :=
  " " ++ spaced e ++ String.join (names.map (" | " ++ ·)) ++ " "

/-- A template of one expression: JSON and the filters that are applied to it. -/
def inline (e : Value) (names : List String) : String := "\x7b\x7b" ++ inlineText e names ++ "\x7d\x7d"

theorem toList_inlineText (e : Value) (names : List String) : (inlineText e names).toList =
    ' ' :: ((spaced e).toList ++ (names.flatMap (fun n => ' ' :: '|' :: ' ' :: n.toList) ++ [' '])) := by
  simp [inlineText, String.toList_join, List.flatMap_map]

variable {e : Value} {names : List String}

/-- **The braces that close the expression are found**, whatever is written in it. -/
theorem scan_inline (h : IsJson Q e) (hkind : e.kind = .list ∨ e.kind = .dict)
    (hnames : ∀ n ∈ names, IsFilterName n) :
    scan (inline e names) = .ok [.expression (strip (inlineText e names))] := by
  have hcalls : Enclosed 0 none (names.flatMap fun n => ' ' :: '|' :: ' ' :: n.toList) none := by
    refine .plain fun c hc => ?_
    obtain ⟨n, hn, hc⟩ := List.mem_flatMap.mp hc
    simp only [List.mem_cons] at hc
    rcases hc with rfl | rfl | rfl | hc
    · decide
    · decide
    · decide
    · exact ((hnames n hn).plain c hc).1.notMem (by simp)
  have hblank : Enclosed 0 none [' '] none := .plain (by simp)
  have hall : Enclosed 0 none (inlineText e names).toList none := by
    rw [toList_inlineText]
    exact .cons hblank ((enclosed_spaced h hkind).append (hcalls.append hblank))
  have hscan := scan_of_enclosed (s := inline e names) hall (by simp [inline])
  rw [hscan, String.ofList_toList]

/-- The filters stand after the bars. -/
theorem stagesFrom_names (hnames : ∀ n ∈ names, IsFilterName n) (done : List Char) :
    stagesFrom 0 none done (names.flatMap fun n => ' ' :: '|' :: ' ' :: n.toList) =
      strip (String.ofList done.reverse) :: names := by
  induction names generalizing done with
  | nil => rw [List.flatMap_nil, stagesFrom]
  | cons n names ih =>
    obtain ⟨hn, hnames⟩ := List.forall_mem_cons.mp hnames
    have hbar (done rest : List Char) : stagesFrom 0 none done (' ' :: '|' :: ' ' :: rest) =
        strip (String.ofList (' ' :: done).reverse) :: stagesFrom 0 none [' '] rest := rfl
    have hplain : ∀ c ∈ n.toList, IsPlain c := fun c hc => (hn.plain c hc).1
    have hblank : ∀ c ∈ [' '], isBlank c = true := List.forall_mem_singleton.mpr (by decide)
    have hhead := strip_between done.reverse (List.forall_mem_nil _) hblank
    have hname := strip_between n.toList hblank (List.forall_mem_nil _)
    rw [List.nil_append] at hhead
    rw [List.append_nil, String.ofList_toList, hn.stripped] at hname
    rw [List.flatMap_cons, List.cons_append, List.cons_append, List.cons_append, hbar,
      Unsplit.of_isPlain hplain, ih hnames, List.reverse_cons, hhead, List.reverse_append,
      List.reverse_reverse, List.reverse_singleton, hname]

/-- A list and a mapping are written with brackets at both ends. -/
theorem spaced_ends (h : IsJson Q e) (hkind : e.kind = .list ∨ e.kind = .dict) :
    (spaced e).toList.head? ∈ [some '{', some '['] ∧ (spaced e).toList.getLast? ∈ [some '}', some ']'] := by
  cases h with
  | null | bool | int | float | text => simp [Value.kind] at hkind
  | list =>
    rw [spaced_list]
    simp [enclosed, List.getLast?_cons]
  | record =>
    rw [spaced_record]
    simp [enclosed, List.getLast?_cons]

/-- **The head of the expression is the JSON, its stages are the filters.** -/
theorem pipeline_inlineText (h : IsJson QuotesPaired e) (hkind : e.kind = .list ∨ e.kind = .dict)
    (hnames : ∀ n ∈ names, IsFilterName n) : pipeline (strip (inlineText e names)) = (spaced e, names) := by
  have hblank : ∀ c ∈ [' '], isBlank c = true := List.forall_mem_singleton.mpr (by decide)
  have hstrip : strip (spaced e) = spaced e := by
    obtain ⟨hfirst, hlast⟩ := spaced_ends h hkind
    refine strip_of_ends (fun c hc => ?_) fun c hc => ?_
    · rw [Option.mem_def.mp hc] at hfirst
      simp only [List.mem_cons, Option.some.injEq, List.not_mem_nil, or_false] at hfirst
      rcases hfirst with rfl | rfl <;> decide
    · rw [Option.mem_def.mp hc] at hlast
      simp only [List.mem_cons, Option.some.injEq, List.not_mem_nil, or_false] at hlast
      rcases hlast with rfl | rfl <;> decide
  have hhead := strip_between (spaced e).toList hblank (List.forall_mem_nil _)
  rw [List.append_nil, String.ofList_toList, hstrip] at hhead
  have hstages : stagesFrom 0 none [] (inlineText e names).toList = spaced e :: names := by
    rw [toList_inlineText, ← List.singleton_append, Unsplit.of_isPlain (isPlain_of_all (by decide)),
      unsplit_spaced h hkind, stagesFrom_append_blanks hblank, stagesFrom_names hnames, List.reverse_append,
      List.reverse_reverse, List.reverse_append, List.reverse_reverse, List.reverse_nil, List.nil_append, hhead]
  rw [pipeline_strip, pipeline, hstages]

/-- What is wrong with a JSON text, if its form is. -/
def problem? : Except ReadError Value → Option Problem
  | .error (.malformed e) => some e.problem
  | _ => none

theorem readInline_of_problem? {head : String} {p : Problem} (h : problem? (Json.read head) = some p) :
    readInline head = .error (.evaluation (.badInlineJson p)) := by
  unfold readInline
  generalize Json.read head = result at h ⊢
  unfold problem? at h
  split at h
  · cases h
    rfl
  · cases h

theorem readInline_spaced (h : IsJson Q e) : readInline (spaced e) = .ok e := by
  rw [readInline, read_spaced h]

end Template

namespace Renderer

open Template

variable {e : Value}

/-- A stage that is only the name of a filter. -/
theorem applyStage_of_name (r : Renderer) {name : String} (hname : IsFilterName name) {f : FilterFn}
    (hf : r.filters.lookup name = some f) (v : Value) : r.applyStage v name = f v none := by
  have hcolon : ∀ c ∈ name.toList, decide (c ≠ ':') = true := fun c hc => decide_eq_true (hname.plain c hc).2
  have hparts : stageParts name = (name, none) := by
    unfold stageParts
    dsimp only
    rw [List.takeWhile_eq_self_iff.mpr hcolon, List.dropWhile_eq_nil_iff.mpr hcolon, String.ofList_toList,
      hname.stripped]
    rfl
  rw [applyStage, hparts]
  simp only [hf]

/-- **A value in whose texts quotes come in pairs is embedded faithfully**: it is evaluated, and the filters are
applied to its value one after the other. -/
theorem evaluate_inline (r : Renderer) (he : IsJson QuotesPaired e) (hkind : e.kind = .list ∨ e.kind = .dict)
    {chain : List (String × FilterFn)}
    (hchain : ∀ call ∈ chain, IsFilterName call.1 ∧ r.filters.lookup call.1 = some call.2)
    (context event : Value) :
    r.evaluate (inline e (chain.map (·.1))) context event =
      (do chain.foldlM (fun v call => call.2 v none) (← Statechart.evaluate e context event)) := by
  have hnames : ∀ n ∈ chain.map (·.1), IsFilterName n := by
    simp only [List.forall_mem_map]
    exact fun call hcall => (hchain call hcall).1
  have hstages (v : Value) : (chain.map (·.1)).foldlM r.applyStage v =
      chain.foldlM (fun v call => call.2 v none) v := by
    clear hnames
    induction chain generalizing v with
    | nil => rfl
    | cons call chain ih =>
      obtain ⟨⟨hname, hf⟩, hchain⟩ := List.forall_mem_cons.mp hchain
      rw [List.map_cons, List.foldlM_cons, List.foldlM_cons, applyStage_of_name r hname hf]
      simp only [ih hchain]
  have hpipeline := pipeline_inlineText he hkind hnames
  have hhead : headValue (spaced e) context event = Statechart.evaluate e context event := by
    have hinline : isInline (spaced e) = true := by
      rw [isInline, decide_eq_true_iff]
      simpa using (spaced_ends he hkind).1
    rw [headValue, if_pos hinline, readInline_spaced he]
    rfl
  have hsome : (strip (inlineText e (chain.map (·.1)))).isEmpty = false := by
    by_contra hempty
    rw [Bool.not_eq_false, String.isEmpty_iff] at hempty
    rw [hempty] at hpipeline
    have hfirst := (spaced_ends he hkind).1
    rw [← (Prod.mk.inj hpipeline).1] at hfirst
    exact absurd hfirst (by decide)
  rw [evaluate_single r context event (scan_inline he hkind hnames), expressionValue, hsome]
  simp only [Bool.false_eq_true, if_false, hpipeline, hhead, hstages]

/-- A greeting in which a word is quoted. -/
def greeting : Value := .record [("cat", .list [.text "say \"hi\" to ", .record [("var", .text "user")]])]

/-- Two filters in a row. -/
def loudly : List (String × FilterFn) :=
  [("trim", fun v _ => onText strip v), ("uppercase", fun v _ => onText toUpperCase v)]

theorem evaluate_inline_greeting :
    inline greeting (loudly.map (·.1)) =
      "\x7b\x7b \x7b\"cat\": [\"say \\\"hi\\\" to \", \x7b\"var\": \"user\"\x7d]\x7d | trim | uppercase \x7d\x7d" ∧
    Renderer.standard.evaluate (inline greeting (loudly.map (·.1))) (.record [("user", .text "ann ")]) .null =
      .ok (.text "SAY \"HI\" TO ANN") := by
  have hgreeting : IsJson QuotesPaired greeting := by
    have huser : IsJson QuotesPaired (.record [("var", .text "user")]) :=
      .record (by decide) (by decide) (by simpa using .text (by decide))
    have hwords : IsJson QuotesPaired (.text "say \"hi\" to ") := .text (by decide)
    exact .record (by decide) (by decide) (by simpa using .list (by simp [hwords, huser]))
  have hchain : ∀ call ∈ loudly, IsFilterName call.1 ∧
      Renderer.standard.filters.lookup call.1 = some call.2 := by
    simp only [loudly, List.forall_mem_cons]
    have htrim : IsFilterName "trim" := isFilterName_of_all (by decide) (by decide)
    have hupper : IsFilterName "uppercase" := isFilterName_of_all (by decide) (by decide)
    exact ⟨⟨htrim, rfl⟩, ⟨hupper, rfl⟩, by simp⟩
  refine ⟨by decide +kernel, ?_⟩
  rw [evaluate_inline .standard hgreeting (.inr rfl) hchain]
  rfl

/-- A text in which a quote stands alone. -/
def fivePipes : Value := .record [("cat", .list [.text "5\" pipe"])]

/-- **One quote in a text takes the filters into the text**: the expression and its filters are all right, and
yet the template is no JSON. -/
theorem not_evaluated_of_quote :
    IsJson (fun _ => True) fivePipes ∧ fivePipes.kind = .dict ∧ IsFilterName "uppercase" ∧
      Statechart.evaluate fivePipes (.record []) .null = .ok (.text "5\" pipe") ∧
      inline fivePipes ["uppercase"] = "\x7b\x7b \x7b\"cat\": [\"5\\\" pipe\"]\x7d | uppercase \x7d\x7d" ∧
      Renderer.standard.evaluate (inline fivePipes ["uppercase"]) (.record []) .null =
        .error (.evaluation (.badInlineJson .extraData)) := by
  have hjson : IsJson (fun _ => True) fivePipes :=
    .record (by decide) (by simp) (by simpa using .list (by simpa using .text trivial))
  have hname : IsFilterName "uppercase" := isFilterName_of_all (by decide) (by decide)
  have hpipeline : pipeline (strip (inlineText fivePipes ["uppercase"])) =
      ("\x7b\"cat\": [\"5\\\" pipe\"]\x7d | uppercase", []) := by decide +kernel
  have hhead : headValue "\x7b\"cat\": [\"5\\\" pipe\"]\x7d | uppercase" (.record []) .null =
      .error (.evaluation (.badInlineJson .extraData)) := by
    rw [headValue, if_pos (by decide +kernel), readInline_of_problem? (p := .extraData) (by decide +kernel)]
    rfl
  have hsome : (strip (inlineText fivePipes ["uppercase"])).isEmpty = false := by decide +kernel
  refine ⟨hjson, rfl, hname, rfl, by decide +kernel, ?_⟩
  rw [evaluate_single _ _ _ (scan_inline hjson (.inr rfl) (by simpa using hname)), expressionValue, hsome]
  simp only [Bool.false_eq_true, if_false, hpipeline, hhead]
  rfl

end Renderer

end Statechart
