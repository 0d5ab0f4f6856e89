/-
# Rendering piece by piece

A template is scanned from the left, and a scan that has come to its end knows nothing of what may
follow: where one template has been closed, another can be put behind it, and what is rendered is what
either renders, one after the other.  The seam is the one place to look at.  A mark that opens an
expression has two or three characters, and the first ones could stand at the end of one template and the
last one at the beginning of the other.

The same pieces are rendered in two ways.  For people they are always put together to a text; for a
request a template of one expression keeps the value.  The two differ by `stringify` alone.

* `Template.joined`: pieces one after the other, where texts that meet are one text;
* **`Template.scan_append`**: the pieces of two templates that are put together;
* `Renderer.evaluateText_append`, `Renderer.evaluateText_eq`: text piece by piece, text as a written value;
* **`Renderer.render_append`**: two templates in a row, and text without marks;
* **`Renderer.render_of_evaluate`**: the text that belongs to a value, and to a failure.
-/
import Statechart.Proofs.Rendering

namespace Statechart

/-- The same failure in a template that has so many characters more in front. -/
def EvalError.later (n : Nat) : EvalError → EvalError
  | .unclosedBraces position => .unclosedBraces (position + n)
  | .unclosedTag position => .unclosedTag (position + n)
  | e => e

/-- Steps without effects, one after the other. -/
theorem Act.lift_bind {α β : Type} (x : Except Fault α) (f : α → Except Fault β) :
    Act.lift (x >>= f) = Act.lift x >>= fun a => Act.lift (f a) := by
  funext fx
  cases x <;> rfl

namespace Template

variable {pos start n : Nat} {depth : Int} {quote : Option Char} {st : ScanState} {done cs : List Char}
  {ps qs : List Piece}

/-! ## 1. Where a scan begins -/

/-- The same state with so many characters more in front. -/
def ScanState.later (n : Nat) : ScanState → ScanState
  | .text done => .text done
  | .braces start depth quote done => .braces (start + n) depth quote done
  | .tag start done => .tag (start + n) done

theorem inBraces_later (c : Char) :
    (inBraces start depth quote done c).later n = inBraces (start + n) depth quote done c := by
  unfold inBraces
  split
  · rfl
  · split_ifs <;> rfl

/-- **What a scan comes to does not depend on where it begins**, but for the positions in failures. -/
theorem scanFrom_later (n pos : Nat) (st : ScanState) (cs : List Char) :
    scanFrom (pos + n) (st.later n) cs = (scanFrom pos st cs).mapError (·.later n) := by
  have hmove (m pos : Nat) : pos + n + m = pos + m + n := Nat.add_right_comm pos n m
  fun_induction scanFrom pos st cs with
  | case1 pos done cs ih | case2 pos done cs ih =>
    rw [ScanState.later] at ih
    rw [ScanState.later, scanFrom, hmove, ih, mapError_map]
  | case3 pos done c cs hbraces htag ih =>
    rw [ScanState.later] at ih
    rw [ScanState.later, scanFrom, hmove, ih]
    · exact hbraces
    · exact htag
  | case4 pos done => rw [ScanState.later, scanFrom]; rfl
  | case5 pos start done cs ih =>
    rw [ScanState.later] at ih
    rw [ScanState.later, scanFrom, hmove, ih, mapError_map]
  | case6 pos start done c cs hclose ih =>
    rw [ScanState.later] at ih
    rw [ScanState.later, scanFrom, hmove, ih]
    exact hclose
  | case7 pos start done => rw [ScanState.later, scanFrom]; rfl
  | case8 pos start depth q done c cs ih =>
    rw [ScanState.later] at ih
    rw [ScanState.later, scanFrom, hmove, ih]
  | case9 pos start done cs ih =>
    rw [ScanState.later] at ih
    rw [ScanState.later, scanFrom, if_pos rfl, hmove, ih, mapError_map]
  | case10 pos start depth done cs hdepth ih =>
    rw [ScanState.later] at ih
    rw [ScanState.later, scanFrom, if_neg hdepth, hmove, ih]
  | case11 pos start depth quote done c cs hescape hclose ih =>
    rw [inBraces_later] at ih
    rw [ScanState.later, scanFrom, hmove, ih]
    · exact hescape
    · exact hclose
  | case12 pos start depth quote done => rw [ScanState.later, scanFrom]; rfl

/-! ## 2. Where an expression ends -/

/-- The expression that is being read goes on to the two characters that close it, and the rest of the
template is scanned behind them. -/
def Closes (a b : Char) (pos : Nat) (done cs : List Char) (ps : List Piece) : Prop :=
  ∃ inside rest qs, cs = inside ++ a :: b :: rest ∧ ps = expressionPiece (inside.reverse ++ done) :: qs ∧
    scanFrom (pos + inside.length + 2) (.text []) rest = .ok qs

theorem Closes.here {a b : Char}
    (h : (expressionPiece done :: ·) <$> scanFrom (pos + 2) (.text []) cs = .ok ps) :
    Closes a b pos done (a :: b :: cs) ps := by
  obtain ⟨qs, hqs, rfl⟩ := map_eq_ok.mp h
  exact ⟨[], cs, qs, rfl, rfl, hqs⟩

theorem Closes.cons {a b c : Char} (h : Closes a b (pos + 1) (c :: done) cs ps) :
    Closes a b pos done (c :: cs) ps := by
  obtain ⟨inside, rest, qs, rfl, rfl, hrest⟩ := h
  refine ⟨c :: inside, rest, qs, rfl, by simp, ?_⟩
  rw [List.length_cons, Nat.add_comm inside.length, ← Nat.add_assoc pos]
  exact hrest

theorem inBraces_eq (start : Nat) (depth : Int) (quote : Option Char) (done : List Char) (c : Char) :
    ∃ depth' quote', inBraces start depth quote done c = .braces start depth' quote' (c :: done) := by
  unfold inBraces
  split
  · exact ⟨_, _, rfl⟩
  · split_ifs <;> exact ⟨_, _, rfl⟩

theorem closes_braces (h : scanFrom pos (.braces start depth quote done) cs = .ok ps) :
    Closes '}' '}' pos done cs ps := by
  generalize hst : ScanState.braces start depth quote done = st at h
  fun_induction scanFrom pos st cs generalizing ps start depth quote done with
  | case8 pos start depth q done c cs ih =>
    cases hst
    exact (ih rfl h).cons.cons
  | case9 pos start done cs ih =>
    cases hst
    exact .here h
  | case10 pos start depth done cs hdepth ih =>
    cases hst
    exact (ih rfl h).cons
  | case11 pos start depth quote done c cs hescape hclose ih =>
    cases hst
    obtain ⟨depth', quote', hnext⟩ := inBraces_eq start depth quote done c
    exact (ih hnext.symm h).cons
  | case12 pos start depth quote done => cases h
  | _ => cases hst

theorem closes_tag (h : scanFrom pos (.tag start done) cs = .ok ps) : Closes '%' '>' pos done cs ps := by
  generalize hst : ScanState.tag start done = st at h
  fun_induction scanFrom pos st cs generalizing ps start done with
  | case5 pos start done cs ih =>
    cases hst
    exact .here h
  | case6 pos start done c cs hclose ih =>
    cases hst
    exact (ih rfl h).cons
  | case7 => cases h
  | _ => cases hst

/-! ## 3. The seam -/

/-- Pieces one after the other; texts that meet are one text. -/
def joined : List Piece → List Piece → List Piece
  | [], qs => qs
  | [.text a], .text b :: qs => .text (a ++ b) :: qs
  | p :: ps, qs => p :: joined ps qs

theorem joined_expression (e : String) (ps qs : List Piece) :
    joined (.expression e :: ps) qs = .expression e :: joined ps qs := by
  rw [joined]
  exact nofun

/-- Pieces that begin with an expression. -/
def IsLed (ps : List Piece) : Prop := ∃ e qs, ps = .expression e :: qs

theorem Closes.isLed {a b : Char} (h : Closes a b pos done cs ps) : IsLed ps := by
  obtain ⟨inside, rest, qs, -, rfl, -⟩ := h
  exact ⟨_, qs, rfl⟩

/-- Text before an expression stays where it is. -/
theorem joined_textPiece (done : List Char) (h : IsLed ps) (rest : List Piece) :
    joined (textPiece done ++ ps) rest = textPiece done ++ joined ps rest := by
  obtain ⟨e, qs, rfl⟩ := h
  unfold textPiece
  split_ifs
  · rfl
  · rw [List.singleton_append, joined]
    · rfl
    · exact nofun

/-- Text before text is one text. -/
theorem joined_textPiece_append (done fresh : List Char) (h : IsLed ps ∨ ps = []) :
    joined (textPiece done) (textPiece fresh ++ ps) = textPiece (fresh ++ done) ++ ps := by
  cases done with
  | nil => simp [textPiece, joined]
  | cons c done =>
    cases fresh with
    | nil =>
      obtain ⟨e, qs, rfl⟩ | rfl := h
      · simp [textPiece, joined]
      · simp [textPiece, joined]
    | cons d fresh => simp [textPiece, joined, ← String.ofList_append]

theorem map_congr {ε α β : Type} {f g : α → β} {x : Except ε α} (h : ∀ a, x = .ok a → f a = g a) :
    f <$> x = g <$> x := by
  cases x with
  | error e => rfl
  | ok a => exact congrArg Except.ok (h a rfl)

/-- **Text that has been read stands in front of what is read later.** -/
theorem scanFrom_text (pos : Nat) (fresh done cs : List Char) :
    scanFrom pos (.text (fresh ++ done)) cs = joined (textPiece done) <$> scanFrom pos (.text fresh) cs := by
  fun_induction plain cs generalizing pos fresh with
  | case1 cs =>
    rw [scanFrom, scanFrom, Functor.map_map]
    exact map_congr fun ps hps => (joined_textPiece_append done fresh (.inl (closes_braces hps).isLed)).symm
  | case2 cs =>
    rw [scanFrom, scanFrom, Functor.map_map]
    exact map_congr fun ps hps => (joined_textPiece_append done fresh (.inl (closes_tag hps).isLed)).symm
  | case3 c cs hbraces htag ih =>
    rw [scanFrom, scanFrom, ← List.cons_append, ih]
    all_goals assumption
  | case4 =>
    have hjoin := joined_textPiece_append done fresh (.inr rfl)
    rw [List.append_nil, List.append_nil] at hjoin
    rw [scanFrom, scanFrom, ← hjoin]
    rfl

/-- The end of a text does not go on to a mark that opens an expression, whatever follows. -/
def EndsClear (cs : List Char) : Prop := ∀ c ∈ cs.getLast?, c ∉ ['{', '<', '%']

instance : DecidablePred EndsClear := fun cs => Option.decidableForallMem cs.getLast?

theorem EndsClear.of_append (as : List Char) (h : EndsClear (as ++ cs)) : EndsClear cs := by
  intro c hc
  refine h c ?_
  rw [List.getLast?_append, Option.mem_def.mp hc]
  rfl

theorem last_of_append {last : Nat} (as : List Char) (h : last = pos + (as ++ cs).length) :
    last = pos + as.length + cs.length := by
  rw [h, List.length_append, Nat.add_assoc]

/-- An expression that is open has to be closed. -/
theorem eq_text_of_scanFrom_nil (h : scanFrom pos st [] = .ok ps) : ∃ done, st = .text done := by
  cases st with
  | text done => exact ⟨done, rfl⟩
  | braces | tag =>
    rw [scanFrom] at h
    cases h

/-- **A scan that has come to its end knows nothing of what follows**: from there on the rest is scanned as if
nothing had been before it. -/
theorem scanFrom_append (h : scanFrom pos st cs = .ok ps) (hend : EndsClear cs) (rest : List Char)
    {last : Nat} (hlast : last = pos + cs.length) :
    scanFrom pos st (cs ++ rest) = joined ps <$> scanFrom last (.text []) rest := by
  have hopen (done : List Char) (qs : List Piece) (hqs : IsLed qs) :
      (textPiece done ++ joined qs ·) = joined (textPiece done ++ qs) :=
    funext fun rest => (joined_textPiece done hqs rest).symm
  have hclose (done : List Char) (qs : List Piece) :
      (expressionPiece done :: joined qs ·) = joined (expressionPiece done :: qs) :=
    funext fun rest => (joined_expression _ qs rest).symm
  -- what follows could only change how a last character is read: outside expressions `hend` says that it is
  -- no part of a mark, and inside them there is no last character, or the scan would have failed
  fun_induction scanFrom pos st cs generalizing ps with
  | case1 pos done cs ih =>
    obtain ⟨qs, hqs, rfl⟩ := map_eq_ok.mp h
    have hrest := ih hqs (.of_append ['{', '{'] hend) (last_of_append ['{', '{'] hlast)
    rw [List.cons_append, List.cons_append, scanFrom, hrest, Functor.map_map,
      hopen _ _ (closes_braces hqs).isLed]
  | case2 pos done cs ih =>
    obtain ⟨qs, hqs, rfl⟩ := map_eq_ok.mp h
    have hrest := ih hqs (.of_append ['<', '%', '='] hend) (last_of_append ['<', '%', '='] hlast)
    rw [List.cons_append, List.cons_append, List.cons_append, scanFrom, hrest, Functor.map_map,
      hopen _ _ (closes_tag hqs).isLed]
  | case3 pos done c cs hbraces htag ih =>
    have hrest := ih h (.of_append [c] hend) (last_of_append [c] hlast)
    rw [List.cons_append, scanFrom, hrest]
    · rintro cs' rfl hcs
      cases cs with
      | nil => exact hend '{' rfl (by simp)
      | cons d cs =>
        cases hcs
        exact hbraces cs rfl rfl
    · rintro cs' rfl hcs
      rcases cs with _ | ⟨d, _ | ⟨e, cs⟩⟩
      · exact hend '<' rfl (by simp)
      · cases hcs
        exact hend '%' rfl (by simp)
      · cases hcs
        exact htag cs rfl rfl
  | case4 pos done =>
    cases h
    rw [List.nil_append, hlast]
    exact scanFrom_text _ [] _ _
  | case5 pos start done cs ih =>
    obtain ⟨qs, hqs, rfl⟩ := map_eq_ok.mp h
    have hrest := ih hqs (.of_append ['%', '>'] hend) (last_of_append ['%', '>'] hlast)
    rw [List.cons_append, List.cons_append, scanFrom, hrest, Functor.map_map, hclose]
  | case6 pos start done c cs hclosed ih =>
    have hrest := ih h (.of_append [c] hend) (last_of_append [c] hlast)
    rw [List.cons_append, scanFrom, hrest]
    cases cs with
    | nil =>
      obtain ⟨done', hst⟩ := eq_text_of_scanFrom_nil h
      cases hst
    | cons d cs =>
      rintro cs' hc hcs
      cases hcs
      exact hclosed cs hc rfl
  | case7 pos start done => cases h
  | case8 pos start depth q done c cs ih =>
    have hrest := ih h (.of_append ['\\', c] hend) (last_of_append ['\\', c] hlast)
    rw [List.cons_append, List.cons_append, scanFrom, hrest]
  | case9 pos start done cs ih =>
    obtain ⟨qs, hqs, rfl⟩ := map_eq_ok.mp h
    have hrest := ih hqs (.of_append ['}', '}'] hend) (last_of_append ['}', '}'] hlast)
    rw [List.cons_append, List.cons_append, scanFrom, if_pos rfl, hrest, Functor.map_map, hclose]
  | case10 pos start depth done cs hdepth ih =>
    have hrest := ih h (.of_append ['}'] hend) (last_of_append ['}'] hlast)
    rw [List.cons_append, List.cons_append, scanFrom, if_neg hdepth]
    exact hrest
  | case11 pos start depth quote done c cs hescape hclosed ih =>
    have hrest := ih h (.of_append [c] hend) (last_of_append [c] hlast)
    obtain ⟨depth', quote', hnext⟩ := inBraces_eq start depth quote done c
    cases cs with
    | nil =>
      rw [hnext] at h
      obtain ⟨done', hst⟩ := eq_text_of_scanFrom_nil h
      cases hst
    | cons d cs =>
      rw [List.cons_append, scanFrom, hrest]
      · rintro q c' cs' hq hc hcs
        cases hcs
        exact hescape q d cs hq hc rfl
      · rintro cs' hq hc hcs
        cases hcs
        exact hclosed cs hq hc rfl
  | case12 pos start depth quote done => cases h

/-- **The pieces of two templates that are put together**: those of the one, then those of the other.  A scan
fails if it does for the second one, further on. -/
theorem scan_append {s : String} (h : scan s = .ok ps) (hend : EndsClear s.toList) (t : String) :
    scan (s ++ t) = joined ps <$> (scan t).mapError (·.later s.length) := by
  have hlater : scanFrom s.length (.text []) t.toList =
      (scanFrom 0 (.text []) t.toList).mapError (·.later s.length) := by
    simpa [ScanState.later] using scanFrom_later s.length 0 (.text []) t.toList
  have hlength : s.length = 0 + s.toList.length := by rw [String.length_toList, Nat.zero_add]
  rw [scan, String.toList_append, scanFrom_append h hend t.toList hlength, hlater, scan]

/-- Text without marks that open an expression is plain. -/
theorem plain_of_not_occurs {s : String} (hbraces : occurs "\x7b\x7b" s = false)
    (htag : occurs "<%=" s = false) : plain s.toList = true := by
  have hall (cs : List Char) :
      occursIn ['{', '{'] cs = false → occursIn ['<', '%', '='] cs = false → plain cs = true := by
    fun_induction plain cs with
    | case1 cs => simp [occursIn]
    | case2 cs => simp [occursIn]
    | case3 c cs _ _ ih =>
      intro h1 h2
      simp only [occursIn, Bool.or_eq_false_iff] at h1 h2
      exact ih h1.2 h2.2
    | case4 => simp
  exact hall _ hbraces htag

end Template

namespace Renderer

open Template

variable (r : Renderer) {context event : Value} {ps qs : List Piece} {s t : String}

/-! ## 4. Text piece by piece -/

theorem piecesText_cons (p : Piece) (ps : List Piece) : r.piecesText context event (p :: ps) = do
    let a ← r.pieceText context event p
    let b ← r.piecesText context event ps
    return a ++ b := by
  simp only [piecesText, List.mapM_cons, map_bind, map_pure, String.join_cons, bind_map_left]

/-- Text is rendered as it stands. -/
theorem evaluateText_of_plain (h : plain s.toList = true) : r.evaluateText s context event = .ok s := by
  rw [evaluateText, scan, scanFrom_plain 0 [] s.toList h, List.append_nil, textPiece]
  by_cases hs : s = ""
  · subst hs
    rfl
  · have hpieces : r.piecesText context event [.text s] = .ok s := by
      rw [piecesText_cons]
      exact congrArg Except.ok (String.append_empty)
    simpa [hs, liftEval, Except.mapError, bind, Except.bind] using hpieces

theorem piecesText_joined (ps qs : List Piece) : r.piecesText context event (joined ps qs) = do
    let a ← r.piecesText context event ps
    let b ← r.piecesText context event qs
    return a ++ b := by
  have hnil : r.piecesText context event [] = pure "" := rfl
  have htext (a : String) : r.pieceText context event (.text a) = pure a := rfl
  fun_induction joined ps qs with
  | case1 qs => simp only [hnil, pure_bind, String.empty_append, bind_pure]
  | case2 a b qs =>
    simp only [piecesText_cons, hnil, htext, pure_bind, bind_assoc, String.append_empty, String.append_assoc]
  | case3 p ps qs hmeet ih => simp only [piecesText_cons, ih, pure_bind, bind_assoc, String.append_assoc]

/-- **The text of two templates that are put together** is the text of the one, then that of the other. -/
theorem evaluateText_append (h : scan s = .ok ps) (hend : EndsClear s.toList) (ht : scan t = .ok qs) :
    r.evaluateText (s ++ t) context event = do
      let a ← r.evaluateText s context event
      let b ← r.evaluateText t context event
      return a ++ b := by
  have hboth : scan (s ++ t) = .ok (joined ps qs) := by
    rw [scan_append h hend, ht]
    rfl
  have hpieces {u : String} {us : List Piece} (hu : scan u = .ok us) :
      r.evaluateText u context event = r.piecesText context event us := by
    rw [evaluateText, hu]
    rfl
  rw [hpieces hboth, hpieces h, hpieces ht, piecesText_joined]

/-- The text of a template is its value, written. -/
theorem evaluateText_eq (template : String) (context event : Value) :
    r.evaluateText template context event = r.evaluate template context event >>= stringify := by
  have hwritten (x : Except Fault String) : (Value.text <$> x) >>= stringify = x := by
    cases x <;> rfl
  unfold evaluateText evaluate
  cases hscan : scan template with
  | error e => rfl
  | ok ps =>
    have hpieces : (liftEval (.ok ps) : Except Fault (List Piece)) = pure ps := rfl
    rw [hpieces, pure_bind, pure_bind]
    split
    · rename_i e
      have hnil : r.piecesText context event [] = pure "" := rfl
      simp only [piecesText_cons, hnil, pieceText, pure_bind, String.append_empty, bind_pure]
    · exact (hwritten _).symm

/-! ## 5. Rendering -/

/-- A computation in which no evaluation fails. -/
abbrev Unfailed {α : Type} (x : Except Fault α) : Prop := FailsOnly (fun f => ∀ e, f ≠ .evaluation e) x

/-- A template is rendered to its text unless an evaluation fails. -/
theorem render_of_unfailed {template : String} (h : Unfailed (r.evaluateText template context event)) :
    r.render template context event = Act.lift (r.evaluateText template context event) := by
  funext fx
  unfold render
  cases htext : r.evaluateText template context event with
  | ok s => rfl
  | error f =>
    cases f with
    | evaluation e => exact absurd rfl (h _ htext e)
    | _ => rfl

/-- A failed evaluation is rendered to what went wrong, and logged. -/
theorem exec_render_of_failure {template : String} {e : EvalError}
    (h : r.evaluateText template context event = .error (.evaluation e)) (fx : Effects) :
    (r.render template context event).exec fx =
      (.ok ("ERROR: " ++ e.message), { fx with log := fx.log ++ [failureEntry template e] }) := by
  unfold render
  rw [Act.catchEval_of_eval (by rw [h, Act.exec_lift]), Act.exec_bind, Act.exec_say]
  rfl

/-- All expressions of a template have values. -/
def Evaluates (template : String) (context event : Value) : Prop :=
  ∃ ps, scan template = .ok ps ∧ ∀ e, .expression e ∈ ps → ∃ v, r.expressionValue e context event = .ok v

variable {r} in
/-- Then no evaluation fails, though a value may be too long to be written. -/
theorem Evaluates.unfailed {template : String} (h : r.Evaluates template context event) :
    Unfailed (r.evaluateText template context event) := by
  have hwritten (v : Value) : Unfailed (stringify v) := by
    unfold stringify
    split
    · exact FailsOnly.ok _
    · exact FailsOnly.error nofun
  obtain ⟨ps, hscan, hvalues⟩ := h
  unfold evaluateText
  rw [hscan]
  refine FailsOnly.map _ (FailsOnly.mapM fun p hp => ?_)
  cases p with
  | text s => exact FailsOnly.ok s
  | expression e =>
    obtain ⟨v, hv⟩ := hvalues e hp
    have hpiece : r.pieceText context event (.expression e) =
        r.expressionValue e context event >>= stringify := rfl
    rw [hpiece, hv]
    exact hwritten v

/-- **Rendering is compositional.** -/
theorem render_append (h : scan s = .ok ps) (hend : EndsClear s.toList) (t : String) (context event : Value) :
    (r.Evaluates s context event → r.Evaluates t context event →
        r.render (s ++ t) context event = do
          let a ← r.render s context event
          let b ← r.render t context event
          return a ++ b) ∧
      (∀ e, scan t = .error e → ∀ fx, (r.render (s ++ t) context event).exec fx =
        (.ok ("ERROR: " ++ (e.later s.length).message),
          { fx with log := fx.log ++ [failureEntry (s ++ t) (e.later s.length)] })) ∧
      ∀ u, occurs "\x7b\x7b" u = false → occurs "<%=" u = false → r.render u context event = pure u := by
  refine ⟨fun hs ht => ?_, fun e he => ?_, fun u hbraces htag => ?_⟩
  · have hboth : r.evaluateText (s ++ t) context event = do
        let a ← r.evaluateText s context event
        let b ← r.evaluateText t context event
        return a ++ b := by
      obtain ⟨qs, hqs, -⟩ := ht
      exact r.evaluateText_append h hend hqs
    have hunfailed : Unfailed (r.evaluateText (s ++ t) context event) := by
      rw [hboth]
      exact hs.unfailed.bind fun a => ht.unfailed.bind fun b => FailsOnly.ok _
    rw [render_of_unfailed r hs.unfailed, render_of_unfailed r ht.unfailed,
      render_of_unfailed r hunfailed, hboth]
    simp only [Act.lift_bind]
    rfl
  · refine exec_render_of_failure r ?_
    rw [evaluateText, scan_append h hend, he]
    rfl
  · have htext : r.evaluateText u context event = .ok u :=
      r.evaluateText_of_plain (plain_of_not_occurs hbraces htag)
    rw [render_of_unfailed r (by rw [htext]; exact FailsOnly.ok u), htext]
    rfl

/-- A letter in two parts. -/
def salutation : String := "Dear \x7b\x7b name \x7d\x7d: "
def balance : String := "\x7b<%= total %>\x7d is due"

def customer : Value := .record [("name", .text "Ann"), ("total", .int 12)]

theorem render_append_letter :
    ∃ ps, scan salutation = .ok ps ∧ EndsClear salutation.toList ∧
      standard.Evaluates salutation customer .null ∧ standard.Evaluates balance customer .null ∧
      standard.render (salutation ++ balance) customer .null = do
        let a ← standard.render salutation customer .null
        let b ← standard.render balance customer .null
        return a ++ b := by
  have hvalue (e : String)
      (h : ((standard.expressionValue e customer .null).toOption.any fun _ => true) = true) :
      ∃ v, standard.expressionValue e customer .null = .ok v := by
    obtain ⟨v, hv, -⟩ := exists_ok_of_any h
    exact ⟨v, hv⟩
  obtain ⟨ps, hps, hsaid⟩ := exists_ok_of_any (x := scan salutation)
    (f := fun ps => decide (ps = [.text "Dear ", .expression "name", .text ": "])) (by decide +kernel)
  obtain ⟨qs, hqs, hdue⟩ := exists_ok_of_any (x := scan balance)
    (f := fun qs => decide (qs = [.text "\x7b", .expression "total", .text "\x7d is due"]))
    (by decide +kernel)
  have hend : EndsClear salutation.toList := by decide
  have hname := hvalue "name" (by decide +kernel)
  have htotal := hvalue "total" (by decide +kernel)
  have hfirst : standard.Evaluates salutation customer .null :=
    ⟨ps, hps, by simpa [of_decide_eq_true hsaid] using hname⟩
  have hsecond : standard.Evaluates balance customer .null :=
    ⟨qs, hqs, by simpa [of_decide_eq_true hdue] using htotal⟩
  have hjoined := (render_append standard hps hend balance customer .null).1 hfirst hsecond
  exact ⟨ps, hps, hend, hfirst, hsecond, hjoined⟩

/-- **What is rendered is the value, written, or what went wrong with it.** -/
theorem render_of_evaluate (template : String) (context event : Value) :
    (∀ v s, r.evaluate template context event = .ok v → stringify v = .ok s →
        r.render template context event = pure s) ∧
      (∀ e, r.evaluate template context event = .error (.evaluation e) → ∀ fx,
        (r.render template context event).exec fx =
          (.ok ("ERROR: " ++ e.message), { fx with log := fx.log ++ [failureEntry template e] })) ∧
      ∀ f, (∀ e, f ≠ .evaluation e) → (r.evaluate template context event >>= stringify) = .error f →
        r.render template context event = Act.fail f := by
  have htext := r.evaluateText_eq template context event
  refine ⟨fun v s hv hs => ?_, fun e he => exec_render_of_failure r ?_, fun f hf hfault => ?_⟩
  · have hs' : r.evaluateText template context event = .ok s := by
      rw [htext, hv]
      exact hs
    rw [render_of_unfailed r (by rw [hs']; exact FailsOnly.ok s), hs']
    rfl
  · rw [htext, he]
    rfl
  · rw [hfault] at htext
    rw [render_of_unfailed r (by rw [htext]; exact FailsOnly.error hf), htext]
    rfl

/-- A list of two tags, and a filter that there is not. -/
def tags : String := "\x7b\x7b tags \x7d\x7d"
def shoutedTags : String := "\x7b\x7b tags | shout \x7d\x7d"

def labelled : Value := .record [("tags", .list [.text "a", .null])]

theorem render_of_evaluate_tags :
    (standard.evaluate tags labelled .null = .ok (.list [.text "a", .null]) ∧
      stringify (.list [.text "a", .null]) = .ok "[\"a\",null]" ∧
      standard.render tags labelled .null = pure "[\"a\",null]") ∧
    (standard.evaluate shoutedTags labelled .null = .error (.evaluation (.unknownFilter "shout")) ∧
      ∀ fx, ((standard.render shoutedTags labelled .null).exec fx).1 =
        .ok "ERROR: Unknown filter 'shout'") := by
  have hscan {template e : String}
      (h : ((scan template).toOption.any fun ps => decide (ps = [.expression e])) = true) :
      standard.evaluate template labelled .null = standard.expressionValue e labelled .null := by
    obtain ⟨ps, hps, heq⟩ := exists_ok_of_any h
    rw [of_decide_eq_true heq] at hps
    exact evaluate_single _ _ _ hps
  have hvalue : standard.evaluate tags labelled .null = .ok (.list [.text "a", .null]) := by
    rw [hscan (e := "tags") (by decide +kernel)]
    rfl
  have hfailure : standard.evaluate shoutedTags labelled .null =
      .error (.evaluation (.unknownFilter "shout")) := by
    rw [hscan (e := "tags | shout") (by decide +kernel)]
    rfl
  have htext : stringify (.list [.text "a", .null]) = .ok "[\"a\",null]" := by rfl
  obtain ⟨hwritten, hfailed, -⟩ := render_of_evaluate standard tags labelled .null
  obtain ⟨-, hsaid, -⟩ := render_of_evaluate standard shoutedTags labelled .null
  refine ⟨⟨hvalue, htext, hwritten _ _ hvalue htext⟩, hfailure, ?_⟩
  intro fx
  rw [hsaid _ hfailure]
  rfl

end Renderer

end Statechart
