/-
# What rendering depends on

The variables of a template are found without rendering it: the head of each expression is taken for a
quoted text, a helper or a path, by its form alone.  Rendering takes it by its form as well, in a function
of its own, and only then looks into the context.  Since the two agree on every head, the variables say all
that a rendered text can depend on, and all that what goes wrong can: two contexts with the same values
there are the same to a template.  Inline expressions are left out; they read paths that are not listed
among their variables.

* `Renderer.headValue_congr`, `Renderer.expressionValue_congr`: what a head and an expression depend on;
* **`Renderer.render_eq_of_agree`**: contexts that agree on the variables of a template;
* `Renderer.evaluate_ne_of_inline`: an inline expression that depends on more than its variables.
-/
import Statechart.Proofs.Coverage
import Statechart.Proofs.Piecewise

namespace Statechart

namespace Renderer

open Template

variable (r : Renderer) {context context' event : Value} {head template : String} {pieces : List Piece}

/-! ## 1. Expressions on contexts that agree -/

/-- **The value of a head depends on its variables**: what they are found to be, and nothing else. -/
theorem headValue_congr (hinline : isInline head = false) {vs : List String}
    (hvs : headVariables head = .ok vs)
    (h : ∀ v ∈ vs, lookupScoped v context event = lookupScoped v context' event) :
    headValue head context event = headValue head context' event := by
  have hpath {path : String} (hmem : path ∈ vs) :
      pathValue path context event = pathValue path context' event := by
    rw [pathValue_eq, pathValue_eq, h path hmem]
  simp only [headVariables, hinline, Bool.false_eq_true, if_false] at hvs
  simp only [headValue, hinline, Bool.false_eq_true, if_false]
  -- from here on both functions ask the same questions in the same order
  cases hquoted : unquote? head with
  | some s => rfl
  | none =>
    simp only [hquoted, Option.isSome_none, Bool.false_eq_true, if_false] at hvs
    cases hcall : helperCall? head with
    | some call =>
      simp only [hcall] at hvs
      cases hvs
      have hargument := hpath (List.mem_singleton_self call.2)
      dsimp only
      rw [hargument]
    | none =>
      simp only [hcall] at hvs
      cases hvs
      exact hpath (List.mem_singleton_self head)

/-- Filters see the value of the head alone. -/
theorem expressionValue_congr {e : String}
    (h : headValue (pipeline e).1 context event = headValue (pipeline e).1 context' event) :
    r.expressionValue e context event = r.expressionValue e context' event := by
  unfold expressionValue
  dsimp only
  rw [h]

/-! ## 2. Templates on contexts that agree -/

theorem piecesText_congr (h : ∀ p ∈ pieces, r.pieceText context event p = r.pieceText context' event p) :
    r.piecesText context event pieces = r.piecesText context' event pieces := by
  induction pieces with
  | nil => rfl
  | cons p ps ih =>
    have hrest := ih fun q hq => h q (List.mem_cons_of_mem p hq)
    rw [piecesText_cons, piecesText_cons, h p List.mem_cons_self, hrest]

/-- A template depends on its expressions alone. -/
theorem evaluate_congr (hscan : scan template = .ok pieces)
    (h : ∀ e, .expression e ∈ pieces →
      r.expressionValue e context event = r.expressionValue e context' event) :
    r.evaluate template context event = r.evaluate template context' event := by
  have hpiece : ∀ p ∈ pieces, r.pieceText context event p = r.pieceText context' event p := by
    intro p hp
    cases p with
    | text s => rfl
    | expression e => simp only [pieceText, h e hp]
  have hpure : (liftEval (.ok pieces) : Except Fault (List Piece)) = pure pieces := rfl
  unfold evaluate
  rw [hscan, hpure, pure_bind, pure_bind]
  split
  · exact h _ List.mem_cons_self
  · rw [r.piecesText_congr hpiece]

/-- **The variables of a template are all that it depends on**: two contexts that have the same values there
are rendered alike, whether it is to a text, to what went wrong, or to no end. -/
theorem render_eq_of_agree (hscan : scan template = .ok pieces) (hheads : HasNoInline pieces) :
    ∃ vs, Template.pathsRead template = .ok vs ∧ ∀ context context' event,
      (∀ v ∈ vs, lookupScoped v context event = lookupScoped v context' event) →
        r.render template context event = r.render template context' event ∧
          r.evaluate template context event = r.evaluate template context' event := by
  obtain ⟨vs, hvs, hmem⟩ := exists_pathsRead hscan hheads
  refine ⟨vs, hvs, fun context context' event hagree => ?_⟩
  have hvalue : r.evaluate template context event = r.evaluate template context' event := by
    refine r.evaluate_congr hscan fun e he => ?_
    obtain ⟨ws, hws⟩ := exists_headVariables (hheads e he)
    have hhead := headValue_congr (hheads e he) hws fun v hv => hagree v ((hmem v).mpr ⟨e, he, ws, hws, hv⟩)
    exact r.expressionValue_congr hhead
  constructor
  · unfold render
    rw [evaluateText_eq, evaluateText_eq, hvalue]
  · exact hvalue

/-- A line about a customer, and one customer with a secret. -/
def reminder : String :=
  "\x7b\x7b user.name | uppercase \x7d\x7d owes \x7b\x7b length(bills) \x7d\x7d <%= 'EUR' %>: " ++
    "\x7b\x7b event.note \x7d\x7d"

def reminderPieces : List Piece :=
  [.expression "user.name | uppercase", .text " owes ", .expression "length(bills)", .text " ",
    .expression "'EUR'", .text ": ", .expression "event.note"]

def debtor (secret : String) : Value :=
  .record [("user", .record [("name", .text "Ann")]), ("bills", .list [.int 12, .int 30]),
    ("pin", .text secret)]

theorem render_eq_of_agree_reminder : scan reminder = .ok reminderPieces ∧ HasNoInline reminderPieces ∧
    Template.pathsRead reminder = .ok ["user.name", "bills", "event.note"] ∧
    (∀ v ∈ ["user.name", "bills", "event.note"],
      lookupScoped v (debtor "1234") .null = lookupScoped v (debtor "9876") .null) ∧
    standard.render reminder (debtor "1234") .null = standard.render reminder (debtor "9876") .null := by
  have hscan : scan reminder = .ok reminderPieces := by
    obtain ⟨pieces, hpieces, heq⟩ := exists_ok_of_any (x := scan reminder)
      (f := fun pieces => decide (pieces = reminderPieces)) (by decide +kernel)
    rw [hpieces, of_decide_eq_true heq]
  have hheads : HasNoInline reminderPieces := by
    simp only [HasNoInline, reminderPieces, List.mem_cons, Piece.expression.injEq, reduceCtorEq,
      List.not_mem_nil, or_false, false_or]
    rintro e (rfl | rfl | rfl | rfl) <;> decide +kernel
  have hagree : ∀ v ∈ ["user.name", "bills", "event.note"],
      lookupScoped v (debtor "1234") .null = lookupScoped v (debtor "9876") .null := by
    simp only [List.forall_mem_cons]
    exact ⟨rfl, rfl, rfl, by simp⟩
  obtain ⟨vs, hvs, hrender⟩ := render_eq_of_agree .standard hscan hheads
  obtain ⟨ws, hws, heq⟩ := exists_ok_of_any (x := Template.pathsRead reminder)
    (f := fun ws => decide (ws = ["user.name", "bills", "event.note"])) (by decide +kernel)
  rw [of_decide_eq_true heq] at hws
  cases hws.symm.trans hvs
  exact ⟨hscan, hheads, hws, hagree, (hrender _ _ _ hagree).1⟩

/-- A name to fall back on, which is not among the variables. -/
def nickname : String := "\x7b\x7b \x7b\"var\": [\"nick\", \x7b\"var\": \"name\"\x7d]\x7d \x7d\x7d"

def named (name : String) : Value := .record [("name", .text name)]

/-- **An inline expression depends on more than its variables**: what it falls back on may be read as well. -/
theorem evaluate_ne_of_inline : Template.pathsRead nickname = .ok ["nick"] ∧
    lookupScoped "nick" (named "Ann") .null = lookupScoped "nick" (named "Bob") .null ∧
    standard.evaluate nickname (named "Ann") .null ≠ standard.evaluate nickname (named "Bob") .null := by
  obtain ⟨vs, hvs, hnick⟩ := exists_ok_of_any (x := Template.pathsRead nickname)
    (f := fun vs => decide (vs = ["nick"])) (by decide +kernel)
  obtain ⟨v, hv, hann⟩ := exists_ok_of_any (x := standard.evaluate nickname (named "Ann") .null)
    (f := (·.text? = some "Ann")) (by decide +kernel)
  obtain ⟨w, hw, hbob⟩ := exists_ok_of_any (x := standard.evaluate nickname (named "Bob") .null)
    (f := (·.text? = some "Bob")) (by decide +kernel)
  refine ⟨by rw [hvs, of_decide_eq_true hnick], rfl, ?_⟩
  intro hsame
  rw [hv, hw] at hsame
  obtain rfl := Except.ok.inj hsame
  rw [of_decide_eq_true hann] at hbob
  exact absurd hbob (by decide)

end Renderer

end Statechart
