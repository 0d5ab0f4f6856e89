/-
# Values that are sent as they are

The body of a request may be written as a form: a value with slots in it, each of them a path between
braces.  To resolve the form is to look up what is at the paths.  What is found there is put in as it is,
and it is not looked at again, neither when the form is resolved nor when the request is made of the
configuration of its actor and of the resolved form: a text that was entered by somebody is sent as it was
entered, though it may look like a template.

Where a slot ends is found by a scanner that does not know paths.  It agrees with them about everything
but the backslash, which it takes for an escape.  So a path with a backslash between quotes may be cut
short, at braces inside the quotes; what is left of it is no path, and the form is refused.

* `Template.PathForm.Step`: what a character of a path means to the scanners;
* `Renderer.expressionValue_of_forms`: an expression that begins like a path is a path, or malformed;
* `Template.exists_lookupScoped_of_unescaped`: a path without a backslash leads to a value;
* `Template.slot?`, `Template.scan_slot`: slots, and what they are taken for;
* `Value.IsForm`, `Template.fill`: forms, and what they are filled with;
* `Renderer.fill_of_isForm`: to resolve a form is to fill it;
* **`HttpActor.body_eq_fill`**: the body of a request is the form, filled;
* `Renderer.unresolved_of_backslash`: a slot that is not resolved.
-/
import Statechart.Proofs.Coverage
import Statechart.Proofs.Inline
import Statechart.Proofs.Piecewise

namespace Statechart

namespace Template

variable {cs : List Char} {f f' : PathForm} {s path : String} {pieces : List Piece}

/-! ## 1. What a path means to the scanners -/

/-- How many brackets are open. -/
def PathForm.depth : PathForm → Int
  | .name | .dot | .closed => 0
  | .bracket | .index | .key _ | .ending => 1

/-- The quote that is open. -/
def PathForm.quote : PathForm → Option Char
  | .key q => some q
  | _ => none

/-- What a character of a path does. -/
inductive PathForm.Step : PathForm → Char → PathForm → Prop
  /-- A character of a name or an index, or a dot. -/
  | plain {f f' : PathForm} {c : Char} (hc : IsPlain c) (hquote : f.quote = none) (hquote' : f'.quote = none)
      (hdepth : f'.depth = f.depth) : Step f c f'
  | opens {f : PathForm} (hquote : f.quote = none) (hdepth : f.depth = 0) : Step f '[' .bracket
  | closes {f : PathForm} (hquote : f.quote = none) (hdepth : f.depth = 1) : Step f ']' .closed
  | quotes {c : Char} (hc : c = '\'' ∨ c = '"') : Step .bracket c (.key c)
  | unquotes {q : Char} : Step (.key q) q .ending
  /-- A character between quotes. -/
  | quoted {q c : Char} (hc : c ≠ q) : Step (.key q) c (.key q)

theorem isPlain_of_isNameChar {c : Char} (h : isNameChar c = true) : IsPlain c := by
  intro hmem
  simp only [List.mem_cons, List.not_mem_nil, or_false] at hmem
  rcases hmem with rfl | rfl | rfl | rfl | rfl | rfl | rfl <;> exact absurd h (by decide)

theorem isPlain_of_isDecimalDigit {c : Char} (h : isDecimalDigit c = true) : IsPlain c := by
  intro hmem
  simp only [List.mem_cons, List.not_mem_nil, or_false] at hmem
  rcases hmem with rfl | rfl | rfl | rfl | rfl | rfl | rfl <;> exact absurd h (by decide)

/-- After a name and after a bracket, a path goes on by a dot or a bracket. -/
theorem PathForm.step_of_opened {c : Char} (hquote : f.quote = none) (hdepth : f.depth = 0)
    (h : (if c = '.' then some PathForm.dot else if c = '[' then some .bracket else none) = some f') :
    f.Step c f' := by
  split_ifs at h with hdot hbracket
  · cases h
    exact hdot ▸ .plain (by decide) hquote rfl hdepth.symm
  · cases h
    exact hbracket ▸ .opens hquote hdepth

/-- **The next character of a path** takes a step. -/
theorem PathForm.step_of_next {c : Char} (h : f.next c = some f') : f.Step c f' := by
  cases f with
  | name =>
    simp only [next] at h
    split at h
    · rename_i hname
      cases h
      exact .plain (isPlain_of_isNameChar hname) rfl rfl rfl
    · exact step_of_opened rfl rfl h
  | dot =>
    simp only [next] at h
    split_ifs at h with hname
    cases h
    exact .plain (isPlain_of_isNameChar hname) rfl rfl rfl
  | bracket =>
    simp only [next] at h
    split_ifs at h with hmark hdigit
    · cases h
      exact .quotes hmark
    · cases h
      exact .plain (isPlain_of_isDecimalDigit hdigit) rfl rfl rfl
  | index =>
    simp only [next] at h
    split_ifs at h with hdigit hclose
    · cases h
      exact .plain (isPlain_of_isDecimalDigit hdigit) rfl rfl rfl
    · cases h
      exact hclose ▸ .closes rfl rfl
  | key q =>
    simp only [next] at h
    split_ifs at h with hmark
    · cases h
      exact hmark ▸ .unquotes
    · cases h
      exact .quoted hmark
  | ending =>
    simp only [next] at h
    split_ifs at h with hclose
    cases h
    exact hclose ▸ .closes rfl rfl
  | closed => exact step_of_opened rfl rfl h

/-- The scanner for bars keeps up with a path. -/
theorem stagesFrom_step {c : Char} (h : f.Step c f') (done rest : List Char) :
    stagesFrom f.depth f.quote done (c :: rest) = stagesFrom f'.depth f'.quote (c :: done) rest := by
  cases h with
  | plain hc hquote hquote' hdepth =>
    have hplain : ∀ d ∈ [c], IsPlain d := List.forall_mem_singleton.mpr hc
    rw [hquote, hquote', hdepth]
    exact Unsplit.of_isPlain hplain done rest
  | opens hquote hdepth =>
    rw [hquote, hdepth]
    rfl
  | closes hquote hdepth =>
    rw [hquote, hdepth]
    rfl
  | quotes hc => simp [stagesFrom, PathForm.quote, PathForm.depth, hc]
  | unquotes => simp [stagesFrom, PathForm.quote, PathForm.depth]
  | quoted hc => simp [stagesFrom, PathForm.quote, PathForm.depth, hc]

/-- The scanner for braces keeps up with a path but for a backslash, which is an escape to it. -/
theorem Enclosed.step {depth : Int} {c : Char} (h : f.Step c f') (hslash : c ≠ '\\') :
    Enclosed depth f.quote [c] f'.quote := by
  cases h with
  | plain hc hquote hquote' hdepth =>
    rw [hquote, hquote']
    exact .of_isPlain (List.forall_mem_singleton.mpr hc)
  | opens hquote =>
    rw [hquote]
    exact .plain (by simp)
  | closes hquote =>
    rw [hquote]
    exact .plain (by simp)
  | quotes hc => exact .opens hc
  | unquotes => exact .closes hslash
  | quoted hc => exact .quoted (by simp [hc, hslash])

theorem foldlM_next_cons {c : Char} : (c :: cs).foldlM PathForm.next f = some f' ↔
    ∃ g, f.next c = some g ∧ cs.foldlM PathForm.next g = some f' := by
  rw [List.foldlM_cons, Option.bind_eq_bind, Option.bind_eq_some_iff]

/-- No bar divides what is read as a path. -/
theorem stagesFrom_of_next (h : cs.foldlM PathForm.next f = some f') (done : List Char) :
    stagesFrom f.depth f.quote done cs = [strip (String.ofList (done.reverse ++ cs))] := by
  induction cs generalizing f done with
  | nil => rw [stagesFrom, List.append_nil]
  | cons c cs ih =>
    obtain ⟨g, hstep, hrest⟩ := foldlM_next_cons.mp h
    rw [stagesFrom_step (PathForm.step_of_next hstep), ih hrest, List.reverse_cons, List.append_assoc]
    rfl

/-- **The scanner for braces passes over what is read as a path**, if there is no backslash in it. -/
theorem Enclosed.of_next {depth : Int} (h : cs.foldlM PathForm.next f = some f') (hslash : '\\' ∉ cs) :
    Enclosed depth f.quote cs f'.quote := by
  induction cs generalizing f with
  | nil =>
    cases h
    exact .nil
  | cons c cs ih =>
    obtain ⟨g, hstep, hrest⟩ := foldlM_next_cons.mp h
    rw [List.mem_cons, not_or] at hslash
    exact .cons (.step (PathForm.step_of_next hstep) (Ne.symm hslash.1)) (ih hrest hslash.2)

/-! ## 2. Expressions that begin like paths -/

/-- The characters that a path can begin with are letters and two marks, all of ASCII. -/
theorem ascii_of_starts {c : Char} (h : (startsName c || c = '$') = true) :
    c ∈ ['_', '$'] ∨ (65 ≤ c.toNat ∧ c.toNat ≤ 90) ∨ (97 ≤ c.toNat ∧ c.toNat ≤ 122) := by
  simp only [startsName, Bool.or_eq_true, decide_eq_true_eq, Char.le_def, UInt32.le_iff_toNat_le] at h
  rcases h with (hupper | hlower | rfl) | rfl
  · exact .inr (.inl hupper)
  · exact .inr (.inr hlower)
  · exact .inl (by simp)
  · exact .inl (by simp)

theorem isNameChar_of_starts {c : Char} (h : (startsName c || c = '$') = true) : isNameChar c = true := by
  rcases ascii_of_starts h with hmark | hletter
  · simp only [List.mem_cons, List.not_mem_nil, or_false] at hmark
    rcases hmark with rfl | rfl <;> decide
  · have hascii : c.toNat < 128 := by omega
    have halpha : c.isAlphanum = true := by
      simp only [Char.isAlphanum, Char.isAlpha, Char.isUpper, Char.isLower]
      simp [UInt32.le_iff_toNat_le]
      omega
    simp [isNameChar, isWordChar, hascii, halpha]

theorem isBlank_of_starts {c : Char} (h : (startsName c || c = '$') = true) : isBlank c = false := by
  rcases ascii_of_starts h with hmark | hletter
  · simp only [List.mem_cons, List.not_mem_nil, or_false] at hmark
    rcases hmark with rfl | rfl <;> decide
  · simp [isBlank, CharRanges.contains, blankRanges]
    omega

/-- The character that a path begins with is one of its name. -/
theorem Forms.next (h : Forms cs f) : cs.foldlM PathForm.next .name = some f := by
  obtain ⟨c, rest, rfl, hc, hrest⟩ := h
  have hfirst : PathForm.next .name c = some .name := by simp [PathForm.next, isNameChar_of_starts hc]
  exact foldlM_next_cons.mpr ⟨.name, hfirst, hrest⟩

/-- An expression that begins like a path has no filters. -/
theorem pipeline_of_forms (h : Forms s.toList f) : pipeline s = (strip s, []) := by
  have hstages := stagesFrom_of_next h.next []
  rw [List.reverse_nil, List.nil_append, String.ofList_toList] at hstages
  rw [pipeline, show stagesFrom 0 none [] s.toList = [strip s] from hstages]

/-- What a text that begins like a path begins with does so, too. -/
theorem Forms.of_append {as bs : List Char} (h : Forms (as ++ bs) f) (has : as ≠ []) :
    ∃ g, Forms as g ∧ bs.foldlM PathForm.next g = some f := by
  obtain ⟨c, rest, hsplit, hc, hrest⟩ := h
  obtain ⟨a, as, rfl⟩ := List.exists_cons_of_ne_nil has
  rw [List.cons_append] at hsplit
  obtain ⟨rfl, rfl⟩ := List.cons.inj hsplit
  rw [List.foldlM_append, Option.bind_eq_bind, Option.bind_eq_some_iff] at hrest
  obtain ⟨g, hg, hbs⟩ := hrest
  exact ⟨g, ⟨a, as, rfl, hc, hg⟩, hbs⟩

/-- Blanks lead to a place between quotes from there only. -/
theorem eq_of_next_blanks {q : Char} {bs : List Char} (hbs : ∀ c ∈ bs, isBlank c = true)
    (h : bs.foldlM PathForm.next f = some (.key q)) : f = .key q := by
  induction bs generalizing f with
  | nil =>
    cases h
    rfl
  | cons b bs ih =>
    obtain ⟨hb, hbs⟩ := List.forall_mem_cons.mp hbs
    obtain ⟨g, hstep, hrest⟩ := foldlM_next_cons.mp h
    obtain rfl := ih hbs hrest
    cases PathForm.step_of_next hstep with
    | plain _ _ hquote' => cases hquote'
    | quotes hmark => rcases hmark with rfl | rfl <;> exact absurd hb (by decide)
    | quoted => rfl

/-- Blanks are stripped off the end of such a text, and there is a text left. -/
theorem Forms.exists_blanks (h : Forms cs f) : ∃ bs, cs = (strip (String.ofList cs)).toList ++ bs ∧
    (∀ c ∈ bs, isBlank c = true) ∧ (strip (String.ofList cs)).toList ≠ [] := by
  obtain ⟨as, bs, hcs, has, hbs⟩ := exists_of_strip (String.ofList cs)
  rw [String.toList_ofList] at hcs
  obtain ⟨c, rest, hc, hstarts, -⟩ := h
  have hfirst : c ∉ as ∧ c ∉ bs := by
    have hblank := isBlank_of_starts hstarts
    constructor
    · intro hmem
      simp [has c hmem] at hblank
    · intro hmem
      simp [hbs c hmem] at hblank
  cases as with
  | cons a as =>
    rw [hc, List.cons_append] at hcs
    exact absurd ((List.cons.inj hcs).1 ▸ List.mem_cons_self) hfirst.1
  | nil =>
    rw [List.nil_append] at hcs
    refine ⟨bs, hcs, hbs, ?_⟩
    intro hempty
    rw [hempty, List.nil_append, hc] at hcs
    exact hfirst.2 (hcs ▸ List.mem_cons_self)

/-- A path whose quotes are open is one without the blanks at its end. -/
theorem Forms.stripped {q : Char} (h : Forms cs (.key q)) :
    Forms (strip (String.ofList cs)).toList (.key q) := by
  obtain ⟨bs, hcs, hbs, hne⟩ := h.exists_blanks
  rw [hcs] at h
  obtain ⟨g, hg, hblanks⟩ := h.of_append hne
  rw [eq_of_next_blanks hbs hblanks] at hg
  exact hg

/-! ## 3. Paths without a backslash -/

/-- Where a path stands while its segments are read. -/
inductive PathForm.At (f : PathForm) : PathState → Prop
  | plain {pending : List Char} (hdepth : f.depth = 0) : At f (.plain pending)
  | inside {start : Nat} {b : Bracket} (hdepth : f.depth = 1) (hquote : b.quote = f.quote)
      (hlast : b.last ≠ '\\') : At f (.inside start b)

theorem last_push (b : Bracket) (c : Char) : (b.push c).last = c := by
  unfold Bracket.push
  split
  · split_ifs <;> rfl
  · split_ifs <;> rfl

/-- Where the form of a path goes on, its segments do. -/
theorem PathForm.At.step {st : PathState} {c : Char} (hst : f.At st) (h : f.Step c f') (hslash : c ≠ '\\')
    (pos : Nat) (cs : List Char) :
    ∃ st' g, f'.At st' ∧ Path.parseFrom pos st (c :: cs) = g <$> Path.parseFrom (pos + 1) st' cs := by
  cases hst with
  | @plain pending hdepth =>
    cases h with
    | plain hc hquote hquote' hdepth' =>
      have hplain (pending : List Char) : f'.At (.plain pending) := .plain (hdepth'.trans hdepth)
      by_cases hdot : c = '.'
      · refine ⟨.plain [], (Path.flush pending ++ ·), hplain [], ?_⟩
        rw [Path.parseFrom, if_pos hdot]
      · have hbracket : c ≠ '[' := by
          rintro rfl
          exact absurd hc (by decide)
        refine ⟨.plain (c :: pending), id, hplain _, ?_⟩
        rw [Path.parseFrom, if_neg hdot, if_neg hbracket, id_map]
    | opens => exact ⟨.inside pos .opened, (Path.flush pending ++ ·), .inside rfl rfl (by decide), rfl⟩
    | closes _ hone =>
      rw [hdepth] at hone
      cases hone
    | quotes | unquotes | quoted => cases hdepth
  | @inside start b hdepth hquote hlast =>
    have hpush (hdepth' : f'.depth = 1) (hquote' : (b.push c).quote = f'.quote)
        (hc : ¬ (c = ']' ∧ b.quote = none)) :
        ∃ st' g, f'.At st' ∧
          Path.parseFrom pos (.inside start b) (c :: cs) = g <$> Path.parseFrom (pos + 1) st' cs := by
      refine ⟨.inside start (b.push c), id, .inside hdepth' hquote' ?_, ?_⟩
      · rw [last_push]
        exact hslash
      · rw [Path.parseFrom, if_neg hc, id_map]
    cases h with
    | plain hc hnone hnone' hdepth' =>
      have hmarks : ¬ (c = '\'' ∨ c = '"') ∧ c ≠ ']' := by
        constructor
        · rintro (rfl | rfl) <;> exact absurd hc (by decide)
        · rintro rfl
          exact absurd hc (by decide)
      rw [hnone] at hquote
      refine hpush (hdepth'.trans hdepth) ?_ (by simp [hmarks])
      simp only [Bracket.push, hquote, hmarks, if_false, hnone']
      split_ifs <;> rfl
    | opens _ hzero =>
      rw [hdepth] at hzero
      cases hzero
    | closes hnone =>
      refine ⟨.plain [], (b.segment :: ·), .plain rfl, ?_⟩
      rw [Path.parseFrom, if_pos ⟨rfl, hquote.trans hnone⟩]
    | quotes hc =>
      have hnone : b.quote = none := hquote
      refine hpush rfl (by simp [Bracket.push, hnone, hc, quote]) ?_
      rintro ⟨rfl, -⟩
      simp at hc
    | @unquotes =>
      have hsome : b.quote = some c := hquote
      exact hpush rfl (by simp [Bracket.push, hsome, hlast, quote]) (by simp [hsome])
    | @quoted q _ hc =>
      have hsome : b.quote = some q := hquote
      exact hpush rfl (by simp [Bracket.push, hsome, hc, quote]) (by simp [hsome])

/-- **A path without a backslash has segments**: its brackets are closed where its form says so. -/
theorem exists_parseFrom (hf : cs.foldlM PathForm.next f = some f') (hend : f'.depth = 0) (hslash : '\\' ∉ cs)
    {st : PathState} (hst : f.At st) (pos : Nat) : ∃ p, Path.parseFrom pos st cs = .ok p := by
  induction cs generalizing f st pos with
  | nil =>
    cases hf
    cases hst with
    | plain => exact ⟨_, rfl⟩
    | inside hdepth =>
      rw [hend] at hdepth
      cases hdepth
  | cons c cs ih =>
    obtain ⟨g, hnext, hrest⟩ := foldlM_next_cons.mp hf
    rw [List.mem_cons, not_or] at hslash
    obtain ⟨st', k, hst', heq⟩ := hst.step (PathForm.step_of_next hnext) (Ne.symm hslash.1) pos cs
    obtain ⟨p, hp⟩ := ih hrest hslash.2 hst' (pos + 1)
    exact ⟨k p, by rw [heq, hp]; rfl⟩

/-- There is a value at such a path, in any context and event. -/
theorem exists_lookupScoped_of_unescaped (hpath : isPathText path = true) (hslash : '\\' ∉ path.toList)
    (context event : Value) : ∃ v, lookupScoped path context event = .ok v := by
  obtain ⟨f, hforms, hend⟩ := isPathText_iff.mp hpath
  have hdepth : f.depth = 0 := by
    rcases hend with rfl | rfl <;> rfl
  obtain ⟨p, hp⟩ := exists_parseFrom hforms.next hdepth hslash (.plain rfl) 0
  rcases hsplit : splitScope path with ⟨scope, rest⟩
  obtain ⟨q, hq, -⟩ := Path.parse_inside hsplit (hp : Path.parse path = .ok p)
  rw [lookupScoped, hsplit]
  cases scope with
  | context => exact exists_atTextD hq context
  | event => exact exists_atTextD hq event

/-! ## 4. Slots -/

/-- The path of a slot, which is a template of nothing but a path between braces. -/
def slot? (s : String) : Option String :=
  match s.toList with
  | '{' :: '{' :: cs =>
    let path := strip (String.ofList cs.dropLast.dropLast)
    if ['}', '}'].isSuffixOf cs && isPathText path then some path else none
  | _ => none

/-- What stands in a slot: its path between blanks. -/
theorem exists_of_slot? (h : slot? s = some path) : ∃ as bs,
    s.toList = '{' :: '{' :: (as ++ (path.toList ++ bs) ++ ['}', '}']) ∧
      (∀ c ∈ as, isBlank c = true) ∧ (∀ c ∈ bs, isBlank c = true) ∧
      isPathText path = true ∧ strip path = path := by
  unfold slot? at h
  split at h
  · rename_i cs hs
    dsimp only at h
    split at h
    · rename_i hslot
      obtain ⟨hend, hpath⟩ := (Bool.and_eq_true _ _).mp hslot
      obtain ⟨inside, rfl⟩ := List.isSuffixOf_iff_suffix.mp hend
      have hinside : (inside ++ ['}', '}']).dropLast.dropLast = inside := by simp
      rw [hinside] at h hpath
      have hstrip := Option.some.inj h
      subst hstrip
      obtain ⟨as, bs, hblanks, has, hbs⟩ := exists_of_strip (String.ofList inside)
      rw [String.toList_ofList] at hblanks
      refine ⟨as, bs, ?_, has, hbs, hpath, strip_strip _⟩
      rw [hs, ← hblanks]
    · cases h
  · cases h

example : slot? "\x7b\x7b data['a b'][0] \x7d\x7d" = some "data['a b'][0]" := by decide +kernel

example : slot? "\x7b\x7b name | uppercase \x7d\x7d" = none := by decide +kernel

/-- A closing brace is read between quotes only. -/
theorem eq_key_of_brace {c : Char} (h : f.Step c f') (hc : c = '}') : ∃ q, f = .key q := by
  cases h with
  | plain hplain => exact absurd hplain (hc ▸ by decide)
  | opens | closes => exact absurd hc (by decide)
  | quotes hmark => simp [hc] at hmark
  | unquotes | quoted => exact ⟨_, rfl⟩

/-- A character that is not in the second of two texts is in the first. -/
theorem exists_of_append_cons {c : Char} {as bs before after : List Char} (hbs : c ∉ bs)
    (h : before ++ c :: after = as ++ bs) : ∃ between, as = before ++ c :: between := by
  rcases List.append_eq_append_iff.mp h with ⟨between, rfl, hrest⟩ | ⟨between, rfl, rfl⟩
  · cases between with
    | nil =>
      rw [List.nil_append] at hrest
      exact absurd (hrest ▸ List.mem_cons_self) hbs
    | cons d between =>
      rw [List.cons_append] at hrest
      exact ⟨between, by rw [(List.cons.inj hrest).1]⟩
  · exact absurd (List.mem_append_right between List.mem_cons_self) hbs

/-- Two braces in a text that ends in braces are those at the end, or before them. -/
theorem braces_of_append {body inside rest : List Char}
    (h : body ++ ['}', '}'] = inside ++ '}' :: '}' :: rest) :
    inside = body ∧ rest = [] ∨ ∃ between, body = inside ++ '}' :: between := by
  rcases List.append_eq_append_iff.mp h with ⟨between, rfl, hend⟩ | ⟨between, rfl, hend⟩
  · have hlength := congrArg List.length hend
    simp only [List.length_append, List.length_cons, List.length_nil] at hlength
    obtain rfl : between = [] := List.length_eq_zero_iff.mp (by omega)
    exact .inl ⟨List.append_nil body, by simpa using hend⟩
  · cases between with
    | nil => exact .inl ⟨(List.append_nil inside).symm, by simpa using hend⟩
    | cons c between =>
      rw [List.cons_append] at hend
      exact .inr ⟨between, by rw [← (List.cons.inj hend).1]⟩

/-- What is cut off a path before a closing brace is cut off between quotes. -/
theorem Forms.of_brace {before after : List Char} (h : Forms (before ++ '}' :: after) f) :
    ∃ q, Forms before (.key q) := by
  have hne : before ≠ [] := by
    rintro rfl
    obtain ⟨c, rest, hc, hstarts, -⟩ := h
    obtain ⟨rfl, -⟩ := List.cons.inj hc
    exact absurd hstarts (by decide)
  obtain ⟨g, hg, hbrace⟩ := h.of_append hne
  obtain ⟨g', hnext, -⟩ := foldlM_next_cons.mp hbrace
  obtain ⟨q, rfl⟩ := eq_key_of_brace (PathForm.step_of_next hnext) rfl
  exact ⟨q, hg⟩

theorem Enclosed.of_isBlank (h : ∀ c ∈ cs, isBlank c = true) : Enclosed 0 none cs none :=
  .of_isPlain fun c hc => isPlain_of_isBlank (h c hc)

/-- **What the scanner takes a slot for**: its path, or what stands before braces between the quotes of its
path. -/
theorem scan_slot (h : slot? s = some path) (hscan : scan s = .ok pieces) :
    pieces = [.expression path] ∨
      ∃ e ps q, pieces = .expression e :: ps ∧ strip e = e ∧ Forms e.toList (.key q) := by
  obtain ⟨as, bs, hs, has, hbs, hpath, hstripped⟩ := exists_of_slot? h
  rw [scan, hs, scanFrom, List.append_assoc, Enclosed.of_isBlank has] at hscan
  obtain ⟨ps, hps, rfl⟩ := map_eq_ok.mp hscan
  obtain ⟨inside, rest, qs, hsplit, rfl, hrest⟩ := closes_braces hps
  have hinside : textPiece [] ++ expressionPiece (inside.reverse ++ (as.reverse ++ [])) :: qs =
      .expression (strip (String.ofList inside)) :: qs := by
    have hstrip := strip_between inside has (List.forall_mem_nil _)
    rw [List.append_nil] at hstrip
    rw [expressionPiece, List.append_nil, ← List.reverse_append, List.reverse_reverse, hstrip]
    rfl
  rw [hinside]
  rcases braces_of_append hsplit with ⟨rfl, rfl⟩ | ⟨between, hbetween⟩
  · left
    have hstrip := strip_between path.toList (List.forall_mem_nil _) hbs
    rw [List.nil_append, String.ofList_toList, hstripped] at hstrip
    rw [scanFrom] at hrest
    cases hrest
    rw [hstrip]
    rfl
  · right
    have hbrace : '}' ∉ bs := by
      intro hmem
      exact absurd (hbs _ hmem) (by decide)
    obtain ⟨back, hback⟩ := exists_of_append_cons hbrace hbetween.symm
    obtain ⟨f, hforms, -⟩ := isPathText_iff.mp hpath
    rw [hback] at hforms
    obtain ⟨q, hq⟩ := hforms.of_brace
    exact ⟨_, qs, q, rfl, strip_strip _, hq.stripped⟩

/-- **A slot without a backslash is taken for its path.** -/
theorem scan_slot_of_unescaped (h : slot? s = some path) (hslash : '\\' ∉ path.toList) :
    scan s = .ok [.expression path] := by
  obtain ⟨as, bs, hs, has, hbs, hpath, hstripped⟩ := exists_of_slot? h
  obtain ⟨f, hforms, hend⟩ := isPathText_iff.mp hpath
  have hmiddle : Enclosed 0 none path.toList f.quote := .of_next hforms.next hslash
  have hquote : f.quote = none := by
    rcases hend with rfl | rfl <;> rfl
  rw [hquote] at hmiddle
  have hinside := (Enclosed.of_isBlank has).append (hmiddle.append (.of_isBlank hbs))
  have hstrip := strip_between path.toList has hbs
  rw [String.ofList_toList, hstripped] at hstrip
  rw [scan_of_enclosed hinside hs, hstrip]

end Template

namespace Renderer

open Template

variable (r : Renderer) {context event : Value} {f : PathForm} {e : String}

/-- **An expression that begins like a path is a path, or malformed**: it is neither quoted nor inline, calls
no helper and has no filters. -/
theorem expressionValue_of_forms (h : Forms e.toList f) (hstrip : strip e = e) :
    r.expressionValue e context event = pathValue e context event := by
  obtain ⟨c, rest, hc, hstarts, -⟩ := id h
  obtain ⟨hinline, hquoted⟩ := plain_of_starts hc hstarts
  have hsome : e.isEmpty = false := by
    rw [Bool.eq_false_iff]
    intro hempty
    rw [String.isEmpty_iff] at hempty
    subst hempty
    cases hc
  have hhead : headValue e context event = pathValue e context event := by
    simp [headValue, hinline, hquoted, helperCall?_of_forms h]
  rw [expressionValue, hsome, pipeline_of_forms h, hstrip]
  simp [hhead]

/-- The expression that a template begins with has to have a value. -/
theorem evaluate_of_failure {s : String} {ps : List Piece} {fault : Fault}
    (hscan : scan s = .ok (.expression e :: ps)) (h : r.expressionValue e context event = .error fault) :
    r.evaluate s context event = .error fault := by
  cases ps with
  | nil => rw [evaluate_single r context event hscan, h]
  | cons p ps =>
    have hpieces : r.piecesText context event (.expression e :: p :: ps) = .error fault := by
      rw [piecesText_cons, pieceText, h]
      rfl
    rw [evaluate, hscan]
    exact congrArg (Value.text <$> ·) hpieces

/-- **A slot has the value that is found at its path**, if it has a value. -/
theorem evaluate_slot {s path : String} (h : slot? s = some path) {v : Value}
    (hv : r.evaluate s context event = .ok v) : lookupScoped path context event = .ok v := by
  obtain ⟨-, -, -, -, -, hpath, hstripped⟩ := exists_of_slot? h
  obtain ⟨f, hforms, -⟩ := isPathText_iff.mp hpath
  obtain ⟨ps, hps, -⟩ := bind_eq_ok.mp (hv : (liftEval (scan s) >>= _) = .ok v)
  have hscan : scan s = .ok ps := mapError_eq_ok.mp hps
  rcases scan_slot h hscan with rfl | ⟨e, qs, q, rfl, he, hcut⟩
  · rw [evaluate_single r context event hscan, expressionValue_of_forms r hforms hstripped, pathValue_eq,
      if_pos hpath] at hv
    exact mapError_eq_ok.mp hv
  · have hmalformed : isPathText e = false := by
      rw [Bool.eq_false_iff]
      intro he
      obtain ⟨g, hg, hend⟩ := isPathText_iff.mp he
      cases hcut.next.symm.trans hg.next
      simp at hend
    have hfailure : r.expressionValue e context event = .error (.evaluation (.malformedExpression e)) := by
      rw [expressionValue_of_forms r hcut he, pathValue_eq, hmalformed]
      rfl
    rw [r.evaluate_of_failure hscan hfailure] at hv
    cases hv

/-- A slot without a backslash has a value. -/
theorem exists_evaluate_slot {s path : String} (h : slot? s = some path) (hslash : '\\' ∉ path.toList)
    (context event : Value) : ∃ v, r.evaluate s context event = .ok v := by
  obtain ⟨-, -, -, -, -, hpath, hstripped⟩ := exists_of_slot? h
  obtain ⟨f, hforms, -⟩ := isPathText_iff.mp hpath
  obtain ⟨v, hv⟩ := exists_lookupScoped_of_unescaped hpath hslash context event
  refine ⟨v, ?_⟩
  rw [evaluate_single r context event (scan_slot_of_unescaped h hslash),
    expressionValue_of_forms r hforms hstripped, pathValue_eq, if_pos hpath, hv]
  rfl

/-- Text without marks is its own value. -/
theorem evaluate_plain {s : String} (h : plain s.toList = true) :
    r.evaluate s context event = .ok (.text s) := by
  have hscan : scan s = .ok (textPiece s.toList.reverse) := by
    rw [scan, scanFrom_plain 0 [] s.toList h, List.append_nil]
  have hvalue : r.evaluate s context event = Value.text <$> r.evaluateText s context event := by
    rw [evaluate, evaluateText, hscan]
    unfold textPiece
    split_ifs <;> rfl
  rw [hvalue, r.evaluateText_of_plain h]
  rfl

end Renderer

/-! ## 6. Forms -/

namespace Value

mutual

/-- The texts in a value, at any depth; the keys of its mappings are not among them. -/
def leaves : Value → List String
  | .text s => [s]
  | .list vs => itemLeaves vs
  | .dict es => entryLeaves es
  | _ => []

def itemLeaves : List Value → List String
  | [] => []
  | v :: vs => leaves v ++ itemLeaves vs

def entryLeaves : List (Key × Value) → List String
  | [] => []
  | (_, v) :: es => leaves v ++ entryLeaves es

end

/-- A form: every text in it is a slot, or has no mark that opens an expression. -/
def IsForm (v : Value) : Prop := ∀ s ∈ v.leaves, (Template.slot? s).isSome ∨ Template.plain s.toList = true

instance : DecidablePred IsForm := fun v =>
  inferInstanceAs (Decidable (∀ s ∈ v.leaves, (Template.slot? s).isSome ∨ Template.plain s.toList = true))

/-- No path in a slot of a form has a backslash. -/
def Unescaped (v : Value) : Prop := ∀ s ∈ v.leaves, ∀ path ∈ Template.slot? s, '\\' ∉ path.toList

instance : DecidablePred Unescaped := fun v =>
  inferInstanceAs (Decidable (∀ s ∈ v.leaves, ∀ path ∈ Template.slot? s, '\\' ∉ path.toList))

end Value

namespace Template

/-- What is put into a slot is what is found at its path; any other text stays as it is. -/
def fillText (context event : Value) (s : String) : Except PathError Value :=
  match slot? s with
  | some path => lookupScoped path context event
  | none => .ok (.text s)

mutual

/-- A form with its slots filled. -/
def fill (context event : Value) : Value → Except PathError Value
  | .text s => fillText context event s
  | .list vs => .list <$> fillItems context event vs
  | .dict es => .dict <$> fillEntries context event es
  | v => .ok v

def fillItems (context event : Value) : List Value → Except PathError (List Value)
  | [] => .ok []
  | v :: vs => do
    let w ← fill context event v
    let ws ← fillItems context event vs
    return w :: ws

def fillEntries (context event : Value) : List (Key × Value) → Except PathError (List (Key × Value))
  | [] => .ok []
  | (k, v) :: es => do
    let w ← fill context event v
    let fs ← fillEntries context event es
    return (k, w) :: fs

end

end Template

namespace Renderer

open Template

variable (r : Renderer) {context event : Value}

/-- A text that is resolved is resolved to what is put in its place. -/
def IsFaithful (context event : Value) (s : String) : Prop :=
  ∀ w, r.evaluate s context event = .ok w → fillText context event s = .ok w

mutual

/-- A value is resolved to what it is filled with if its texts are. -/
theorem fill_of_renderValue (v : Value)
    (h : ∀ s ∈ v.leaves, r.IsFaithful context event s) {w : Value}
    (hw : r.renderValue context event v = .ok w) : fill context event v = .ok w := by
  cases v with
  | text s =>
    rw [fill]
    exact h s (by simp [Value.leaves]) w hw
  | list vs =>
    rw [Value.leaves] at h
    obtain ⟨ws, hws, hw⟩ := bind_eq_ok.mp hw
    cases hw
    rw [fill, fillItems_of_renderItems vs h hws]
    rfl
  | dict es =>
    rw [Value.leaves] at h
    obtain ⟨fs, hfs, hw⟩ := bind_eq_ok.mp hw
    cases hw
    rw [fill, fillEntries_of_renderEntries es h hfs]
    rfl
  | null | bool | int | float => simpa [fill, renderValue] using hw

theorem fillItems_of_renderItems (vs : List Value)
    (h : ∀ s ∈ Value.itemLeaves vs, r.IsFaithful context event s) {ws : List Value}
    (hws : r.renderItems context event vs = .ok ws) : fillItems context event vs = .ok ws := by
  cases vs with
  | nil => simpa [fillItems, renderItems] using hws
  | cons v vs =>
    rw [Value.itemLeaves, List.forall_mem_append] at h
    obtain ⟨x, hx, hws⟩ := bind_eq_ok.mp hws
    obtain ⟨xs, hxs, hws⟩ := bind_eq_ok.mp hws
    cases hws
    rw [fillItems, fill_of_renderValue v h.1 hx, fillItems_of_renderItems vs h.2 hxs]
    rfl

theorem fillEntries_of_renderEntries (es : List (Key × Value))
    (h : ∀ s ∈ Value.entryLeaves es, r.IsFaithful context event s) {fs : List (Key × Value)}
    (hfs : r.renderEntries context event es = .ok fs) : fillEntries context event es = .ok fs := by
  cases es with
  | nil => simpa [fillEntries, renderEntries] using hfs
  | cons e es =>
    obtain ⟨k, v⟩ := e
    rw [Value.entryLeaves, List.forall_mem_append] at h
    obtain ⟨x, hx, hfs⟩ := bind_eq_ok.mp hfs
    obtain ⟨xs, hxs, hfs⟩ := bind_eq_ok.mp hfs
    cases hfs
    rw [fillEntries, fill_of_renderValue v h.1 hx, fillEntries_of_renderEntries es h.2 hxs]
    rfl

end

mutual

/-- A value is resolved if its texts are. -/
theorem exists_renderValue (v : Value) (h : ∀ s ∈ v.leaves, ∃ w, r.evaluate s context event = .ok w) :
    ∃ w, r.renderValue context event v = .ok w := by
  cases v with
  | text s => exact h s (by simp [Value.leaves])
  | list vs =>
    rw [Value.leaves] at h
    obtain ⟨ws, hws⟩ := exists_renderItems vs h
    exact ⟨.list ws, by rw [renderValue, hws]; rfl⟩
  | dict es =>
    rw [Value.leaves] at h
    obtain ⟨fs, hfs⟩ := exists_renderEntries es h
    exact ⟨.dict fs, by rw [renderValue, hfs]; rfl⟩
  | null | bool | int | float => exact ⟨_, by simp [renderValue]; rfl⟩

theorem exists_renderItems (vs : List Value)
    (h : ∀ s ∈ Value.itemLeaves vs, ∃ w, r.evaluate s context event = .ok w) :
    ∃ ws, r.renderItems context event vs = .ok ws := by
  cases vs with
  | nil => exact ⟨[], rfl⟩
  | cons v vs =>
    rw [Value.itemLeaves, List.forall_mem_append] at h
    obtain ⟨w, hw⟩ := exists_renderValue v h.1
    obtain ⟨ws, hws⟩ := exists_renderItems vs h.2
    exact ⟨w :: ws, by rw [renderItems, hw, hws]; rfl⟩

theorem exists_renderEntries (es : List (Key × Value))
    (h : ∀ s ∈ Value.entryLeaves es, ∃ w, r.evaluate s context event = .ok w) :
    ∃ fs, r.renderEntries context event es = .ok fs := by
  cases es with
  | nil => exact ⟨[], rfl⟩
  | cons e es =>
    obtain ⟨k, v⟩ := e
    rw [Value.entryLeaves, List.forall_mem_append] at h
    obtain ⟨w, hw⟩ := exists_renderValue v h.1
    obtain ⟨fs, hfs⟩ := exists_renderEntries es h.2
    exact ⟨(k, w) :: fs, by rw [renderEntries, hw, hfs]; rfl⟩

end

/-- **To resolve a form is to fill it**, if it is resolved. -/
theorem fill_of_isForm {v : Value} (h : v.IsForm) {w : Value} (hw : r.renderValue context event v = .ok w) :
    fill context event v = .ok w := by
  refine r.fill_of_renderValue v ?_ hw
  intro s hs x hx
  unfold fillText
  cases hslot : slot? s with
  | some path => exact r.evaluate_slot hslot hx
  | none =>
    have hplain : plain s.toList = true := (h s hs).resolve_left (by simp [hslot])
    rw [r.evaluate_plain hplain] at hx
    cases hx
    rfl

/-- **A form without a backslash is resolved.** -/
theorem exists_renderValue_of_isForm {v : Value} (h : v.IsForm) (hslash : v.Unescaped)
    (context event : Value) : ∃ w, r.renderValue context event v = .ok w := by
  refine r.exists_renderValue v ?_
  intro s hs
  cases hslot : slot? s with
  | some path => exact r.exists_evaluate_slot hslot (hslash s hs path hslot) context event
  | none => exact ⟨.text s, r.evaluate_plain ((h s hs).resolve_left (by simp [hslot]))⟩

/-- A slot with a backslash before the end of its quotes, and other quotes behind it. -/
def crooked : String := "\x7b\x7b a['x\\'][\"']b\"] \x7d\x7d"

/-- **A backslash can keep a form from being resolved**: there is a value at the path of the slot, but to the
scanner its quotes are never closed. -/
theorem unresolved_of_backslash : ∃ path, slot? crooked = some path ∧
    lookupScoped path (.record []) .null = .ok .null ∧
      ∀ v, standard.evaluate crooked (.record []) .null ≠ .ok v := by
  have hscan : (scan crooked).toOption.isNone = true := by decide +kernel
  refine ⟨"a['x\\'][\"']b\"]", by decide +kernel, by rfl, ?_⟩
  intro v hv
  obtain ⟨ps, hps, -⟩ := bind_eq_ok.mp (hv : (liftEval (scan crooked) >>= _) = .ok v)
  rw [mapError_eq_ok.mp hps] at hscan
  cases hscan

end Renderer

/-! ## 7. Requests -/

namespace HttpActor

open Template

/-- An entry that one step of a fold makes, and that the others keep, is there in the end. -/
theorem lookup_foldl {f : Entries → String → Entries} {n : String} {v : Value}
    (hmake : ∀ es, Entries.lookup n (f es n) = some v)
    (hkeep : ∀ es m, m ≠ n → Entries.lookup n (f es m) = Entries.lookup n es) {names : List String}
    {es : Entries} (h : n ∈ names ∨ Entries.lookup n es = some v) :
    Entries.lookup n (names.foldl f es) = some v := by
  induction names generalizing es with
  | nil => exact h.resolve_left List.not_mem_nil
  | cons m names ih =>
    rw [List.foldl_cons]
    apply ih
    by_cases hm : m = n
    · subst hm
      exact .inr (hmake es)
    · rw [hkeep es m hm]
      exact h.imp_left fun hmem => (List.mem_cons.mp hmem).resolve_left (Ne.symm hm)

/-- Of the parts of a request, those that are in the input are the ones of the input. -/
theorem lookup_overridden {n : String} (hn : n ∈ partNames) {es : Entries} {v : Value}
    (h : Entries.lookup n es = some v) (parts : Entries) :
    Entries.lookup n (overridden (.dict es) parts) = some v := by
  refine lookup_foldl (fun parts => ?_) (fun parts m hm => ?_) (.inl hn)
  · rw [h]
    exact Entries.lookup_insert_self n v parts
  · split
    · exact Entries.lookup_insert_ne _ parts (Ne.symm hm)
    · rfl

/-- **The body of a request is that of the input**, whatever is configured. -/
theorem body_of_request {a : HttpActor} {r : Renderer} {es : Entries} {context event v : Value}
    {spec : RequestSpec} (hspec : a.request r (.dict es) context event = .ok spec)
    (h : Entries.lookup "body" es = some v) : spec.body = v := by
  obtain ⟨parts, -, hspec⟩ := bind_eq_ok.mp hspec
  have hbody := lookup_overridden (by simp [partNames]) h parts
  dsimp only at hspec
  split at hspec
  · cases hspec
  · obtain ⟨method, -, hspec⟩ := bind_eq_ok.mp hspec
    obtain ⟨url, -, hspec⟩ := bind_eq_ok.mp hspec
    obtain ⟨headers, -, hspec⟩ := bind_eq_ok.mp hspec
    obtain ⟨params, -, hspec⟩ := bind_eq_ok.mp hspec
    cases hspec
    rw [hbody]
    rfl

/-- The input of a call is its template, resolved. -/
theorem renderedInput_eq_ok {i : Invocation} {r : Renderer} {context event input : Value} :
    i.renderedInput r context event = .ok input ↔ r.renderValue context event i.input = .ok input := by
  unfold Invocation.renderedInput
  split
  · rename_i hfailed
    rw [hfailed]
    exact iff_of_false nofun nofun
  · rfl

theorem renderValue_body (r : Renderer) (context event form : Value) :
    r.renderValue context event (.record [("body", form)]) =
      (fun body => .record [("body", body)]) <$> r.renderValue context event form := by
  have hentries : r.renderEntries context event [(.text "body", form)] =
      (fun body => [(.text "body", body)]) <$> r.renderValue context event form := by
    rw [Renderer.renderEntries]
    cases r.renderValue context event form <;> rfl
  change (do return Value.dict (← r.renderEntries context event [(.text "body", form)])) = _
  rw [hentries]
  cases r.renderValue context event form <;> rfl

/-- **The body of a request is the form of the invocation, filled**, whatever is configured and whatever is
found at the paths.  A form without a backslash is always resolved. -/
theorem body_eq_fill {i : Invocation} {form : Value} (hinput : i.input = .record [("body", form)])
    (hform : form.IsForm) (r : Renderer) (context event : Value) :
    (∀ (a : HttpActor) (s : Renderer) input spec, i.renderedInput r context event = .ok input →
        a.request s input context event = .ok spec → fill context event form = .ok spec.body) ∧
      (form.Unescaped → ∃ body, fill context event form = .ok body ∧
        i.renderedInput r context event = .ok (.record [("body", body)])) := by
  constructor
  · intro a s input spec hrendered hspec
    rw [renderedInput_eq_ok, hinput, renderValue_body] at hrendered
    obtain ⟨body, hbody, rfl⟩ := map_eq_ok.mp hrendered
    rw [body_of_request hspec rfl]
    exact r.fill_of_isForm hform hbody
  · intro hslash
    obtain ⟨body, hbody⟩ := r.exists_renderValue_of_isForm hform hslash context event
    refine ⟨body, r.fill_of_isForm hform hbody, ?_⟩
    rw [renderedInput_eq_ok, hinput, renderValue_body, hbody]
    rfl

/-- An actor that sends reviews, and one of its calls: what somebody has written, with tags. -/
def reviews : HttpActor where
  config := [(.text "method", .text "POST"),
    (.text "url", .text "https://api.test/reviews/\x7b\x7b id \x7d\x7d")]
  timeoutMs := 30000.0

def review : Value :=
  .record [("text", .text "\x7b\x7b context.comment \x7d\x7d"),
    ("tags", .list [.text "\x7b\x7bevent.tags\x7d\x7d", .text "new"])]

def reviewing : Invocation where
  id := "send"
  src := "reviews"
  stateId := "sending"
  actor := .http reviews
  input := .record [("body", review)]
  timeoutMs := .null
  retry := default
  cacheKey := .null
  cacheTtlMs := .null

/-- What has been written looks like templates, one of them for a secret. -/
def reviewer : Value :=
  .record [("id", .int 7), ("comment", .text "see \x7b\x7b context.secret \x7d\x7d or \x7b\x7b oops"),
    ("secret", .text "s3cr3t")]

def posted : Value := .record [("tags", .list [.text "<%= secret %>", .null])]

/-- It is sent as it has been written. -/
def sentReview : Value :=
  .record [("text", .text "see \x7b\x7b context.secret \x7d\x7d or \x7b\x7b oops"),
    ("tags", .list [.list [.text "<%= secret %>", .null], .text "new"])]

theorem body_eq_fill_review : review.IsForm ∧ review.Unescaped ∧
    ∃ input spec, reviewing.renderedInput .standard reviewer posted = .ok input ∧
      reviews.request .standard input reviewer posted = .ok spec ∧ spec.body = sentReview := by
  have hform : review.IsForm := by decide +kernel
  have hslash : review.Unescaped := by decide +kernel
  have hfill : fill reviewer posted review = .ok sentReview := by rfl
  obtain ⟨hsent, hresolved⟩ := body_eq_fill (i := reviewing) rfl hform .standard reviewer posted
  obtain ⟨body, hbody, hinput⟩ := hresolved hslash
  obtain rfl := Except.ok.inj (hfill.symm.trans hbody)
  obtain ⟨spec, hspec, -⟩ := exists_ok_of_any
    (x := reviews.request .standard (.record [("body", sentReview)]) reviewer posted) (f := fun _ => true)
    (by decide +kernel)
  have hspec' := hsent reviews .standard _ spec hinput hspec
  exact ⟨hform, hslash, _, spec, hinput, hspec, (Except.ok.inj (hfill.symm.trans hspec')).symm⟩

end HttpActor

end Statechart
