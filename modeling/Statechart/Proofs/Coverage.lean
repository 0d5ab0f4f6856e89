/-
# What covers the variables of a template

A template that a state may only use if something provides its variables is held against a list of keys.
A key should cover a variable if one of the two paths begins with the other.  What is compared is their
texts, and these only go on after a dot: where one path goes on by the index of an item, or in other
quotes and digits, the texts do not show it, and the variable is reported.

* `Template.Names`: the head of an expression that is a path, or a helper applied to one;
* `Template.Forms`: a text that has the form of a path as far as it goes;
* `Template.exists_pathsRead`, `Template.mem_pathsRead`: the variables of a template, and of one with such
  heads only;
* `Template.isRelated_iff`, `Template.isPrefix_of_isRelated`: texts and paths;
* **`Template.missing_iff_unrelated`**: what is reported as missing.
-/
import Statechart.Template.Requirement
import Statechart.Proofs.Search
import Statechart.Proofs.Spelling

namespace Statechart

namespace Template

variable {head v path key template : String} {pieces : List Piece} {available : List String} {p q : Path}

/-! ## 1. Heads that name a path -/

/-- The head of an expression names a path: it is the path, or a helper that is applied to it. -/
def Names (head v : String) : Prop :=
  isPathText v = true ∧ (head = v ∨ ∃ helper, helperCall? head = some (helper, v))

/-- A text that begins like a path is neither quoted nor inline. -/
theorem plain_of_starts {c : Char} {cs : List Char} (hhead : head.toList = c :: cs)
    (hc : (startsName c || c = '$') = true) : isInline head = false ∧ unquote? head = none := by
  have hne : ∀ d : Char, (startsName d || d = '$') = false → c ≠ d := fun d hd heq => by
    rw [heq, hd] at hc
    cases hc
  have hbrace := hne '{' (by decide)
  have hbracket := hne '[' (by decide)
  have hsingle := hne '\'' (by decide)
  have hdouble := hne '"' (by decide)
  exact ⟨by simp [isInline, hhead, hbrace, hbracket], by simp [unquote?, hhead, hsingle, hdouble]⟩

/-- The name at the beginning of a path is not followed by a parenthesis. -/
theorem foldlM_next_name {ws : List Char} (hws : ∀ c ∈ ws, isWordChar c = true) (rest : List Char) :
    (ws ++ '(' :: rest).foldlM PathForm.next .name = none := by
  induction ws with
  | nil => rfl
  | cons c ws ih =>
    obtain ⟨hc, hws⟩ := List.forall_mem_cons.mp hws
    have hnext : PathForm.next .name c = some .name := by simp [PathForm.next, isNameChar, hc]
    rw [List.cons_append, List.foldlM_cons, hnext]
    exact ih hws

/-- A text has the form of a path as far as it goes. -/
def Forms (cs : List Char) (f : PathForm) : Prop :=
  ∃ c rest, cs = c :: rest ∧ (startsName c || c = '$') = true ∧ rest.foldlM PathForm.next .name = some f

theorem isPathText_iff : isPathText v = true ↔ ∃ f, Forms v.toList f ∧ (f = .name ∨ f = .closed) := by
  unfold isPathText
  constructor
  · intro h
    split at h
    · cases h
    · rename_i c cs hv
      obtain ⟨hc, hcs⟩ := (Bool.and_eq_true _ _).mp h
      split at hcs
      · rename_i f hf
        exact ⟨f, ⟨c, cs, hv, hc, hf⟩, of_decide_eq_true hcs⟩
      · cases hcs
  · rintro ⟨f, ⟨c, cs, hv, hc, hf⟩, hend⟩
    simp only [hv, hc, hf, hend, decide_true, Bool.and_self]

theorem helperCall?_of_forms {f : PathForm} (h : Forms v.toList f) : helperCall? v = none := by
  obtain ⟨c, cs, hv, -, hf⟩ := h
  unfold helperCall?
  simp only [hv]
  split
  · split
    · rename_i rest hrest
      have hcs : cs = cs.takeWhile isWordChar ++ '(' :: rest := by
        rw [← hrest, List.takeWhile_append_dropWhile]
      have hword : ∀ d ∈ cs.takeWhile isWordChar, isWordChar d = true :=
        fun d hd => List.all_eq_true.mp List.all_takeWhile d hd
      have hnone := foldlM_next_name hword rest
      rw [← hcs, hf] at hnone
      cases hnone
    · rfl
  · rfl

/-- Such a head is neither quoted nor inline. -/
theorem plain_of_names (h : Names head v) : isInline head = false ∧ unquote? head = none := by
  obtain ⟨hv, rfl | ⟨helper, hcall⟩⟩ := h
  · obtain ⟨f, ⟨c, cs, hhead, hc, -⟩, -⟩ := isPathText_iff.mp hv
    exact plain_of_starts hhead hc
  · unfold helperCall? at hcall
    split at hcall
    · cases hcall
    · rename_i c cs hhead
      split at hcall
      · rename_i hc
        exact plain_of_starts hhead (by simp [hc])
      · cases hcall

/-- Such a head has the path as its only variable. -/
theorem headVariables_of_names (h : Names head v) : headVariables head = .ok [v] := by
  obtain ⟨hinline, hquoted⟩ := plain_of_names h
  obtain ⟨hv, rfl | ⟨helper, hcall⟩⟩ := h
  · obtain ⟨f, hforms, -⟩ := isPathText_iff.mp hv
    simp [headVariables, hinline, hquoted, helperCall?_of_forms hforms]
  · simp [headVariables, hinline, hquoted, hcall]

/-! ## 2. The variables of a template -/

/-- An expression of a template names a path. -/
def Mentions (pieces : List Piece) (v : String) : Prop := ∃ e, .expression e ∈ pieces ∧ Names (pipeline e).1 v

theorem mem_firstAppearances {s : String} {ss : List String} : s ∈ firstAppearances ss ↔ s ∈ ss := by
  have hall : ∀ seen, s ∈ ss.foldl (fun seen t => if t ∈ seen then seen else seen ++ [t]) seen ↔
      s ∈ seen ∨ s ∈ ss := by
    induction ss with
    | nil => simp
    | cons t ss ih =>
      intro seen
      rw [List.foldl_cons, ih]
      split
      · rename_i hseen
        simp only [List.mem_cons]
        exact ⟨Or.imp_right .inr, fun h => h.elim .inl (Or.rec (fun heq => .inl (heq ▸ hseen)) .inr)⟩
      · simp [or_assoc]
  simpa [firstAppearances] using hall []

/-- The paths that a piece of a template reads. -/
def pieceVariables : Piece → Except Fault (List String)
  | .text _ => .ok []
  | .expression e => headVariables (pipeline e).1

/-- A head that is no inline expression has its variables at once. -/
theorem exists_headVariables (h : isInline head = false) : ∃ vs, headVariables head = .ok vs := by
  simp only [headVariables, h, Bool.false_eq_true, if_false]
  split_ifs
  · exact ⟨[], rfl⟩
  · split <;> exact ⟨_, rfl⟩

/-- No expression of a template is an inline one. -/
def HasNoInline (pieces : List Piece) : Prop := ∀ e, .expression e ∈ pieces → isInline (pipeline e).1 = false

/-- **The variables of a template** without inline expressions are those of its heads. -/
theorem exists_pathsRead (hscan : scan template = .ok pieces) (hheads : HasNoInline pieces) :
    ∃ vs, pathsRead template = .ok vs ∧
      ∀ v, v ∈ vs ↔ ∃ e, .expression e ∈ pieces ∧ ∃ ws, headVariables (pipeline e).1 = .ok ws ∧ v ∈ ws := by
  obtain ⟨found, hfound⟩ : ∃ found, pieces.mapM pieceVariables = .ok found :=
    exists_mapM fun piece hpiece => by
      cases piece with
      | text s => exact ⟨[], rfl⟩
      | expression e => exact exists_headVariables (hheads e hpiece)
  refine ⟨firstAppearances found.flatten, ?_, fun v => ?_⟩
  · rw [pathsRead, hscan]
    exact bind_eq_ok.mpr ⟨pieces, rfl, bind_eq_ok.mpr ⟨found, hfound, rfl⟩⟩
  · rw [mem_firstAppearances, List.mem_flatten]
    constructor
    · rintro ⟨ws, hws, hv⟩
      obtain ⟨piece, hpiece, hread⟩ := (mem_of_mapM hfound ws).mp hws
      cases piece with
      | text s =>
        cases hread
        cases hv
      | expression e => exact ⟨e, hpiece, ws, hread, hv⟩
    · rintro ⟨e, he, ws, hread, hv⟩
      exact ⟨ws, (mem_of_mapM hfound ws).mpr ⟨_, he, hread⟩, hv⟩

/-- Where the expressions all name paths, the variables are these paths. -/
theorem mem_pathsRead (hscan : scan template = .ok pieces)
    (hnames : ∀ e, .expression e ∈ pieces → ∃ v, Names (pipeline e).1 v) :
    ∃ vs, pathsRead template = .ok vs ∧ ∀ v, v ∈ vs ↔ Mentions pieces v := by
  have hheads : HasNoInline pieces := fun e he => by
    obtain ⟨v, hv⟩ := hnames e he
    exact (plain_of_names hv).1
  obtain ⟨vs, hread, hvs⟩ := exists_pathsRead hscan hheads
  refine ⟨vs, hread, fun v => (hvs v).trans ?_⟩
  constructor
  · rintro ⟨e, he, ws, hws, hv⟩
    obtain ⟨w, hw⟩ := hnames e he
    rw [headVariables_of_names hw] at hws
    cases hws
    cases List.mem_singleton.mp hv
    exact ⟨e, he, hw⟩
  · rintro ⟨e, he, hv⟩
    exact ⟨e, he, [v], headVariables_of_names hv, List.mem_singleton_self v⟩

/-! ## 3. Texts and paths that are related -/

theorem isSome_afterStart? (start s : String) : (afterStart? start s).isSome = beginsWith start s := by
  unfold afterStart? beginsWith
  split
  · rename_i hbegins
    rw [hbegins, Option.isSome_some]
  · rename_i hbegins
    rw [Bool.eq_false_iff.mpr hbegins, Option.isSome_none]

/-- A text that goes on after a dot stands for a longer path. -/
theorem isPrefix_of_beginsWith (hs : Path.parse path = .ok p) (ht : Path.parse key = .ok q)
    (h : beginsWith (path ++ ".") key = true) : p <+: q := by
  obtain ⟨rest, rfl⟩ := exists_rest_of_beginsWith h
  obtain ⟨r, -, rfl⟩ := (Path.parse_append_dot hs).mp ht
  exact List.prefix_append p r

/-- **Texts that are related stand for paths of which one begins with the other.** -/
theorem isPrefix_of_isRelated (hpath : Path.parse path = .ok p) (hkey : Path.parse key = .ok q)
    (h : isRelated path key = true) : q <+: p ∨ p <+: q := by
  simp only [isRelated, isSome_afterStart?, Bool.or_eq_true, decide_eq_true_eq] at h
  rcases h with (rfl | hbelow) | habove
  · rw [hpath] at hkey
    cases hkey
    exact .inl List.prefix_rfl
  · exact .inl (isPrefix_of_beginsWith hkey hpath hbelow)
  · exact .inr (isPrefix_of_beginsWith hpath hkey habove)

/-- A path goes on by a name, if at all. -/
def GoesOn (p q : Path) : Prop := p = q ∨ ∃ n rest, q = p ++ .key n :: rest

/-- **Plain spellings are related** if one path goes on as the other by a name, not by an index. -/
theorem isRelated_iff (hpath : Path.IsSpelled path p) (hkey : Path.IsSpelled key q) :
    isRelated path key = true ↔ GoesOn q p ∨ GoesOn p q := by
  have hsame : path = key ↔ p = q := by
    constructor
    · rintro rfl
      exact Except.ok.inj (hpath.parses.symm.trans hkey.parses)
    · rintro rfl
      rw [hpath.eq_format, hkey.eq_format]
  simp only [isRelated, isSome_afterStart?, Bool.or_eq_true, decide_eq_true_eq, hkey.begins_iff hpath,
    hpath.begins_iff hkey, hsame, GoesOn]
  constructor
  · rintro ((heq | hbelow) | habove)
    · exact .inr (.inl heq)
    · exact .inl (.inr hbelow)
    · exact .inr (.inr habove)
  · rintro ((heq | hbelow) | heq | habove)
    · exact .inl (.inl heq.symm)
    · exact .inl (.inr hbelow)
    · exact .inl (.inl heq)
    · exact .inr habove

/-! ## 4. What is missing -/

/-- Of the variables of the context, a key covers those that it is related to. -/
theorem isCovered_iff {v : String} (hv : (splitScope v).1 = .context) :
    isCovered (available.map qualified) v = true ↔
      ∃ k ∈ available, isRelated (qualified v) (qualified k) = true := by
  rcases hsplit : splitScope v with ⟨scope, rest⟩
  rw [hsplit] at hv
  cases hv
  have hscope : qualified v ≠ "event" ∧ beginsWith "event." (qualified v) = false := by
    by_cases hrest : rest = ""
    · rw [qualified, hsplit, hrest]
      decide +kernel
    · rw [qualified_of_splitScope hsplit hrest]
      refine ⟨fun heq => ?_, ?_⟩
      · simpa using congrArg (·.toList.head?) heq
      · rw [beginsWith, String.toList_append]
        rfl
  simp [isCovered, isSome_afterStart?, hscope]

/-- Variables of the event are covered. -/
theorem isCovered_of_event {v : String} (hv : (splitScope v).1 = .event) : isCovered available v = true := by
  rcases hsplit : splitScope v with ⟨scope, rest⟩
  rw [hsplit] at hv
  cases hv
  rw [isCovered, isSome_afterStart?, qualified, hsplit]
  dsimp only
  split
  · rfl
  · simp [beginsWith, DataScope.label]

/-- **What is missing** from a template whose expressions name paths.  A variable of the context is
reported if the path of no key begins with its path or the other way round.  As long as all spellings are
plain, what is reported beyond that are the variables whose path, or that of the key, goes on by an index:
a key covers exactly what goes on from it by a name, and what goes on by a name to it. -/
theorem missing_iff_unrelated (hscan : scan template = .ok pieces)
    (hnames : ∀ e, .expression e ∈ pieces → ∃ v, Names (pipeline e).1 v) :
    ∃ reported, missing template available = .ok reported ∧ (∀ v ∈ reported, Mentions pieces v) ∧
      (∀ v, (splitScope v).1 = .event → v ∉ reported) ∧
      ∀ v p, Mentions pieces v → (splitScope v).1 = .context → Path.parse (qualified v) = .ok p →
        ((∀ k ∈ available, ∃ q, Path.parse (qualified k) = .ok q ∧ ¬ (q <+: p ∨ p <+: q)) → v ∈ reported) ∧
        (Path.IsSpelled (qualified v) p → (∀ k ∈ available, ∃ q, Path.IsSpelled (qualified k) q) →
          (v ∈ reported ↔
            ∀ k ∈ available, ∀ q, Path.parse (qualified k) = .ok q → ¬ (GoesOn q p ∨ GoesOn p q))) := by
  obtain ⟨vs, hread, hvs⟩ := mem_pathsRead hscan hnames
  refine ⟨vs.filter (!isCovered (available.map qualified) ·), by rw [missing, hread], fun v hv => ?_,
    fun v hevent hv => ?_, fun v p hv hcontext hp => ?_⟩
  · exact (hvs v).mp (List.mem_filter.mp hv).1
  · simpa [isCovered_of_event hevent] using (List.mem_filter.mp hv).2
  · have hreported : v ∈ vs.filter (!isCovered (available.map qualified) ·) ↔
        ∀ k ∈ available, ¬ isRelated (qualified v) (qualified k) = true := by
      rw [List.mem_filter, hvs, Bool.not_eq_true', ← Bool.not_eq_true, isCovered_iff hcontext]
      simp [hv]
    rw [hreported]
    refine ⟨fun hunrelated k hk hrelated => ?_, fun hspelled hkeys => forall₂_congr fun k hk => ?_⟩
    · obtain ⟨q, hq, hapart⟩ := hunrelated k hk
      exact hapart (isPrefix_of_isRelated hp hq hrelated)
    · obtain ⟨q, hq⟩ := hkeys k hk
      rw [isRelated_iff hspelled hq]
      constructor
      · intro hapart q' hq'
        cases hq.parses.symm.trans hq'
        exact hapart
      · exact fun hapart => hapart q hq.parses

/-- A line with a variable of the user and one of an item. -/
def tagged : String := "\x7b\x7b user.name \x7d\x7d has \x7b\x7b length(items[0].tags) \x7d\x7d"

def taggedPieces : List Piece :=
  [.expression "user.name", .text " has ", .expression "length(items[0].tags)"]

theorem missing_iff_unrelated_tagged : scan tagged = .ok taggedPieces ∧
    ∃ reported, missing tagged ["user", "context.items"] = .ok reported ∧
      "user.name" ∉ reported ∧ "items[0].tags" ∈ reported := by
  have hscan : scan tagged = .ok taggedPieces := by
    obtain ⟨pieces, hpieces, heq⟩ := exists_ok_of_any (x := scan tagged)
      (f := fun pieces => decide (pieces = taggedPieces)) (by decide +kernel)
    rw [hpieces, of_decide_eq_true heq]
  have huser : Names (pipeline "user.name").1 "user.name" := ⟨by decide +kernel, .inl (by decide +kernel)⟩
  have htags : Names (pipeline "length(items[0].tags)").1 "items[0].tags" :=
    ⟨by decide +kernel, .inr ⟨"length", by decide +kernel⟩⟩
  have hnames : ∀ e, Piece.expression e ∈ taggedPieces → ∃ v, Names (pipeline e).1 v := by
    intro e he
    simp only [taggedPieces, List.mem_cons, Piece.expression.injEq, reduceCtorEq, List.not_mem_nil, or_false,
      false_or] at he
    rcases he with rfl | rfl
    · exact ⟨_, huser⟩
    · exact ⟨_, htags⟩
  obtain ⟨reported, hmissing, -, -, hreported⟩ :=
    (missing_iff_unrelated hscan hnames : ∃ reported, missing tagged ["user", "context.items"] = .ok reported ∧ _)
  have hname : Path.IsSpelled (qualified "user.name") [.key "context", .key "user", .key "name"] :=
    ⟨by decide +kernel, by decide +kernel, by decide, _, _, rfl⟩
  have hitem : Path.IsSpelled (qualified "items[0].tags")
      [.key "context", .key "items", .index 0, .key "tags"] :=
    ⟨by decide +kernel, by decide +kernel, by decide, _, _, rfl⟩
  have huserKey : Path.IsSpelled (qualified "user") [.key "context", .key "user"] :=
    ⟨by decide +kernel, by decide +kernel, by decide, _, _, rfl⟩
  have hitemsKey : Path.IsSpelled (qualified "context.items") [.key "context", .key "items"] :=
    ⟨by decide +kernel, by decide +kernel, by decide, _, _, rfl⟩
  have hkeys : ∀ k ∈ ["user", "context.items"], ∃ q, Path.IsSpelled (qualified k) q := by
    simp only [List.forall_mem_cons]
    exact ⟨⟨_, huserKey⟩, ⟨_, hitemsKey⟩, by simp⟩
  refine ⟨hscan, reported, hmissing, fun hin => ?_, ?_⟩
  · have hname' := hreported _ _ ⟨"user.name", by simp [taggedPieces], huser⟩ (by decide +kernel) hname.parses
    refine (hname'.2 hname hkeys).mp hin "user" (by simp) _ huserKey.parses (.inl (.inr ⟨"name", [], rfl⟩))
  · have hitem' := hreported _ _ ⟨"length(items[0].tags)", by simp [taggedPieces], htags⟩ (by decide +kernel)
      hitem.parses
    refine (hitem'.2 hitem hkeys).mpr ?_
    simp only [List.forall_mem_cons]
    refine ⟨fun q hq => ?_, fun q hq => ?_, by simp⟩
    · cases huserKey.parses.symm.trans hq
      simp [GoesOn]
    · cases hitemsKey.parses.symm.trans hq
      simp [GoesOn]

/-- **An item is not covered by its list**: the path of the list begins that of the item, which is reported. -/
theorem missing_item_of_list :
    missing "\x7b\x7b items[0].name \x7d\x7d" ["items"] = .ok ["items[0].name"] ∧
      Path.parse (qualified "items") = .ok [.key "context", .key "items"] ∧
      Path.parse (qualified "items[0].name") = .ok [.key "context", .key "items", .index 0, .key "name"] ∧
      [.key "context", .key "items"] <+: ([.key "context", .key "items", .index 0, .key "name"] : Path) := by
  obtain ⟨reported, hmissing, heq⟩ := exists_ok_of_any (x := missing "\x7b\x7b items[0].name \x7d\x7d" ["items"])
    (f := fun reported => decide (reported = ["items[0].name"])) (by decide +kernel)
  exact ⟨by rw [hmissing, of_decide_eq_true heq], by decide +kernel, by decide +kernel, by decide⟩

end Template

end Statechart
