/-
# How the text of a path is put together

The scope in front of a path ends at a dot, and the path goes on behind it.  Where no segment is quoted, every
segment has a spelling of its own, and how a text goes on says how the path goes on.

* `Path.parse_inside`, `Path.parse_qualified`: paths without and with their scope;
* `Path.IsSpelled`: a text is the plain spelling of a path;
* **`Path.IsSpelled.begins_iff`**: one plain spelling goes on, after a dot, as another one exactly if the
  other path goes on by a name.
-/
import Statechart.Proofs.Canonical
import Statechart.Proofs.Lacking
import Statechart.Proofs.Target

namespace Statechart

namespace Path

variable {s t rest : String} {p q : Path}

/-! ## 1. Scopes -/

/-- A text with a scope is that scope, or begins with it, or belongs to the context without a scope. -/
theorem eq_of_splitScope {scope : DataScope} (h : splitScope s = (scope, rest)) :
    s = scope.label ∧ rest = "" ∨ s = scope.label ++ "." ++ rest ∨ scope = .context ∧ s = rest := by
  unfold splitScope at h
  split at h
  · cases h
    exact .inl ⟨by assumption, rfl⟩
  · split at h
    · cases h
      exact .inr (.inl (afterStart?_eq_some_iff.mp (by assumption)))
    · split at h
      · cases h
        exact .inl ⟨by assumption, rfl⟩
      · split at h
        · cases h
          exact .inr (.inl (afterStart?_eq_some_iff.mp (by assumption)))
        · cases h
          exact .inr (.inr ⟨rfl, rfl⟩)

/-- The rest of a path after its scope is a path. -/
theorem parse_inside {scope : DataScope} (hsplit : splitScope s = (scope, rest)) (h : parse s = .ok p) :
    ∃ q, parse rest = .ok q ∧ (p = q ∨ p = .key scope.label :: q) := by
  rcases eq_of_splitScope hsplit with ⟨rfl, rfl⟩ | rfl | ⟨-, rfl⟩
  · refine ⟨[], rfl, .inr ?_⟩
    rw [parse_label] at h
    cases h
    rfl
  · obtain ⟨q, hq, rfl⟩ := (parse_scoped scope).mp h
    exact ⟨q, hq, .inr rfl⟩
  · exact ⟨p, h, .inl rfl⟩

/-- A path that is written with its scope begins with the name of the scope. -/
theorem parse_qualified {scope : DataScope} (hsplit : splitScope s = (scope, rest)) :
    parse (qualified s) = .ok p ↔ ∃ q, parse rest = .ok q ∧ p = .key scope.label :: q := by
  rw [qualified, hsplit]
  dsimp only
  split
  · rename_i hempty
    have hrest : rest = "" := by simpa using hempty
    rw [hrest, parse_label, parse_empty]
    simp [eq_comm]
  · exact parse_scoped scope

end Path

/-! ## 2. Plain spellings -/

namespace Segment

/-- How a segment that is not quoted is spelled, with the mark that ends the one before it. -/
def spelling : Segment → List Char
  | .key n => '.' :: n.toList
  | .index i => '[' :: ((toString i).toList ++ [']'])

/-- A segment that needs no quotes. -/
def IsBare : Segment → Prop
  | .key n => Path.IsName n
  | .index _ => True

instance : DecidablePred IsBare
  | .key n => inferInstanceAs (Decidable (Path.IsName n))
  | .index _ => inferInstanceAs (Decidable True)

end Segment

namespace Path

variable {s t : Segment} {u w : List Char} {p q : Path}

/-- Characters at which a segment ends. -/
def EndsBefore (cs : List Char) : Prop := cs = [] ∨ ∃ c rest, cs = c :: rest ∧ (c = '.' ∨ c = '[')

theorem endsBefore_append (p : Path) (hu : EndsBefore u) : EndsBefore (p.flatMap Segment.spelling ++ u) := by
  cases p with
  | nil => exact hu
  | cons s p =>
    cases s with
    | key n => simp [EndsBefore, Segment.spelling]
    | index i => simp [EndsBefore, Segment.spelling]

/-- A spelling is known from what it is the beginning of, if a segment ends there. -/
theorem spelling_inj (hs : s.IsBare) (ht : t.IsBare) (hu : EndsBefore u) (hw : EndsBefore w)
    (h : s.spelling ++ u = t.spelling ++ w) : s = t ∧ u = w := by
  cases s with
  | key n =>
    cases t with
    | index i => simp [Segment.spelling] at h
    | key m =>
      have hname {n : String} (hn : IsName n) : ∀ c ∈ n.toList, (c == '.' || c == '[') = false := fun c hc => by
        have hdot : c ≠ '.' := fun heq => hn.2.1 (heq ▸ hc)
        have hbracket : c ≠ '[' := fun heq => hn.2.2 (heq ▸ hc)
        simp [hdot, hbracket]
      obtain ⟨heq, hrest⟩ := Numeral.cut_inj (hname hs) (hname ht) (by simpa [EndsBefore] using hu)
        (by simpa [EndsBefore] using hw) (List.cons.inj h).2
      exact ⟨congrArg Segment.key (String.toList_inj.mp heq), hrest⟩
  | index i =>
    cases t with
    | key m => simp [Segment.spelling] at h
    | index j =>
      have hdigits (i : Int) : ∀ c ∈ (toString i).toList, (c == ']') = false := fun c hc => by
        rcases (Json.chars_int i).2 c hc with hdigit | rfl
        · exact beq_eq_false_iff_ne.mpr fun heq => by
            rw [heq] at hdigit
            cases hdigit
        · rfl
      simp only [Segment.spelling, List.cons_append, List.append_assoc, List.cons.injEq, true_and,
        List.nil_append] at h
      obtain ⟨heq, hrest⟩ := Numeral.cut_inj (hdigits i) (hdigits j) (.inr ⟨_, _, rfl, rfl⟩)
        (.inr ⟨_, _, rfl, rfl⟩) h
      exact ⟨congrArg Segment.index (Int.repr_injective (String.toList_inj.mp heq)), (List.cons.inj hrest).2⟩

/-- **How a plain spelling goes on says how the path goes on.** -/
theorem exists_rest_of_spellings (hp : ∀ s ∈ p, s.IsBare) (hq : ∀ s ∈ q, s.IsBare) (hu : EndsBefore u)
    (h : q.flatMap Segment.spelling = p.flatMap Segment.spelling ++ u) :
    ∃ r, q = p ++ r ∧ r.flatMap Segment.spelling = u := by
  induction p generalizing q with
  | nil => exact ⟨q, rfl, h⟩
  | cons s p ih =>
    obtain ⟨hs, hp'⟩ := List.forall_mem_cons.mp hp
    cases q with
    | nil => cases s <;> simp [Segment.spelling] at h
    | cons t q =>
      obtain ⟨ht, hq'⟩ := List.forall_mem_cons.mp hq
      have hend : EndsBefore (q.flatMap Segment.spelling) := by
        simpa using endsBefore_append q (.inl rfl)
      rw [List.flatMap_cons, List.flatMap_cons, List.append_assoc] at h
      obtain ⟨rfl, hrest⟩ := spelling_inj ht hs hend (endsBefore_append p hu) h
      obtain ⟨r, rfl, hr⟩ := ih hp' hq' hrest
      exact ⟨r, rfl, hr⟩

/-- A text is the plain spelling of a path: no segment is in quotes, and the first is a name. -/
structure IsSpelled (s : String) (p : Path) : Prop where
  parses : parse s = .ok p
  eq_format : s = format p
  bare : ∀ t ∈ p, t.IsBare
  starts : ∃ n rest, p = .key n :: rest

theorem toList_formatFrom {done : String} (h : done ≠ "") (p : Path) :
    (formatFrom done p).toList = done.toList ++ p.flatMap Segment.spelling := by
  induction p generalizing done with
  | nil => simp [formatFrom]
  | cons s p ih =>
    cases s with
    | key n =>
      have hdone : done.isEmpty = false := by simpa using h
      rw [formatFrom, hdone, if_neg Bool.false_ne_true, ih (by simp)]
      simp [Segment.spelling]
    | index i =>
      rw [formatFrom, ih (by simp)]
      simp [Segment.spelling]

/-- What is written for a path that begins with a name is its spelling without the dot in front. -/
theorem spellings_eq_of_key {n : String} (hn : n ≠ "") (p : Path) :
    (.key n :: p : Path).flatMap Segment.spelling = '.' :: (format (.key n :: p)).toList := by
  rw [format, formatFrom, if_pos (by simp), toList_formatFrom hn]
  simp [Segment.spelling]

theorem IsSpelled.spellings {s : String} (h : IsSpelled s p) : p.flatMap Segment.spelling = '.' :: s.toList := by
  obtain ⟨n, rest, rfl⟩ := h.starts
  rw [h.eq_format]
  exact spellings_eq_of_key (h.bare (.key n) (by simp)).1 rest

/-- **A plain spelling goes on after a dot** as another one exactly if the path goes on by a name. -/
theorem IsSpelled.begins_iff {s t : String} (hs : IsSpelled s p) (ht : IsSpelled t q) :
    beginsWith (s ++ ".") t = true ↔ ∃ n rest, q = p ++ .key n :: rest := by
  rw [beginsWith, List.isPrefixOf_iff_prefix]
  constructor
  · rintro ⟨us, hus⟩
    have hspelled : q.flatMap Segment.spelling = p.flatMap Segment.spelling ++ '.' :: us := by
      rw [hs.spellings, ht.spellings, ← hus]
      simp
    obtain ⟨r, rfl, hr⟩ := exists_rest_of_spellings hs.bare ht.bare (by simp [EndsBefore]) hspelled
    cases r with
    | nil => simp at hr
    | cons seg r =>
      cases seg with
      | key n => exact ⟨n, r, rfl⟩
      | index i => simp [Segment.spelling] at hr
  · rintro ⟨n, rest, rfl⟩
    have hspelled := ht.spellings
    rw [List.flatMap_append, hs.spellings, List.flatMap_cons, List.cons_append] at hspelled
    exact ⟨_, by simpa [Segment.spelling] using (List.cons.inj hspelled).2⟩

end Path

end Statechart
