/-
# Looking inside texts

Whether one text occurs in another, what stands between quotes, and where a mark divides a text.

* `occurs`, `unquote?`, `cutAt`, `afterStart?`;
* `afterStart?_eq_some_iff`, `exists_rest_of_beginsWith`: what a text begins with;
* `cutChars_append`: the two parts and the mark make up the text;
* `colon_eq_iff`: when two texts with a colon between them make up the same text as two others.
-/
namespace Statechart

/-- Whether characters occur next to each other in others. -/
def occursIn (part : List Char) : List Char → Bool
  | [] => part.isEmpty
  | c :: cs => part.isPrefixOf (c :: cs) || occursIn part cs

/-- Whether one text occurs in another. -/
def occurs (part whole : String) : Bool := occursIn part.toList whole.toList

/-- The text between quotes, if the text is quoted. -/
def unquote? (s : String) : Option String :=
  match s.toList with
  | q :: rest =>
    if (q = '\'' ∨ q = '"') ∧ rest.getLast? = some q then some (String.ofList rest.dropLast) else none
  | [] => none

/-- The part of `s` after `start`, if `s` begins with it. -/
def afterStart? (start s : String) : Option String :=
  if start.toList.isPrefixOf s.toList then some (String.ofList (s.toList.drop start.length)) else none

/-- Whether `s` begins with `start`. -/
def beginsWith (start s : String) : Bool := start.toList.isPrefixOf s.toList

theorem beginsWith_append (start rest : String) : beginsWith start (start ++ rest) = true := by
  rw [beginsWith, String.toList_append]
  exact List.isPrefixOf_iff_prefix.mpr (List.prefix_append _ _)

theorem exists_rest_of_beginsWith {start s : String} (h : beginsWith start s = true) :
    ∃ rest, s = start ++ rest := by
  obtain ⟨rest, hrest⟩ := List.isPrefixOf_iff_prefix.mp h
  refine ⟨String.ofList rest, ?_⟩
  rw [← String.toList_inj, ← hrest, String.toList_append, String.toList_ofList]

/-- What is left of a text after its start is what makes up the text with it. -/
theorem afterStart?_eq_some_iff {start s rest : String} : afterStart? start s = some rest ↔ s = start ++ rest := by
  constructor
  · intro h
    unfold afterStart? at h
    split at h
    · rename_i hbegins
      obtain ⟨rest', rfl⟩ := exists_rest_of_beginsWith hbegins
      cases h
      rw [String.toList_append, ← String.length_toList, List.drop_left, String.ofList_toList]
    · cases h
  · rintro rfl
    have hbegins : start.toList.isPrefixOf (start ++ rest).toList = true := beginsWith_append start rest
    rw [afterStart?, if_pos hbegins, String.toList_append, ← String.length_toList, List.drop_left,
      String.ofList_toList]

/-- The parts before and after the first mark; nothing after when there is no mark. -/
def cutChars (mark : Char) : List Char → List Char × Option (List Char)
  | [] => ([], none)
  | c :: cs =>
    if c = mark then ([], some cs)
    else let (before, after) := cutChars mark cs; (c :: before, after)

/-- The parts of a text before and after the first mark. -/
def cutAt (mark : Char) (s : String) : String × Option String :=
  let (before, after) := cutChars mark s.toList
  (String.ofList before, after.map String.ofList)

/-- The parts of a text between marks. -/
def splitAt (mark : Char) (s : String) : List String :=
  go [] s.toList
where
  go (done : List Char) : List Char → List String
    | [] => [String.ofList done.reverse]
    | c :: cs => if c = mark then String.ofList done.reverse :: go [] cs else go (c :: done) cs

/-- The two parts and the mark make up the text. -/
theorem cutChars_append (mark : Char) (cs : List Char) :
    (cutChars mark cs).1 ++ (match (cutChars mark cs).2 with
      | some rest => mark :: rest
      | none => []) = cs := by
  induction cs with
  | nil => rfl
  | cons c cs ih =>
    by_cases h : c = mark
    · simp [cutChars, h]
    · simp [cutChars, h, ih]

/-- A name goes on as another one and a colon, and what follows the other one begins with what it goes
on with. -/
def Overlaps (name rest other rest' : String) : Prop :=
  ∃ u, other = name ++ ":" ++ u ∧ rest = u ++ ":" ++ rest'

/-- Only where there is a colon in a name and in the rest of another text can the two overlap. -/
theorem Overlaps.colon_mem {name rest other rest' : String} (h : Overlaps name rest other rest') :
    ':' ∈ other.toList ∧ ':' ∈ rest.toList := by
  obtain ⟨u, rfl, rfl⟩ := h
  simp

theorem separated_eq_iff {mark : Char} {as bs cs ds : List Char} :
    as ++ mark :: cs = bs ++ mark :: ds ↔
      (as = bs ∧ cs = ds) ∨ (∃ us, bs = as ++ mark :: us ∧ cs = us ++ mark :: ds) ∨
        ∃ us, as = bs ++ mark :: us ∧ ds = us ++ mark :: cs := by
  constructor
  · intro h
    rcases List.append_eq_append_iff.mp h with ⟨us, hbs, hcs⟩ | ⟨us, has, hds⟩
    · cases us with
      | nil =>
        obtain rfl : bs = as := by simpa using hbs
        exact .inl ⟨rfl, by simpa using hcs⟩
      | cons u us =>
        obtain ⟨rfl, rfl⟩ : mark = u ∧ cs = us ++ mark :: ds := by simpa using hcs
        exact .inr (.inl ⟨us, hbs, rfl⟩)
    · cases us with
      | nil =>
        obtain rfl : as = bs := by simpa using has
        exact .inl ⟨rfl, by simpa using hds.symm⟩
      | cons u us =>
        obtain ⟨rfl, rfl⟩ : mark = u ∧ ds = us ++ mark :: cs := by simpa using hds
        exact .inr (.inr ⟨us, has, rfl⟩)
  · rintro (⟨rfl, rfl⟩ | ⟨us, rfl, rfl⟩ | ⟨us, rfl, rfl⟩)
    · rfl
    · simp
    · simp

/-- Two texts with a colon between them make up the same text as two others only if they are the same
or overlap: nothing else is told apart by a colon that may stand in the texts themselves. -/
theorem colon_eq_iff {name rest other rest' : String} :
    name ++ ":" ++ rest = other ++ ":" ++ rest' ↔
      (name = other ∧ rest = rest') ∨ Overlaps name rest other rest' ∨
        Overlaps other rest' name rest := by
  have hcolon : ":".toList = [':'] := rfl
  have hover : ∀ a s b t : String, Overlaps a s b t ↔
      ∃ us, b.toList = a.toList ++ ':' :: us ∧ s.toList = us ++ ':' :: t.toList := by
    intro a s b t
    constructor
    · rintro ⟨u, rfl, rfl⟩
      exact ⟨u.toList, by simp [hcolon], by simp [hcolon]⟩
    · rintro ⟨us, hb, hs⟩
      refine ⟨String.ofList us, ?_, ?_⟩
      · rw [← String.toList_inj]
        simpa [hcolon] using hb
      · rw [← String.toList_inj]
        simpa [hcolon] using hs
  rw [hover, hover, ← String.toList_inj, ← String.toList_inj, ← String.toList_inj]
  simpa [hcolon] using separated_eq_iff

end Statechart
