/-
# Places where nothing is

A place that nothing is stored at stays empty as long as all writes go elsewhere.  What "elsewhere" means
depends on what lies on the way: the items of a list move when one of them is removed, a negative
index counts from an end that moves when the list grows, and a key may stand for an index.  None of this
happens where a write goes along the names of a path and then leaves it by another name, so such
writes are looked at here, and values in which no list lies on the way where it could be read from:

* `Path.Forks`: a path that leaves another one by a name;
* `Value.Lacks`: nothing is at a path, and no list on the way to it;
* **`lacks_put`**, `lacks_remove`: that stays so whatever is written or removed at paths that leave it;
* `Path.parse_names`: names with dots between them, the plain spelling of a path;
* **`forks_of_not_provided`**: among plain spellings, a text that is not said to be provided is a path
  that those of the others leave.
-/
import Statechart.Compile.Analysis
import Statechart.Proofs.Frame

namespace Statechart

/-! ## 1. Paths that leave a path -/

/-- A path leaves another one: it goes along its names, and then on by another name, or by an index where
the other one has a name that denotes no position. -/
def Path.Forks : Path → Path → Prop
  | .key a :: q, s :: p => a ≠ s.name ∨ Forks q p
  | .index i :: _, s :: _ => toString i ≠ s.name ∧ s.position? = none
  | _, _ => False

namespace Value

/-- Nothing is at a path, and no list lies on the way that it could lead into. -/
def Lacks : Value → Path → Prop
  | v, [] => v = null
  | dict es, s :: p => Lacks ((Entries.lookup s.name es).getD null) p
  | list _, s :: _ => s.position? = none
  | _, _ :: _ => True

theorem lacks_null (p : Path) : null.Lacks p := by
  cases p with
  | nil => rfl
  | cons => trivial

/-- Then nothing is read at the path. -/
theorem Lacks.atD {d : Value} {p : Path} (h : d.Lacks p) : d.atD p = .null := by
  induction p generalizing d with
  | nil => exact h
  | cons s p ih =>
    rw [atD_cons]
    cases d with
    | dict es => exact ih h
    | list vs =>
      have hnone : (list vs).stepD s = .null := stepD_list_of_none h vs
      rw [hnone, atD_null]
    | _ => exact atD_null p

/-- What is under a name lacks the rest of the path. -/
theorem Lacks.getD {d : Value} {s : Segment} {p : Path} (h : d.Lacks (s :: p)) :
    (d.getD s.name).Lacks p := by
  cases d with
  | dict es => exact h
  | _ => exact lacks_null p

/-! ## 2. Writing and removing elsewhere -/

section Elsewhere

variable {d d' v : Value} {p q : Path}

theorem lacks_insert {s : Segment} {a : String} {w : Value} (hd : d.Lacks (s :: p))
    (hw : a = s.name → w.Lacks p) : (dict (Entries.insert a w d.entries)).Lacks (s :: p) := by
  by_cases ha : a = s.name
  · subst ha
    rw [Lacks, Entries.lookup_insert_self]
    exact hw rfl
  · rw [Lacks, Entries.lookup_insert_ne w d.entries (Ne.symm ha)]
    exact hd.getD

/-- A write by an index makes an item of a list, or an entry under the numeral. -/
theorem put?_index {i : Int} (h : d.put? (.index i :: q) v = some d') :
    (∃ vs, d' = list vs) ∨ ∃ w, d' = dict (Entries.insert (toString i) w d.entries) := by
  have hlist : ∀ vs, intoItem? vs i (·.put? q v) = some d' → ∃ vs, d' = list vs := by
    intro vs h
    obtain ⟨k, -, h⟩ := Option.bind_eq_some_iff.mp h
    obtain ⟨w, -, h⟩ := Option.bind_eq_some_iff.mp h
    exact ⟨_, (Option.some.inj h).symm⟩
  have hdict : ∀ w?, (do return dict (Entries.insert (toString i) (← w?) d.entries) : Option Value) =
      some d' → ∃ w, d' = dict (Entries.insert (toString i) w d.entries) := by
    intro w? h
    obtain ⟨w, -, h⟩ := Option.bind_eq_some_iff.mp h
    exact ⟨w, (Option.some.inj h).symm⟩
  unfold put? at h
  cases d with
  | list vs => exact Or.inl (hlist _ h)
  | null => exact Or.inl (hlist _ h)
  | _ => exact Or.inr (hdict _ h)

/-- **What is lacking stays lacking** when something is written elsewhere. -/
theorem lacks_put (h : q.Forks p) (hd : d.Lacks p) (hput : d.put? q v = some d') : d'.Lacks p := by
  induction q generalizing d d' p with
  | nil => cases h
  | cons t q ih =>
    cases p with
    | nil => cases t <;> cases h
    | cons s p =>
      cases t with
      | index i =>
        obtain ⟨hname, hposition⟩ := h
        rcases put?_index hput with ⟨vs, rfl⟩ | ⟨w, rfl⟩
        · exact hposition
        · exact lacks_insert hd fun heq => absurd heq hname
      | key a =>
        rw [put?] at hput
        obtain ⟨w, hw, hput⟩ := Option.bind_eq_some_iff.mp hput
        cases hput
        refine lacks_insert hd fun heq => ?_
        subst heq
        exact ih (h.resolve_left fun hne => hne rfl) hd.getD hw

/-- And it does when something is removed elsewhere. -/
theorem lacks_without (h : q.Forks p) (hd : d.Lacks p) : (d.without q).Lacks p := by
  induction q generalizing d p with
  | nil => cases h
  | cons t q ih =>
    cases p with
    | nil => cases t <;> cases h
    | cons s p =>
      have hrest : t.name = s.name → Path.Forks q p := by
        intro heq
        cases t with
        | key a => exact h.resolve_left fun hne => hne heq
        | index i => exact absurd heq h.1
      cases d with
      | dict es =>
        cases q with
        | nil =>
          have hne : s.name ≠ t.name := fun heq => (hrest heq.symm).elim
          rw [without, Lacks, Entries.lookup_erase_ne es hne]
          exact hd
        | cons u q =>
          rw [without]
          cases hlookup : Entries.lookup t.name es with
          | none => exact hd
          | some w =>
            refine lacks_insert (d := dict es) hd fun heq => ih (hrest heq) ?_
            have hw := hd.getD
            rw [← heq] at hw
            simpa [getD, get?, entries, hlookup] using hw
      | list vs =>
        cases q <;> rw [without] <;> split <;> exact hd
      | _ => cases q <;> exact trivial

theorem lacks_remove (h : q.Forks p) (hd : d.Lacks p) : (d.remove q).Lacks p := by
  unfold remove
  split
  · exact lacks_without h hd
  · exact hd

end Elsewhere

end Value

/-! ## 3. Plain spellings -/

namespace Path

/-- A name that is a segment as it stands. -/
def IsName (s : String) : Prop := s ≠ "" ∧ '.' ∉ s.toList ∧ '[' ∉ s.toList

instance (s : String) : Decidable (IsName s) := inferInstanceAs (Decidable (_ ∧ _))

/-- Names, one at least. -/
def AreNames (ns : List String) : Prop := ns ≠ [] ∧ ∀ n ∈ ns, IsName n

instance (ns : List String) : Decidable (AreNames ns) := inferInstanceAs (Decidable (_ ∧ _))

/-- The characters of a name are pending until a dot or the end. -/
theorem parseFrom_name {cs : List Char} (h : ∀ c ∈ cs, c ≠ '.' ∧ c ≠ '[') (pos : Nat)
    (pending rest : List Char) :
    parseFrom pos (.plain pending) (cs ++ rest) =
      parseFrom (pos + cs.length) (.plain (cs.reverse ++ pending)) rest := by
  induction cs generalizing pos pending with
  | nil => rfl
  | cons c cs ih =>
    obtain ⟨hdot, hbracket⟩ := h c (by simp)
    rw [List.cons_append, parseFrom, if_neg hdot, if_neg hbracket,
      ih (fun d hd => h d (by simp [hd]))]
    simp [Nat.add_assoc, Nat.add_comm 1]

theorem flush_name {n : String} (h : n ≠ "") : flush (n.toList.reverse ++ []) = [.key n] := by
  have hne : n.toList ≠ [] := by simpa using h
  simp [flush, hne]

/-- **A plain spelling stands for its names.** -/
theorem parse_names {ns : List String} (h : AreNames ns) :
    parse (".".intercalate ns) = .ok (ns.map .key) := by
  suffices hall : ∀ ns, ns ≠ [] → (∀ n ∈ ns, IsName n) → ∀ pos,
      parseFrom pos (.plain []) (".".intercalate ns).toList = .ok (ns.map .key) from hall ns h.1 h.2 0
  intro ns
  induction ns with
  | nil => exact fun hne => absurd rfl hne
  | cons n ns ih =>
    intro _ hnames pos
    obtain ⟨hn, hdot, hbracket⟩ := hnames n (by simp)
    have hchars : ∀ c ∈ n.toList, c ≠ '.' ∧ c ≠ '[' := fun c hc =>
      ⟨fun heq => hdot (heq ▸ hc), fun heq => hbracket (heq ▸ hc)⟩
    cases ns with
    | nil =>
      have hlast := parseFrom_name hchars pos [] []
      rw [List.append_nil] at hlast
      rw [String.intercalate_singleton, hlast, parseFrom, flush_name hn]
      rfl
    | cons m ns =>
      have htext : (".".intercalate (n :: m :: ns)).toList = n.toList ++ '.' :: (".".intercalate (m :: ns)).toList := by
        rw [String.intercalate_cons_cons]
        simp
      rw [htext, parseFrom_name hchars, parseFrom, if_pos rfl, flush_name hn,
        ih (by simp) fun k hk => hnames k (by simp [hk])]
      rfl

/-- One of two lists of names begins with the other one, or the paths part. -/
theorem forks_or_prefix (ms ns : List String) :
    Forks (ms.map .key) (ns.map .key) ∨ ms <+: ns ∨ ns <+: ms := by
  induction ms generalizing ns with
  | nil => exact .inr (.inl List.nil_prefix)
  | cons m ms ih =>
    cases ns with
    | nil => exact .inr (.inr List.nil_prefix)
    | cons n ns =>
      by_cases hne : m = n
      · subst hne
        refine (ih ns).imp .inr (Or.imp ?_ ?_) <;>
          exact fun h => List.prefix_cons_inj m |>.mpr h
      · exact .inl (.inl hne)

end Path

/-- **Among plain spellings, what is not said to be provided is left by all that is.** -/
theorem forks_of_not_provided {provided : List String} {ms ns : List String} (hms : ms ≠ [])
    (hns : ns ≠ []) (hmem : "context." ++ ".".intercalate ms ∈ provided)
    (h : Analysis.isProvided provided ("context." ++ ".".intercalate ns) = false) :
    Path.Forks (ms.map .key) (ns.map .key) := by
  have hnone := List.any_eq_false.mp h _ hmem
  simp only [Bool.or_eq_true, decide_eq_true_eq, not_or] at hnone
  obtain ⟨⟨⟨hne, hbelow⟩, -⟩, habove⟩ := hnone
  rcases Path.forks_or_prefix ms ns with hforks | ⟨more, rfl⟩ | ⟨more, rfl⟩
  · exact hforks
  · by_cases hmore : more = []
    · exact absurd (by rw [hmore, List.append_nil]) hne
    · refine absurd ?_ hbelow
      rw [String.intercalate_append_of_ne_nil hms hmore, ← String.append_assoc, ← String.append_assoc]
      exact beginsWith_append _ _
  · by_cases hmore : more = []
    · exact absurd (by rw [hmore, List.append_nil]) hne
    · refine absurd ?_ habove
      rw [String.intercalate_append_of_ne_nil hns hmore, ← String.append_assoc, ← String.append_assoc]
      exact beginsWith_append _ _

end Statechart
