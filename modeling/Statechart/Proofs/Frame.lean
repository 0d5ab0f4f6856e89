/-
# What a write leaves alone and what it leaves behind

A read and a write decide by themselves how a segment of a path addresses a container.  They differ in
one place: a read takes a key on a list for an index when the key denotes one, a write makes a mapping
of the list, and its items are gone.  Everywhere else a write changes what is stored at its path and no
more: all places apart from it read the same, and what is read can be written back.

A write is an induction over its path.  At each segment it goes on with what the segment leads to (the
slot) and puts the result back (a refill), so what is to be shown is said of a slot and its refill once:

* `Value.slot`, `Value.refill`, `put?_eq`: a write as slots that are refilled;
* `stepD_refill_of_meets`, `stepD_refill_of_not_meets`: what a step reads after a refill;
* `Path.Apart`, `Value.KeyOnList`: paths that part, and the place where items are lost;
* **`frame_of_put`**: what a write leaves alone;
* **`read_back_of_put`**: what is written is read back, and the last of two writes stands.
-/
import Statechart.Path.Access

namespace Statechart

/-! ## 1. Reading null where nothing is -/

namespace Value

/-- One step into a value, null when it leads nowhere. -/
def stepD (v : Value) (s : Segment) : Value := (v.step? s).getD .null

/-- The value at a path, null when nothing is there. -/
def atD (v : Value) (p : Path) : Value := (v.at? p).getD .null

@[simp] theorem atD_nil (v : Value) : v.atD [] = v := rfl

@[simp] theorem atD_null (p : Path) : null.atD p = .null := by
  cases p <;> rfl

@[simp] theorem atD_cons (v : Value) (s : Segment) (p : Path) : v.atD (s :: p) = (v.stepD s).atD p := by
  rw [atD, at?_cons, stepD]
  cases v.step? s with
  | none => exact (atD_null p).symm
  | some w => rfl

end Value

/-! ## 2. Paths -/

/-- An index that is written to is not negative. -/
def Segment.WritesForward (s : Segment) : Prop := ∀ i, s = .index i → 0 ≤ i

/-- What is read in a list is not found from the end, also where a key stands for an index. -/
def Segment.ReadsForward (s : Segment) : Prop := ∀ i, s.position? = some i → 0 ≤ i

/-- No index of a path is negative. -/
def Path.WritesForward (p : Path) : Prop := ∀ s ∈ p, s.WritesForward

/-- Nothing that a path may find in a list is found from the end. -/
def Path.ReadsForward (p : Path) : Prop := ∀ s ∈ p, s.ReadsForward

instance (s : Segment) : Decidable s.ReadsForward :=
  decidable_of_iff (∀ i ∈ s.position?, 0 ≤ i) Iff.rfl

instance (p : Path) : Decidable p.ReadsForward :=
  inferInstanceAs (Decidable (∀ s ∈ p, s.ReadsForward))

/-- Segments that address two entries of a mapping, and two items of a list where the first is an index;
a key that denotes a position counts as that index. -/
def Segment.Differs (s t : Segment) : Prop :=
  s.name ≠ t.name ∧ ∀ i, s = .index i → t.position? ≠ some i

/-- Paths that differ at a position which both have. -/
def Path.Apart (p q : Path) : Prop :=
  ∃ (n : Nat) (s t : Segment), p[n]? = some s ∧ q[n]? = some t ∧ s.Differs t

theorem Path.apart_cons {s t : Segment} {p q : Path} :
    Apart (s :: p) (t :: q) ↔ s.Differs t ∨ Apart p q := by
  constructor
  · rintro ⟨n, a, b, ha, hb, hab⟩
    cases n with
    | zero =>
      obtain rfl := Option.some.inj ha
      obtain rfl := Option.some.inj hb
      exact .inl hab
    | succ n => exact .inr ⟨n, a, b, ha, hb, hab⟩
  · rintro (h | ⟨n, a, b, ha, hb, hab⟩)
    · exact ⟨0, s, t, rfl, rfl, h⟩
    · exact ⟨n + 1, a, b, ha, hb, hab⟩

/-! ## 3. Slots -/

namespace Value

/-- The list that an index is written into, which null is taken for as well, and the index. -/
def indexed? : Value → Segment → Option (List Value × Int)
  | list vs, .index i => some (vs, i)
  | null, .index i => some ([], i)
  | _, _ => none

/-- The value that a write goes on with below a segment. -/
def slot (d : Value) (s : Segment) : Value :=
  match d.indexed? s with
  | some (vs, i) => vs[i.toNat]?.getD .null
  | none => d.getD s.name

/-- The container after the value below a segment has been renewed. -/
def refill (d : Value) (s : Segment) (x : Value) : Value :=
  match d.indexed? s with
  | some (vs, i) => .list ((padded vs i).set i.toNat x)
  | none => .dict (Entries.insert s.name x d.entries)

/-- A copy with a value stored at a path. -/
def written (d : Value) : Path → Value → Value
  | [], v => v
  | s :: p, v => d.refill s ((d.slot s).written p v)

/-- A key on a list, the place where a write makes a mapping of it. -/
def Clashes (d : Value) (s : Segment) : Prop := ∃ a vs, s = .key a ∧ d = .list vs

theorem indexed?_eq_some {d : Value} {s : Segment} {vs : List Value} {i : Int}
    (h : d.indexed? s = some (vs, i)) : s = .index i ∧ (d = .list vs ∨ d = .null ∧ vs = []) := by
  cases s with
  | key a => cases d <;> cases h
  | index j =>
    cases d with
    | list ws => cases h; exact ⟨rfl, .inl rfl⟩
    | null => cases h; exact ⟨rfl, .inr ⟨rfl, rfl⟩⟩
    | _ => cases h

theorem clashes_of_indexed?_eq_none {d : Value} {s : Segment} (h : d.indexed? s = none)
    {vs : List Value} (hd : d = .list vs) : d.Clashes s := by
  subst hd
  cases s with
  | key a => exact ⟨a, vs, rfl, rfl⟩
  | index i => cases h

/-- Where no index is written, a write goes on below a name. -/
theorem slot_of_none {d : Value} {s : Segment} (h : d.indexed? s = none) :
    d.slot s = d.getD s.name := by
  rw [slot, h]

theorem refill_of_none {d : Value} {s : Segment} (h : d.indexed? s = none) (x : Value) :
    d.refill s x = .dict (Entries.insert s.name x d.entries) := by
  rw [refill, h]

/-- A write into null is one into an empty list. -/
theorem slot_of_some {d : Value} {s : Segment} {vs : List Value} {i : Int}
    (h : d.indexed? s = some (vs, i)) : d.slot s = vs[i.toNat]?.getD .null := by
  rw [slot, h]

theorem refill_of_some {d : Value} {s : Segment} {vs : List Value} {i : Int}
    (h : d.indexed? s = some (vs, i)) (x : Value) :
    d.refill s x = .list ((padded vs i).set i.toNat x) := by
  rw [refill, h]

/-! ## 4. A write as refills -/

theorem length_padded (vs : List Value) {i : Int} (h : 0 ≤ i) :
    (padded vs i).length = max vs.length (i.toNat + 1) := by
  simp only [padded, List.length_append, List.length_replicate]
  omega

theorem offset?_padded (vs : List Value) {i : Int} (h : 0 ≤ i) :
    offset? (padded vs i).length i = some i.toNat := by
  rw [offset?, if_pos h, if_pos (by rw [length_padded vs h]; omega)]

/-- Padding leaves a list alone that has the position. -/
theorem padded_of_lt {vs : List Value} {i : Int} (h : i.toNat < vs.length) : padded vs i = vs := by
  rw [padded, Nat.sub_eq_zero_of_le (by omega), List.replicate_zero, List.append_nil]

/-- Padding shows no difference to a read that takes null for what is not there. -/
theorem getElem?_padded_getD (vs : List Value) (i : Int) (k : Nat) :
    (padded vs i)[k]?.getD .null = vs[k]?.getD .null := by
  rw [padded, List.getElem?_append]
  split
  · rfl
  · rename_i h
    rw [List.getElem?_eq_none (by omega : vs.length ≤ k), List.getElem?_replicate]
    split <;> rfl

theorem intoItem?_padded (vs : List Value) {i : Int} (h : 0 ≤ i) (store : Value → Option Value) :
    intoItem? (padded vs i) i store =
      (store (vs[i.toNat]?.getD .null)).map fun x => .list ((padded vs i).set i.toNat x) := by
  rw [intoItem?, offset?_padded vs h, Option.map_eq_bind, ← getElem?_padded_getD vs i i.toNat]
  rfl

theorem put?_cons (d : Value) {s : Segment} (hs : s.WritesForward) (p : Path) (v : Value) :
    d.put? (s :: p) v = ((d.slot s).put? p v).map (d.refill s) := by
  cases s with
  | key a =>
    have hnone : d.indexed? (.key a) = none := by cases d <;> rfl
    rw [slot_of_none hnone, funext (refill_of_none hnone), put?, Option.map_eq_bind]
    rfl
  | index i =>
    have hi : 0 ≤ i := hs i rfl
    cases d with
    | list vs =>
      rw [put?]
      exact intoItem?_padded vs hi _
    | null =>
      have hvs : List.replicate (i + 1).toNat null = padded [] i := by simp [padded]
      rw [put?, hvs]
      exact intoItem?_padded [] hi _
    | _ =>
      rw [put?, Option.map_eq_bind]
      · rfl
      all_goals nofun

/-- A write whose indices are not negative succeeds. -/
theorem put?_eq {p : Path} (hp : p.WritesForward) (d v : Value) :
    d.put? p v = some (d.written p v) := by
  induction p generalizing d with
  | nil => rw [put?_nil, written]
  | cons s p ih =>
    obtain ⟨hs, hp⟩ := List.forall_mem_cons.mp hp
    rw [put?_cons d hs, ih hp, Option.map_some, written]

/-! ## 5. Steps after a refill -/

/-- A segment leads to what is written below another. -/
def Meets (d : Value) (s t : Segment) : Prop :=
  match d.indexed? s with
  | some (_, i) => t.position? = some i
  | none => t.name = s.name

theorem stepD_of_ne_list {d : Value} (h : ∀ vs, d ≠ .list vs) (t : Segment) :
    d.stepD t = d.getD t.name := by
  cases d with
  | list vs => exact absurd rfl (h vs)
  | _ => rfl

theorem step?_list {t : Segment} {j : Int} (ht : t.position? = some j) (hj : 0 ≤ j) (vs : List Value) :
    (list vs).step? t = vs[j.toNat]? := by
  have hstep : (list vs).step? t = (offset? vs.length j).bind (vs[·]?) := by simp [step?, ht]
  rw [hstep, offset?, if_pos hj]
  split
  · rfl
  · rw [List.getElem?_eq_none (by omega)]
    rfl

theorem stepD_list {t : Segment} {j : Int} (ht : t.position? = some j) (hj : 0 ≤ j) (vs : List Value) :
    (list vs).stepD t = vs[j.toNat]?.getD .null := by
  rw [stepD, step?_list ht hj]

theorem stepD_list_of_none {t : Segment} (ht : t.position? = none) (vs : List Value) :
    (list vs).stepD t = .null := by
  simp [stepD, step?, ht]

theorem stepD_dict (es : Entries) (t : Segment) :
    (dict es).stepD t = (Entries.lookup t.name es).getD .null := rfl

variable {d : Value} {s t : Segment}

theorem stepD_of_some {vs : List Value} {i : Int} (h : d.indexed? s = some (vs, i)) (t : Segment) :
    d.stepD t = (list vs).stepD t := by
  obtain ⟨-, rfl | ⟨rfl, rfl⟩⟩ := indexed?_eq_some h
  · rfl
  · simp [stepD, step?]

/-- A step to what is written below a segment leads to its slot. -/
theorem stepD_of_meets (hs : s.WritesForward) (hc : ¬ d.Clashes s) (h : d.Meets s t) :
    d.stepD t = d.slot s := by
  unfold Meets at h
  split at h
  · rename_i vs i hd
    rw [stepD_of_some hd, slot_of_some hd, stepD_list h (hs i (indexed?_eq_some hd).1)]
  · rename_i hd
    rw [stepD_of_ne_list fun vs hvs => hc (clashes_of_indexed?_eq_none hd hvs), slot_of_none hd, h]

/-- A step to what is written below a segment finds it. -/
theorem step?_refill_of_meets (hs : s.WritesForward) (h : d.Meets s t) (x : Value) :
    (d.refill s x).step? t = some x := by
  unfold Meets at h
  split at h
  · rename_i vs i hd
    have hi : 0 ≤ i := hs i (indexed?_eq_some hd).1
    have hlt : i.toNat < (padded vs i).length := by
      rw [length_padded vs hi]
      omega
    rw [refill_of_some hd, step?_list h hi, List.getElem?_set_self hlt]
  · rename_i hd
    rw [refill_of_none hd, step?, h, Entries.lookup_insert_self]

theorem stepD_refill_of_meets (hs : s.WritesForward) (h : d.Meets s t) (x : Value) :
    (d.refill s x).stepD t = x := by
  rw [stepD, step?_refill_of_meets hs h, Option.getD_some]

/-- **A refill shows nowhere but below its segment**, if no list has to give way to it. -/
theorem stepD_refill_of_not_meets (hs : s.WritesForward) (ht : t.ReadsForward) (hc : ¬ d.Clashes s)
    (h : ¬ d.Meets s t) (x : Value) : (d.refill s x).stepD t = d.stepD t := by
  unfold Meets at h
  split at h
  · rename_i vs i hd
    rw [refill_of_some hd, stepD_of_some hd]
    have hi : 0 ≤ i := hs i (indexed?_eq_some hd).1
    cases hj : t.position? with
    | none => rw [stepD_list_of_none hj, stepD_list_of_none hj]
    | some j =>
      have hj0 : 0 ≤ j := ht j hj
      have hne : i.toNat ≠ j.toNat := fun heq => h (by rw [hj]; congr 1; omega)
      rw [stepD_list hj hj0, stepD_list hj hj0, List.getElem?_set_ne hne, getElem?_padded_getD]
  · rename_i hd
    have hne : ∀ vs, d ≠ .list vs := fun vs hvs => hc (clashes_of_indexed?_eq_none hd hvs)
    rw [refill_of_none hd, stepD_dict, Entries.lookup_insert_ne x d.entries h, stepD_of_ne_list hne]
    rfl

/-- Nothing of a list that has to give way is written into. -/
theorem slot_of_clashes (h : d.Clashes s) : d.slot s = .null := by
  obtain ⟨a, vs, rfl, rfl⟩ := h
  rfl

/-- Nothing of a list that has to give way is left to be read. -/
theorem stepD_refill_of_clashes (hc : d.Clashes s) (h : ¬ d.Meets s t) (x : Value) :
    (d.refill s x).stepD t = .null := by
  obtain ⟨a, vs, rfl, rfl⟩ := hc
  change (dict (Entries.insert (Segment.key a).name x [])).stepD t = _
  rw [stepD_dict, Entries.lookup_insert_ne x [] h]
  rfl

theorem not_differs_of_meets (h : d.Meets s t) : ¬ s.Differs t := by
  rintro ⟨hname, hindex⟩
  unfold Meets at h
  split at h
  · rename_i vs i hd
    exact hindex i (indexed?_eq_some hd).1 h
  · exact hname h.symm

theorem meets_self (d : Value) (s : Segment) : d.Meets s s := by
  unfold Meets
  split
  · rename_i vs i hd
    rw [(indexed?_eq_some hd).1]
    rfl
  · rfl

theorem slot_eq_stepD (hs : s.WritesForward) (hc : ¬ d.Clashes s) : d.slot s = d.stepD s :=
  (stepD_of_meets hs hc (meets_self d s)).symm

/-- A refill with what was there changes nothing. -/
theorem refill_of_step? (hs : s.WritesForward) (hc : ¬ d.Clashes s) {w : Value}
    (h : d.step? s = some w) : d.refill s w = d := by
  cases hd : d.indexed? s with
  | none =>
    rw [refill_of_none hd]
    cases d with
    | list vs => exact absurd (clashes_of_indexed?_eq_none hd rfl) hc
    | dict es => exact congrArg dict (Entries.insert_of_lookup h)
    | _ => cases h
  | some found =>
    obtain ⟨vs, i⟩ := found
    rw [refill_of_some hd]
    obtain ⟨rfl, rfl | ⟨rfl, rfl⟩⟩ := indexed?_eq_some hd
    · rw [step?_list rfl (hs i rfl)] at h
      obtain ⟨hlt, hw⟩ := List.getElem?_eq_some_iff.mp h
      rw [padded_of_lt hlt, ← hw, List.set_getElem_self]
    · cases h

/-! ## 6. Writes -/

/-- On the way of a path a key comes upon a list. -/
def KeyOnList (d : Value) (p : Path) : Prop :=
  ∃ before s after w, p = before ++ s :: after ∧ d.at? before = some w ∧ w.Clashes s

theorem not_keyOnList_nil (d : Value) : ¬ d.KeyOnList [] := by
  rintro ⟨before, s, after, w, hp, -⟩
  cases before <;> cases hp

theorem keyOnList_cons {p : Path} :
    d.KeyOnList (s :: p) ↔ d.Clashes s ∨ ∃ w, d.step? s = some w ∧ w.KeyOnList p := by
  constructor
  · rintro ⟨before, r, after, w, hp, hat, hw⟩
    cases before with
    | nil =>
      cases hp
      cases hat
      exact .inl hw
    | cons b before =>
      cases hp
      obtain ⟨u, hu, hat⟩ := Option.bind_eq_some_iff.mp hat
      exact .inr ⟨u, hu, before, r, after, w, rfl, hat, hw⟩
  · rintro (h | ⟨u, hu, before, r, after, w, rfl, hat, hw⟩)
    · exact ⟨[], s, p, d, rfl, rfl, h⟩
    · exact ⟨s :: before, r, after, w, rfl, by rw [at?_cons, hu]; exact hat, hw⟩

theorem not_keyOnList_null (p : Path) : ¬ null.KeyOnList p := by
  cases p with
  | nil => exact not_keyOnList_nil _
  | cons s p =>
    rw [keyOnList_cons]
    rintro (⟨a, vs, -, h⟩ | ⟨w, h, -⟩) <;> cases h

theorem keyOnList_of_stepD {p : Path} (h : (d.stepD s).KeyOnList p) : d.KeyOnList (s :: p) := by
  rw [keyOnList_cons]
  cases hd : d.step? s with
  | none =>
    rw [stepD, hd] at h
    exact absurd h (not_keyOnList_null p)
  | some w =>
    rw [stepD, hd] at h
    exact .inr ⟨w, rfl, h⟩

/-- **A place apart from what is written reads as before**, or it was in a list that a key of the path
has come upon, and reads null. -/
theorem atD_written {p q : Path} (hp : p.WritesForward) (hq : q.ReadsForward) (h : Path.Apart p q)
    (d v : Value) :
    (d.written p v).atD q = d.atD q ∨ d.KeyOnList p ∧ (d.written p v).atD q = .null := by
  induction p generalizing d q with
  | nil =>
    obtain ⟨n, s, t, hs, -⟩ := h
    cases hs
  | cons s p ih =>
    cases q with
    | nil =>
      obtain ⟨n, s, t, -, ht, -⟩ := h
      cases ht
    | cons t q =>
      obtain ⟨hs, hp⟩ := List.forall_mem_cons.mp hp
      obtain ⟨ht, hq⟩ := List.forall_mem_cons.mp hq
      rw [atD_cons, atD_cons, written]
      by_cases hm : d.Meets s t
      · have hpq : Path.Apart p q := (Path.apart_cons.mp h).resolve_left (not_differs_of_meets hm)
        have hbelow := ih hp hq hpq (d.slot s)
        rw [stepD_refill_of_meets hs hm]
        by_cases hc : d.Clashes s
        · rw [slot_of_clashes hc, atD_null] at hbelow
          rw [slot_of_clashes hc]
          exact .inr ⟨keyOnList_cons.mpr (.inl hc), hbelow.elim id And.right⟩
        · rw [stepD_of_meets hs hc hm]
          refine hbelow.imp_right fun ⟨hlist, hnull⟩ => ⟨keyOnList_of_stepD ?_, hnull⟩
          rwa [← slot_eq_stepD hs hc]
      · by_cases hc : d.Clashes s
        · rw [stepD_refill_of_clashes hc hm, atD_null]
          exact .inr ⟨keyOnList_cons.mpr (.inl hc), rfl⟩
        · rw [stepD_refill_of_not_meets hs ht hc hm]
          exact .inl rfl

/-- **What is read can be written back**, unless a key comes upon a list. -/
theorem written_atD_eq_iff {p : Path} (hp : p.WritesForward) (h : d.hasPath p) :
    d.written p (d.atD p) = d ↔ ¬ d.KeyOnList p := by
  induction p generalizing d with
  | nil => simp [written, not_keyOnList_nil]
  | cons s p ih =>
    obtain ⟨hs, hp⟩ := List.forall_mem_cons.mp hp
    obtain ⟨u, hu⟩ := Option.isSome_iff_exists.mp h
    obtain ⟨w, hw, hat⟩ := Option.bind_eq_some_iff.mp hu
    have hstep : d.stepD s = w := by rw [stepD, hw]; rfl
    rw [atD_cons, written, hstep]
    by_cases hc : d.Clashes s
    · have hlost : ∀ x, d.refill s x ≠ d := by
        obtain ⟨a, vs, rfl, rfl⟩ := hc
        exact fun x => nofun
      exact iff_of_false (hlost _) (not_not_intro (keyOnList_cons.mpr (.inl hc)))
    · have hrefill : ∀ x, d.refill s x = d ↔ x = w := fun x => by
        constructor
        · intro heq
          rw [← stepD_refill_of_meets hs (meets_self d s) x, heq, hstep]
        · rintro rfl
          exact refill_of_step? hs hc hw
      have hkey : d.KeyOnList (s :: p) ↔ w.KeyOnList p := by simp [keyOnList_cons, hc, hw]
      rw [slot_eq_stepD hs hc, hstep, hrefill, hkey]
      exact ih hp (Option.isSome_iff_exists.mpr ⟨u, hat⟩)

/-- **A write leaves alone what is apart from its path, and can put back what is read there**; both fail
only where a key of the path comes upon a list, for the list is lost then. -/
theorem frame_of_put {p : Path} (hp : p.WritesForward) (d v : Value) :
    (∃ d', d.put? p v = some d' ∧ ∀ q : Path, q.ReadsForward → Path.Apart p q →
      d'.atD q = d.atD q ∨ d.KeyOnList p ∧ d'.atD q = .null) ∧
    (d.hasPath p → (d.put? p (d.atD p) = some d ↔ ¬ d.KeyOnList p)) := by
  refine ⟨⟨_, put?_eq hp d v, fun q hq h => atD_written hp hq h d v⟩, fun h => ?_⟩
  rw [put?_eq hp, Option.some_inj]
  exact written_atD_eq_iff hp h

/-- An article with two tags. -/
def article : Value :=
  .record [("title", .text "On paths"), ("tags", .list [.text "lean", .text "paths"])]

/-- Writing the first tag leaves the second one alone, however it is read, and the first can be put
back. -/
theorem frame_of_put_article :
    (∃ d', article.put? [.key "tags", .index 0] (.text "proofs") = some d' ∧
      d'.atD [.key "tags", .key "1"] = .text "paths") ∧
    article.put? [.key "tags", .index 0] (.text "lean") = some article := by
  have hforward : Path.WritesForward [.key "tags", .index 0] := by
    simp [Path.WritesForward, Segment.WritesForward]
  have hkey : ¬ article.KeyOnList [.key "tags", .index 0] := by
    simp [keyOnList_cons, not_keyOnList_nil, Clashes, article, record, step?, Segment.name]
  obtain ⟨⟨d', hd', hframe⟩, hback⟩ := frame_of_put hforward article (.text "proofs")
  have hread : Path.ReadsForward [.key "tags", .key "1"] := by
    simp only [Path.ReadsForward, List.forall_mem_cons]
    exact ⟨nofun, fun i hi => by cases hi; decide, nofun⟩
  have hapart : Path.Apart [.key "tags", .index 0] [.key "tags", .key "1"] :=
    ⟨1, _, _, rfl, rfl, by decide, fun i hi => by cases hi; decide⟩
  exact ⟨⟨d', hd', (hframe _ hread hapart).resolve_right fun h => hkey h.1⟩, (hback rfl).mpr hkey⟩

/-- **A list does not outlast a write below it by a key**, though a read takes the key for an index. -/
theorem list_lost_to_key :
    (¬ ∀ (d v d' : Value) (p q : Path), p.WritesForward → q.ReadsForward → Path.Apart p q →
      d.put? p v = some d' → d'.atD q = d.atD q) ∧
    ¬ ∀ (d : Value) (p : Path), p.WritesForward → d.hasPath p → d.put? p (d.atD p) = some d := by
  have hp : Path.WritesForward [.key "a", .key "0"] := by
    simp [Path.WritesForward, Segment.WritesForward]
  constructor
  · intro h
    have hq : Path.ReadsForward [.key "a", .index 1] := by
      simp only [Path.ReadsForward, List.forall_mem_cons]
      exact ⟨nofun, fun i hi => by cases hi; decide, nofun⟩
    have hsame := h (.record [("a", .list [.int 1, .int 2])]) (.int 1) _ _ [.key "a", .index 1] hp hq
      ⟨1, _, _, rfl, rfl, by decide, nofun⟩ (put?_eq hp _ _)
    cases hsame
  · intro h
    have hsame := h (.record [("a", .list [.int 1, .int 2])]) [.key "a", .key "0"] hp rfl
    rw [put?_eq hp] at hsame
    cases hsame

/-! ## 7. Reading back and writing twice -/

/-- A refill is addressed by its segment the way the container was. -/
theorem indexed?_refill_of_some {vs : List Value} {i : Int} (hd : d.indexed? s = some (vs, i)) (x : Value) :
    (d.refill s x).indexed? s = some ((padded vs i).set i.toNat x, i) := by
  rw [refill_of_some hd, (indexed?_eq_some hd).1]
  rfl

theorem indexed?_refill_of_none (hd : d.indexed? s = none) (x : Value) :
    (d.refill s x).indexed? s = none := by
  rw [refill_of_none hd]
  cases s <;> rfl

/-- A write goes on with what the last one has left there. -/
theorem slot_refill (hs : s.WritesForward) (x : Value) : (d.refill s x).slot s = x := by
  rw [← stepD_of_meets hs ?_ (meets_self _ s), stepD_refill_of_meets hs (meets_self d s)]
  rintro ⟨a, vs, rfl, hlist⟩
  -- what a key is written into is a mapping from then on
  have hnone : d.indexed? (.key a) = none := by cases d <;> rfl
  rw [refill_of_none hnone] at hlist
  cases hlist

/-- The second of two refills wins. -/
theorem refill_refill (hs : s.WritesForward) (x y : Value) :
    (d.refill s x).refill s y = d.refill s y := by
  cases hd : d.indexed? s with
  | none =>
    rw [refill_of_none (indexed?_refill_of_none hd x), refill_of_none hd, refill_of_none hd]
    exact congrArg dict (Entries.insert_insert s.name x y d.entries)
  | some found =>
    obtain ⟨vs, i⟩ := found
    have hi : 0 ≤ i := hs i (indexed?_eq_some hd).1
    have hlt : i.toNat < ((padded vs i).set i.toNat x).length := by
      rw [List.length_set, length_padded vs hi]
      omega
    rw [refill_of_some (indexed?_refill_of_some hd x), refill_of_some hd, padded_of_lt hlt, List.set_set]

theorem at?_written {p : Path} (hp : p.WritesForward) (d v : Value) : (d.written p v).at? p = some v := by
  induction p generalizing d with
  | nil => rfl
  | cons s p ih =>
    obtain ⟨hs, hp⟩ := List.forall_mem_cons.mp hp
    rw [written, at?_cons, step?_refill_of_meets hs (meets_self d s)]
    exact ih hp (d.slot s)

theorem written_written {p : Path} (hp : p.WritesForward) (d v w : Value) :
    (d.written p v).written p w = d.written p w := by
  induction p generalizing d with
  | nil => rfl
  | cons s p ih =>
    obtain ⟨hs, hp⟩ := List.forall_mem_cons.mp hp
    rw [written, written, slot_refill hs, ih hp, refill_refill hs, ← written]

/-- **A write succeeds and is read back, and the last of two writes stands**, wherever the path leads:
into a mapping or a list, past the end of a list, or through a value that has to give way. -/
theorem read_back_of_put {p : Path} (hp : p.WritesForward) (d v w : Value) :
    ∃ d', d.put? p v = some d' ∧ d'.hasPath p ∧ d'.at? p = some v ∧ d'.put? p w = d.put? p w := by
  have hread : (d.written p v).at? p = some v := at?_written hp d v
  refine ⟨_, put?_eq hp d v, Option.isSome_iff_exists.mpr ⟨v, hread⟩, hread, ?_⟩
  rw [put?_eq hp, put?_eq hp, written_written hp]

/-- A write past the end of the tags, where a list and a mapping are made for it. -/
theorem read_back_of_put_article :
    ∃ d', article.put? [.key "tags", .index 3, .index 0, .key "year"] (.int 2024) = some d' ∧
      d'.hasPath [.key "tags", .index 3, .index 0, .key "year"] ∧
      d'.at? [.key "tags", .index 3, .index 0, .key "year"] = some (.int 2024) ∧
      d'.put? [.key "tags", .index 3, .index 0, .key "year"] .null =
        article.put? [.key "tags", .index 3, .index 0, .key "year"] .null :=
  read_back_of_put (by simp [Path.WritesForward, Segment.WritesForward]) article (.int 2024) .null

end Value

end Statechart
