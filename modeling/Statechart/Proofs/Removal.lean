/-
# What a removal takes away

Whether there is anything to remove is found out by reading.  The removal itself then goes the way once
more and looks up every key and every index on its own: a key may stand for an index, an index for a key,
and a position may count from the end.  Were the two to disagree anywhere, the removal would fail, or hit
a neighbour.  They agree everywhere.

* `Value.cut?`: the removal alone, which fails where it does not find its way;
* `Value.Cuts`: one entry or one item is gone, and all else stands as it was, in the same order;
* `cut?_of_hasPath`, `cuts_of_cut?`: the removal finds what reading finds, and cuts it out;
* **`cuts_of_remove`**: what is removed, and when nothing is.
-/
import Statechart.Proofs.Declared

namespace Statechart

namespace Value

/-! ## 1. Removing without looking -/

/-- A copy without the value at a path, made without a look whether anything is there: it fails where a
mapping has no such key, a list no such position, and where there is neither a mapping nor a list. -/
def cut? : Value → Path → Option Value
  | dict es, [s] => do
    let _ ← Entries.lookup s.name es
    return .dict (Entries.erase s.name es)
  | dict es, s :: t :: p => do
    let w ← Entries.lookup s.name es
    return .dict (Entries.insert s.name (← w.cut? (t :: p)) es)
  | list vs, [s] => do
    let k ← offset? vs.length (← s.position?)
    return .list (vs.eraseIdx k)
  | list vs, s :: t :: p => do
    let k ← offset? vs.length (← s.position?)
    return .list (vs.set k (← (← vs[k]?).cut? (t :: p)))
  | _, _ => none

/-- **A removal finds its way wherever reading does.** -/
theorem cut?_of_hasPath {v : Value} {p : Path} (hp : p ≠ []) (h : v.hasPath p) :
    v.cut? p = some (v.without p) := by
  induction p generalizing v with
  | nil => exact absurd rfl hp
  | cons s p ih =>
    obtain ⟨u, hu⟩ := Option.isSome_iff_exists.mp h
    obtain ⟨w, hw, hat⟩ := Option.bind_eq_some_iff.mp hu
    have hinner (hne : p ≠ []) : w.cut? p = some (w.without p) :=
      ih hne (Option.isSome_iff_exists.mpr ⟨u, hat⟩)
    cases v with
    | dict es =>
      have hlookup : Entries.lookup s.name es = some w := hw
      cases p with
      | nil => simp [cut?, without, hlookup]
      | cons t p => simp [cut?, without, hlookup, hinner (List.cons_ne_nil t p)]
    | list vs =>
      obtain ⟨i, k, hi, hk, hitem⟩ := exists_offset_of_step? hw
      cases p with
      | nil => simp [cut?, without, hi, hk]
      | cons t p => simp [cut?, without, hi, hk, hitem, hinner (List.cons_ne_nil t p)]
    | _ => cases hw

/-! ## 2. One entry or one item less -/

/-- A value is another one without what is at a path: one entry or one item is gone from the container
that the path leads to, and every container on the way is as it was, but for what it has on the way. -/
inductive Cuts : Value → Path → Value → Prop
  | entry {before after : Entries} {s : Segment} {w : Value}
      (first : .text s.name ∉ Entries.keys before) :
      Cuts (dict (before ++ (.text s.name, w) :: after)) [s] (dict (before ++ after))
  /-- A position is counted from the start or from the end. -/
  | item {before after : List Value} {s : Segment} {i : Int} {w : Value}
      (position : s.position? = some i) (here : i = before.length ∨ i = -(after.length + 1)) :
      Cuts (list (before ++ w :: after)) [s] (list (before ++ after))
  | inEntry {before after : Entries} {s : Segment} {p : Path} {w w' : Value}
      (first : .text s.name ∉ Entries.keys before) (inner : Cuts w p w') :
      Cuts (dict (before ++ (.text s.name, w) :: after)) (s :: p)
        (dict (before ++ (.text s.name, w') :: after))
  | inItem {before after : List Value} {s : Segment} {i : Int} {p : Path} {w w' : Value}
      (position : s.position? = some i) (here : i = before.length ∨ i = -(after.length + 1))
      (inner : Cuts w p w') :
      Cuts (list (before ++ w :: after)) (s :: p) (list (before ++ w' :: after))

/-- An entry that is found divides the entries; dropping it and storing in its place leave the rest. -/
theorem exists_split_of_lookup {a : String} {es : Entries} {w : Value}
    (h : Entries.lookup a es = some w) : ∃ before after, es = before ++ (.text a, w) :: after ∧
      .text a ∉ Entries.keys before ∧ Entries.erase a es = before ++ after ∧
      ∀ w', Entries.insert a w' es = before ++ (.text a, w') :: after := by
  induction es with
  | nil => cases h
  | cons e es ih =>
    obtain ⟨k, u⟩ := e
    by_cases hk : k = .text a
    · subst hk
      rw [Entries.lookup_cons, if_pos rfl] at h
      cases h
      exact ⟨[], es, rfl, List.not_mem_nil, by simp [Entries.erase], fun w' => by simp [Entries.insert]⟩
    · rw [Entries.lookup_cons, if_neg hk] at h
      obtain ⟨before, after, rfl, hfirst, herase, hinsert⟩ := ih h
      refine ⟨(k, u) :: before, after, rfl, ?_, ?_, fun w' => ?_⟩
      · rintro (_ | ⟨_, hmem⟩)
        · exact hk rfl
        · exact hfirst hmem
      · simp [Entries.erase, hk, herase]
      · simp [Entries.insert, hk, hinsert]

/-- An item that is found divides the list. -/
theorem exists_split_of_offset {vs : List Value} {i : Int} {k : Nat} {w : Value}
    (hk : offset? vs.length i = some k) (hw : vs[k]? = some w) :
    ∃ before after : List Value, vs = before ++ w :: after ∧
      (i = before.length ∨ i = -(after.length + 1)) ∧ vs.eraseIdx k = before ++ after ∧
      ∀ w', vs.set k w' = before ++ w' :: after := by
  obtain ⟨hlt, hget⟩ := List.getElem?_eq_some_iff.mp hw
  refine ⟨vs.take k, vs.drop (k + 1), ?_, ?_, List.eraseIdx_eq_take_drop_succ vs k, fun w' => ?_⟩
  · rw [← hget, List.getElem_cons_drop, List.take_append_drop]
  · rw [List.length_take, List.length_drop]
    unfold offset? at hk
    split at hk <;> split at hk <;> cases hk <;> omega
  · rw [List.set_eq_take_append_cons_drop, if_pos hlt]

/-- **A removal that finds its way cuts out what is at the path.** -/
theorem cuts_of_cut? {v v' : Value} {p : Path} (h : v.cut? p = some v') : v.Cuts p v' := by
  induction p generalizing v v' with
  | nil => cases v <;> cases h
  | cons s p ih =>
    cases v with
    | dict es =>
      cases p with
      | nil =>
        obtain ⟨w, hw, h⟩ := Option.bind_eq_some_iff.mp h
        obtain ⟨before, after, rfl, hfirst, herase, -⟩ := exists_split_of_lookup hw
        cases h
        rw [herase]
        exact .entry hfirst
      | cons t p =>
        obtain ⟨w, hw, h⟩ := Option.bind_eq_some_iff.mp h
        obtain ⟨w', hw', h⟩ := Option.bind_eq_some_iff.mp h
        obtain ⟨before, after, rfl, hfirst, -, hinsert⟩ := exists_split_of_lookup hw
        cases h
        rw [hinsert]
        exact .inEntry hfirst (ih hw')
    | list vs =>
      cases p with
      | nil =>
        obtain ⟨i, hi, h⟩ := Option.bind_eq_some_iff.mp h
        obtain ⟨k, hk, h⟩ := Option.bind_eq_some_iff.mp h
        cases h
        generalize hw : vs.get ⟨k, offset?_lt hk⟩ = w
        obtain ⟨before, after, rfl, hhere, herase, -⟩ :=
          exists_split_of_offset hk (List.getElem?_eq_some_iff.mpr ⟨_, hw⟩)
        rw [herase]
        exact .item hi hhere
      | cons t p =>
        obtain ⟨i, hi, h⟩ := Option.bind_eq_some_iff.mp h
        obtain ⟨k, hk, h⟩ := Option.bind_eq_some_iff.mp h
        obtain ⟨w, hw, h⟩ := Option.bind_eq_some_iff.mp h
        obtain ⟨w', hw', h⟩ := Option.bind_eq_some_iff.mp h
        obtain ⟨before, after, rfl, hhere, -, hset⟩ := exists_split_of_offset hk hw
        cases h
        rw [hset]
        exact .inItem hi hhere (ih hw')
    | _ => cases h

/-! ## 3. The container that a path leads to -/

/-- Under a key stands the first entry that has it. -/
theorem lookup_of_split {before after : Entries} {a : String} {w : Value}
    (h : .text a ∉ Entries.keys before) :
    Entries.lookup a (before ++ (.text a, w) :: after) = some w := by
  induction before with
  | nil => rw [List.nil_append, Entries.lookup_cons, if_pos rfl]
  | cons e before ih =>
    obtain ⟨k, u⟩ := e
    obtain ⟨hne, hmem⟩ := not_or.mp fun hor => h (List.mem_cons.mpr hor)
    rw [List.cons_append, Entries.lookup_cons, if_neg (Ne.symm hne), ih hmem]

/-- At a position stands the item that it is counted to. -/
theorem step?_of_split {before after : List Value} {s : Segment} {i : Int} {w : Value}
    (hi : s.position? = some i) (h : i = before.length ∨ i = -(after.length + 1)) :
    (list (before ++ w :: after)).step? s = some w := by
  have hk : offset? (before.length + (after.length + 1)) i = some before.length := by
    rw [offset?]
    rcases h with rfl | rfl
    · rw [if_pos (by omega), if_pos (by omega), Int.toNat_natCast]
    · rw [if_neg (by omega), if_pos (by omega)]
      congr 1
      omega
  simp [step?, hi, hk]

/-- **What is cut out is missing from the container it was in**, which is where it was. -/
theorem Cuts.container {v v' : Value} {p : Path} (h : v.Cuts p v') :
    ∃ q s c c', p = q ++ [s] ∧ v.at? q = some c ∧ v'.at? q = some c' ∧ c.Cuts [s] c' := by
  induction h with
  | entry first => exact ⟨[], _, _, _, rfl, rfl, rfl, .entry first⟩
  | item position here => exact ⟨[], _, _, _, rfl, rfl, rfl, .item position here⟩
  | @inEntry before after s p w w' first _ ih =>
    obtain ⟨q, t, c, c', rfl, hc, hc', hcuts⟩ := ih
    refine ⟨s :: q, t, c, c', rfl, ?_, ?_, hcuts⟩
    · rw [at?_cons, step?, lookup_of_split first]
      exact hc
    · rw [at?_cons, step?, lookup_of_split first]
      exact hc'
  | @inItem before after s i p w w' position here _ ih =>
    obtain ⟨q, t, c, c', rfl, hc, hc', hcuts⟩ := ih
    refine ⟨s :: q, t, c, c', rfl, ?_, ?_, hcuts⟩
    · rw [at?_cons, step?_of_split position here]
      exact hc
    · rw [at?_cons, step?_of_split position here]
      exact hc'

/-! ## 4. Removals -/

/-- **A removal takes away what is at its path, and nothing else.**  Where reading finds nothing, and for
the empty path, the value stays as it is.  Otherwise the removal finds its way, and the container that the
path without its last segment leads to has that one entry or item less; all other entries and items, of
this container and of those on the way to it, are the same and in the same order. -/
theorem cuts_of_remove (v : Value) (p : Path) :
    (p = [] ∨ v.hasPath p = false → v.remove p = v) ∧
      (p ≠ [] → v.hasPath p = true → v.cut? p = some (v.remove p) ∧ v.Cuts p (v.remove p) ∧
        ∃ q s c c', p = q ++ [s] ∧ v.at? q = some c ∧ (v.remove p).at? q = some c' ∧
          c.Cuts [s] c') := by
  constructor
  · rintro (rfl | hnone)
    · rfl
    · rw [remove, if_neg (by simp [hnone])]
  · intro hp h
    have hcut : v.cut? p = some (v.remove p) := by
      rw [remove, if_pos h]
      exact cut?_of_hasPath hp h
    have hcuts := cuts_of_cut? hcut
    exact ⟨hcut, hcuts, hcuts.container⟩

/-- A removal from the last item of a list, by a key that stands for an index. -/
theorem cuts_of_remove_article :
    [.key "notes", .index (-1), .key "tags", .key "1"] ≠ ([] : Path) ∧
      (record [("notes", .list [.int 0, .record [("id", .int 7),
        ("tags", .list [.text "lean", .text "paths", .text "lists"])]])]).hasPath
          [.key "notes", .index (-1), .key "tags", .key "1"] = true ∧
      (record [("notes", .list [.int 0, .record [("id", .int 7),
        ("tags", .list [.text "lean", .text "paths", .text "lists"])]])]).Cuts
          [.key "notes", .index (-1), .key "tags", .key "1"]
          (record [("notes", .list [.int 0, .record [("id", .int 7),
            ("tags", .list [.text "lean", .text "lists"])]])]) := by
  have hfound : (record [("notes", .list [.int 0, .record [("id", .int 7),
      ("tags", .list [.text "lean", .text "paths", .text "lists"])]])]).hasPath
        [.key "notes", .index (-1), .key "tags", .key "1"] = true := rfl
  exact ⟨List.cons_ne_nil _ _, hfound,
    ((cuts_of_remove _ _).2 (List.cons_ne_nil _ _) hfound).2.1⟩

end Value

end Statechart
