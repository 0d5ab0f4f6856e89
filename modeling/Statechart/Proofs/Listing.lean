/-
# The paths of nested mappings

What a flow starts out with is known by the dotted paths of its first context.  They are put together
while the mappings are gone through, text by text, and later taken for paths.  For mappings whose keys are names
both come to the same: the texts are those of the ways from mapping to mapping, and each of them leads to where its
way leads.

* `Value.Leads`: a way through mappings, by their keys;
* `Value.IsNamed`: mappings have names for keys, each once, as far as mappings are nested in each other;
* `Value.mem_paths_iff`: the texts that are listed below a way are those of the ways that go on from it;
* `Value.Leads.at?`: a way, as a path, leads to the value at its end;
* **`Value.paths_eq_ways`**: both in one statement.
-/
import Statechart.Proofs.Provided

namespace Statechart

/-! ## 1. Ways through mappings -/

namespace Entries

/-- The entry of a key that comes once is the one that is found. -/
theorem lookup_of_mem {es : Entries} (hkeys : (keys es).Nodup) {n : String} {v : Value} (h : (Key.text n, v) ∈ es) :
    lookup n es = some v := by
  induction es with
  | nil => cases h
  | cons e es ih =>
    obtain ⟨k, w⟩ := e
    obtain ⟨hnew, hrest⟩ := List.nodup_cons.mp (hkeys : (k :: keys es).Nodup)
    rcases List.mem_cons.mp h with heq | h
    · cases heq
      rw [lookup_cons, if_pos rfl]
    · have hne : k ≠ .text n := fun heq => hnew (heq ▸ List.mem_map.mpr ⟨_, h, rfl⟩)
      rw [lookup_cons, if_neg hne, ih hrest h]

end Entries

namespace Value

/-- A way through mappings, one inside the other, by their keys. -/
inductive Leads : Value → List String → Value → Prop where
  | here (v : Value) : Leads v [] v
  | into {es : Entries} {n : String} {v w : Value} {ns : List String} (entry : (.text n, v) ∈ es)
      (rest : Leads v ns w) : Leads (.dict es) (n :: ns) w

/-- Names are the keys of a mapping and of the mappings in it, each key once.  What is in a list is not looked at. -/
inductive IsNamed : Value → Prop where
  | mapping {es : Entries} (distinct : (Entries.keys es).Nodup)
      (names : ∀ e ∈ es, ∃ n, e.1 = .text n ∧ Path.IsName n) (values : ∀ e ∈ es, IsNamed e.2) : IsNamed (.dict es)
  | other {v : Value} (h : ∀ es, v ≠ .dict es) : IsNamed v

variable {v w : Value} {ns before : List String} {t : String}

/-- A way is a path to the value at its end, -/
theorem Leads.at? (h : v.Leads ns w) (hv : v.IsNamed) : v.at? (ns.map .key) = some w := by
  induction h with
  | here v => rfl
  | into entry rest ih =>
    cases hv with
    | other h => exact absurd rfl (h _)
    | mapping distinct names values =>
      have hstep : step? (.dict _) (.key _) = some _ := Entries.lookup_of_mem distinct entry
      rw [List.map_cons, at?_cons, hstep, Option.bind_some]
      exact ih (values _ entry)

/-- and all that is on it are names. -/
theorem Leads.isName (h : v.Leads ns w) (hv : v.IsNamed) : ∀ n ∈ ns, Path.IsName n := by
  induction h with
  | here v => simp
  | into entry rest ih =>
    cases hv with
    | other h => exact absurd rfl (h _)
    | mapping distinct names values =>
      obtain ⟨n, hn, hname⟩ := names _ entry
      cases hn
      exact List.forall_mem_cons.mpr ⟨hname, ih (values _ entry)⟩

/-! ## 2. Texts of ways -/

/-- The text of a way that goes one key further. -/
theorem dotted_intercalate (h : ∀ m ∈ before, Path.IsName m) (n : String) :
    dotted (".".intercalate before) (.text n) = ".".intercalate (before ++ [n]) := by
  unfold dotted
  by_cases hnil : before = []
  · subst hnil
    rw [if_pos (by rfl), List.nil_append, String.intercalate_singleton]
    rfl
  · have hne : ".".intercalate before ≠ "" := Path.ne_empty_of_isPlain ⟨before, ⟨hnil, h⟩, rfl⟩
    rw [if_neg (by simpa using hne), String.intercalate_append_of_ne_nil hnil (by simp), String.intercalate_singleton]
    rfl

/-- What is listed for a mapping: for each of its entries the key, and what is listed below it. -/
theorem mem_entryPaths_iff {es : Entries} {base : String} :
    t ∈ entryPaths base es ↔ ∃ e ∈ es, t = dotted base e.1 ∨ t ∈ paths (dotted base e.1) e.2 := by
  induction es with
  | nil => simp [entryPaths]
  | cons e es ih =>
    obtain ⟨k, w⟩ := e
    simp only [entryPaths, List.mem_cons, List.mem_append, ih, exists_eq_or_imp, or_assoc]

/-- **What is listed below a way** are the texts of the ways that go on from it. -/
theorem mem_paths_iff (hv : v.IsNamed) (before : List String) (hbefore : ∀ m ∈ before, Path.IsName m) :
    t ∈ v.paths (".".intercalate before) ↔
      ∃ ns w, ns ≠ [] ∧ v.Leads ns w ∧ t = ".".intercalate (before ++ ns) := by
  induction hv generalizing before with
  | other h =>
    constructor
    · intro ht
      unfold paths at ht
      split at ht
      · exact absurd rfl (h _)
      · cases ht
    · rintro ⟨ns, w, hne, hleads, -⟩
      cases hleads with
      | here => exact absurd rfl hne
      | into => exact absurd rfl (h _)
  | mapping distinct names values ih =>
    have hfurther {n : String} (hn : Path.IsName n) : ∀ m ∈ before ++ [n], Path.IsName m := fun m hm =>
      (List.mem_append.mp hm).elim (hbefore m) fun hm => by rwa [List.mem_singleton.mp hm]
    rw [paths, mem_entryPaths_iff]
    constructor
    · rintro ⟨⟨k, v⟩, he, ht⟩
      obtain ⟨n, rfl, hn⟩ := names _ he
      rw [dotted_intercalate hbefore] at ht
      rcases ht with rfl | ht
      · exact ⟨[n], v, by simp, .into he (.here v), rfl⟩
      · obtain ⟨ns, w, -, hleads, rfl⟩ := (ih _ he _ (hfurther hn)).mp ht
        exact ⟨n :: ns, w, by simp, .into he hleads, by rw [List.append_assoc]; rfl⟩
    · rintro ⟨ns, w, hne, hleads, rfl⟩
      cases hleads with
      | here => exact absurd rfl hne
      | @into _ n v _ ns he hleads =>
        obtain ⟨_, heq, hn⟩ := names _ he
        cases heq
        refine ⟨_, he, ?_⟩
        rw [dotted_intercalate hbefore]
        cases ns with
        | nil => exact .inl rfl
        | cons m ns =>
          exact .inr ((ih _ he _ (hfurther hn)).mpr ⟨_, w, by simp, hleads, by rw [List.append_assoc]; rfl⟩)

/-- **The paths that are listed are the ways through mappings, and lead where they lead**: what is listed for mappings
with names for keys are the texts of their ways, which are not empty; and the text of a way is a path to
the value at its end. -/
theorem paths_eq_ways {es : Entries} (h : (dict es).IsNamed) :
    (∀ t, t ∈ (dict es).paths "" ↔ ∃ ns w, ns ≠ [] ∧ (dict es).Leads ns w ∧ t = ".".intercalate ns) ∧
      ∀ ns w, ns ≠ [] → (dict es).Leads ns w → ∃ p, Path.parse (".".intercalate ns) = .ok p ∧
        (dict es).hasPath p = true ∧ ∀ default, (dict es).atTextD (".".intercalate ns) default = .ok w := by
  refine ⟨fun t => mem_paths_iff h [] (by simp), fun ns w hne hleads => ?_⟩
  have hparse := Path.parse_names ⟨hne, hleads.isName h⟩
  have hat := hleads.at? h
  refine ⟨_, hparse, by rw [hasPath, hat]; rfl, fun default => ?_⟩
  rw [atTextD, atText, hparse]
  exact congrArg (fun found : Option Value => Except.ok (found.getD default)) hat

/-- A mapping and a list in a mapping. -/
def nestedEntries : Entries := [(.text "a", .dict [(.text "b", .int 1)]), (.text "c", .list [.int 1, .int 2])]

theorem paths_eq_ways_nested :
    (dict nestedEntries).IsNamed ∧ (dict nestedEntries).paths "" = ["a", "a.b", "c"] ∧
      "c[0]" ∉ (dict nestedEntries).paths "" ∧ (dict nestedEntries).Leads ["a", "b"] (.int 1) ∧
      ∃ p, Path.parse "a.b" = .ok p ∧ (dict nestedEntries).hasPath p = true ∧
        ∀ default, (dict nestedEntries).atTextD "a.b" default = .ok (.int 1) := by
  have hinner : (dict [(.text "b", .int 1)]).IsNamed :=
    .mapping (by decide) (List.forall_mem_singleton.mpr ⟨"b", rfl, by decide +kernel⟩)
      (List.forall_mem_singleton.mpr (.other nofun))
  have hnamed : (dict nestedEntries).IsNamed :=
    .mapping (by decide)
      (List.forall_mem_cons.mpr ⟨⟨"a", rfl, by decide +kernel⟩,
        List.forall_mem_singleton.mpr ⟨"c", rfl, by decide +kernel⟩⟩)
      (List.forall_mem_cons.mpr ⟨hinner, List.forall_mem_singleton.mpr (.other nofun)⟩)
  have hway : (dict nestedEntries).Leads ["a", "b"] (.int 1) := .into (.head _) (.into (.head _) (.here _))
  exact ⟨hnamed, rfl, by decide, hway, (paths_eq_ways hnamed).2 ["a", "b"] (.int 1) (by simp) hway⟩

end Value

end Statechart
