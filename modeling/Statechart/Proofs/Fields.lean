/-
# The fields of guards are found

When a flow is compiled, the paths in its guards are looked at as a whole, with their scope.  When it runs, only
what follows the scope is read.  That the one look is enough rests on how paths are read at dots, and
with it that a guard on a field comes to its check whatever there is, or is not, in the context and the event.

* `exists_rest_of_checkedPath`: what follows the scope of a path that was accepted is a path, and it is looked up
  without complaint;
* `Guard.FindsField`: the test of a field is the check of what lies at its path;
* `Guard.findsField_of_resolve`: so it is for every guard that comes of a reference;
* **`Path.compositional_at_dots`**: all of this in one statement, down to the guards of a graph.
-/
import Statechart.Proofs.Verdict
import Statechart.Proofs.Written

namespace Statechart

/-! ## 1. Paths that were accepted -/

/-- **What follows the scope of a path that was accepted is a path**, and looking it up raises no complaint. -/
theorem exists_rest_of_checkedPath {scope : DataScope} {rest guard : String}
    (h : Guard.checkedPath (scope.label ++ "." ++ rest) guard = .ok ()) :
    ∃ q, Path.parse rest = .ok q ∧ ∀ context event default,
      lookupScoped (scope.label ++ "." ++ rest) context event default =
        .ok (((scope.data context event).at? q).getD default) := by
  obtain ⟨p, hp⟩ := Guard.parse_of_checkedPath h
  obtain ⟨q, hq, -⟩ := (Path.parse_scoped scope).mp hp
  exact ⟨q, hq, lookupScoped_join scope hq⟩

/-! ## 2. Guards on fields -/

/-- A check fails of nothing but an integer that is too large. -/
theorem FieldCheck.not_path_of_holds (check : FieldCheck) (v literal : Value) (e : PathError) :
    check.holds v literal ≠ .error (.path e) := by
  rcases check.holds_cases v literal with ⟨-, b, hb⟩ | ⟨-, hfault⟩
  · rw [hb]
    nofun
  · rw [hfault]
    nofun

namespace Guard

/-- The field of a guard is found: what follows the scope of its path is a path, the test of the guard is the
check of what lies there, null if nothing does, and it never fails of a path. -/
def FindsField : Guard → Prop
  | field name check path literal => ∃ (scope : DataScope) (rest : String) (q : Path),
    path = scope.label ++ "." ++ rest ∧ Path.parse rest = .ok q ∧ ∀ context event,
      (field name check path literal).test context event =
        liftData (check.holds (((scope.data context event).at? q).getD .null) literal) ∧
      ∀ e, (field name check path literal).test context event ≠ .error (.data (.path e))
  | _ => True

theorem FindsField.renamed {g : Guard} (h : g.FindsField) (name : String) : (g.renamed name).FindsField := by
  cases g <;> exact h

theorem findsField_of_ofShorthand {ref : String} {g : Guard} (h : ofShorthand ref = .ok g) : g.FindsField := by
  obtain ⟨check, path, literal, rfl, hscope, p, hp⟩ := exists_path_of_ofShorthand h
  obtain ⟨scope, rest, rfl⟩ := exists_join_of_begins hscope
  obtain ⟨q, hq, -⟩ := (Path.parse_scoped scope).mp hp
  refine ⟨scope, rest, q, rfl, hq, fun context event => ?_⟩
  have htest : (field ref check (scope.label ++ "." ++ rest) literal).test context event =
      liftData (check.holds (((scope.data context event).at? q).getD .null) literal) := by
    rw [test, lookupScoped_join scope hq]
    rfl
  refine ⟨htest, fun e herror => ?_⟩
  rw [htest] at herror
  cases hholds : check.holds (((scope.data context event).at? q).getD .null) literal with
  | ok b => simp [hholds, liftData, Except.mapError] at herror
  | error f =>
    rw [hholds] at herror
    cases herror
    exact check.not_path_of_holds _ _ e hholds

theorem findsField_of_ofExpression {expression : Value} {name : String} {g : Guard}
    (h : ofExpression expression name = .ok g) : g.FindsField := by
  rw [eq_logic_of_ofExpression h]
  trivial

/-- The field of a guard that comes of a reference is found. -/
theorem findsField_of_resolve {flow : Entries} {host : String → Option HostGuard} {ref : Value} {g : Guard}
    (h : resolve flow host ref = .ok g) : g.FindsField :=
  of_resolveFrom (fun _ _ => findsField_of_ofShorthand) (fun _ _ _ => findsField_of_ofExpression)
    (fun _ _ => trivial) (fun _ name hg => hg.renamed name) h

end Guard

/-! ## 3. All paths with a scope -/

/-- **Paths are read piece by piece at dots**: what follows a path and a dot succeeds as it does alone, with its
segments after those of the path, and complains as it does alone, further on.  So what follows the
scope of a path that was accepted is a path that is looked up without complaint, and no guard on a field fails
of its path, whether it comes of a reference or stands in a graph. -/
theorem Path.compositional_at_dots :
    (∀ s p, Path.parse s = .ok p → ∀ t,
      Path.parse (s ++ "." ++ t) = (p ++ ·) <$> (Path.parse t).mapError (·.moved (s.length + 1))) ∧
    (∀ (scope : DataScope) rest guard, Guard.checkedPath (scope.label ++ "." ++ rest) guard = .ok () →
      ∃ q, Path.parse rest = .ok q ∧ ∀ context event default,
        lookupScoped (scope.label ++ "." ++ rest) context event default =
          .ok (((scope.data context event).at? q).getD default)) ∧
    (∀ flow host ref g, Guard.resolve flow host ref = .ok g → g.FindsField) ∧
    ∀ registry config source c, Definition.compileSource registry config source = .ok c →
      ∀ n ∈ c.graph.states, ∀ event, ∀ k ∈ n.candidatesFor event, ∀ g, k.guard = some g → g.FindsField :=
  ⟨fun _ _ => Path.parse_join, fun _ _ _ => exists_rest_of_checkedPath,
    fun _ _ _ _ => Guard.findsField_of_resolve, fun _ _ _ _ hc _ hn _ _ hk _ hg =>
      (Definition.resolved_of_compileSource hc hn hk hg).elim fun _ => Guard.findsField_of_resolve⟩

/-- A quoted dot and a bracket that is left open, both after an item of a list, the item with its scope, and a
guard on a field of it. -/
theorem Path.compositional_at_dots_item :
    Path.parse "items[0]" = .ok [.key "items", .index 0] ∧
      Path.parse ("items[0]" ++ "." ++ "tags['a.b']") = .ok [.key "items", .index 0, .key "tags", .key "a.b"] ∧
      Path.parse ("items[0]" ++ "." ++ "tags[") = .error (.unclosedBracket 13) ∧
      (Guard.checkedPath "context.items[0]" "first" = .ok () ∧ ∃ q, Path.parse "items[0]" = .ok q ∧
        ∀ context event default, lookupScoped "context.items[0]" context event default =
          .ok ((context.at? q).getD default)) ∧
      Guard.resolve [] (fun _ => none) (.text "isNull:event.items[0].name") =
        .ok (.field "isNull:event.items[0].name" .isNull "event.items[0].name" .null) ∧
      (Guard.field "isNull:event.items[0].name" .isNull "event.items[0].name" .null).FindsField := by
  have hitem : Path.parse "items[0]" = .ok [.key "items", .index 0] := by decide +kernel
  have hquoted : Path.parse "tags['a.b']" = .ok [.key "tags", .key "a.b"] := by decide +kernel
  have hopen : Path.parse "tags[" = .error (.unclosedBracket 4) := by decide +kernel
  obtain ⟨hjoin, hscoped, hguard, -⟩ := compositional_at_dots
  have hg : Guard.resolve [] (fun _ => none) (.text "isNull:event.items[0].name") =
      .ok (.field "isNull:event.items[0].name" .isNull "event.items[0].name" .null) := by
    rw [Guard.resolve, Guard.resolveFrom_text]
    rfl
  refine ⟨hitem, ?_, ?_, ⟨rfl, hscoped .context "items[0]" "first" rfl⟩, hg, hguard _ _ _ _ hg⟩
  · rw [hjoin _ _ hitem, hquoted]
    rfl
  · rw [hjoin _ _ hitem, hopen]
    rfl

end Statechart
