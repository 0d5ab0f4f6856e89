/-
# Paths at their dots

A dot outside of brackets ends all that the reader of a path keeps in mind.  If a text is a path up to a
dot, then what follows the dot is read as if it stood alone, and a complaint about it only speaks of a
place further on.  The scope in front of a path is such a text, so it can be taken off.

* `Path.parseFrom_moved`: the place of a text in a longer one shows in complaints only;
* **`Path.parse_join`**: what two texts with a dot between them are read as, and `Path.parse_append_dot`: when
  they are a path;
* `Path.parse_scoped`, `lookupScoped_join`: a path with its scope, and what is looked up at it.
-/
import Statechart.Path.Scope
import Statechart.Proofs.Evaluation

namespace Statechart

/-! ## 1. Places further on -/

/-- The same complaint about a text with more in front of it. -/
def PathError.moved (n : Nat) : PathError → PathError
  | unclosedQuote position => .unclosedQuote (n + position)
  | unclosedBracket position => .unclosedBracket (n + position)

/-- The same state in a text with more in front of it. -/
def PathState.moved (n : Nat) : PathState → PathState
  | plain pending => .plain pending
  | inside start b => .inside (n + start) b

namespace Path

variable {s t : String} {p : Path}

/-- **More text in front moves complaints**, and nothing else. -/
theorem parseFrom_moved (n pos : Nat) (st : PathState) (cs : List Char) :
    parseFrom (n + pos) (st.moved n) cs = (parseFrom pos st cs).mapError (·.moved n) := by
  induction cs generalizing pos st with
  | nil =>
    cases st with
    | plain pending => rfl
    | inside start b =>
      cases hquote : b.quote
      all_goals
        simp only [PathState.moved, parseFrom, hquote]
        rfl
  | cons c cs ih =>
    have hplain (pending : List Char) := ih (pos + 1) (.plain pending)
    have hinside (start : Nat) (b : Bracket) := ih (pos + 1) (.inside start b)
    simp only [PathState.moved, ← Nat.add_assoc] at hplain hinside
    cases st with
    | plain pending =>
      simp only [PathState.moved, parseFrom]
      split
      · rw [hplain, mapError_map]
      · split
        · rw [hinside, mapError_map]
        · exact hplain _
    | inside start b =>
      simp only [PathState.moved, parseFrom]
      split
      · rw [hplain, mapError_map]
      · exact hinside _ _

/-! ## 2. Texts joined by a dot -/

theorem parseFrom_append_dot {pos : Nat} {st : PathState} {cs : List Char} (h : parseFrom pos st cs = .ok p)
    (ds : List Char) :
    parseFrom pos st (cs ++ '.' :: ds) = (p ++ ·) <$> parseFrom (pos + cs.length + 1) (.plain []) ds := by
  induction cs generalizing pos st p with
  | nil =>
    cases st with
    | plain pending =>
      cases h
      simp [parseFrom]
    | inside start b => cases h
  | cons c cs ih =>
    have hpos : pos + 1 + cs.length + 1 = pos + (cs.length + 1) + 1 := by omega
    cases st with
    | plain pending =>
      simp only [parseFrom, List.cons_append, List.length_cons] at h ⊢
      split at h
      · rename_i hdot
        obtain ⟨r, hr, rfl⟩ := map_eq_ok.mp h
        rw [if_pos hdot, ih hr, hpos, Functor.map_map]
        simp only [List.append_assoc]
      · rename_i hdot
        rw [if_neg hdot]
        split at h
        · rename_i hbracket
          obtain ⟨r, hr, rfl⟩ := map_eq_ok.mp h
          rw [if_pos hbracket, ih hr, hpos, Functor.map_map]
          simp only [List.append_assoc]
        · rename_i hbracket
          rw [if_neg hbracket, ih h, hpos]
    | inside start b =>
      simp only [parseFrom, List.cons_append, List.length_cons] at h ⊢
      split at h
      · rename_i hclosed
        obtain ⟨r, hr, rfl⟩ := map_eq_ok.mp h
        rw [if_pos hclosed, ih hr, hpos, Functor.map_map]
        simp only [List.cons_append]
      · rename_i hopen
        rw [if_neg hopen, ih h, hpos]

/-- **What two texts with a dot between them are read as**, if the first of them is a path. -/
theorem parse_join (h : parse s = .ok p) (t : String) :
    parse (s ++ "." ++ t) = (p ++ ·) <$> (parse t).mapError (·.moved (s.length + 1)) := by
  have htext : (s ++ "." ++ t).toList = s.toList ++ '.' :: t.toList := by simp
  have hmoved := parseFrom_moved (s.length + 1) 0 (.plain []) t.toList
  rw [parse, htext, parseFrom_append_dot h, String.length_toList, Nat.zero_add]
  exact congrArg ((p ++ ·) <$> ·) hmoved

/-- **A dot joins paths**: what follows it is read as a path of its own. -/
theorem parse_append_dot (h : parse s = .ok p) {r : Path} :
    parse (s ++ "." ++ t) = .ok r ↔ ∃ q, parse t = .ok q ∧ r = p ++ q := by
  rw [parse_join h, map_eq_ok]
  exact exists_congr fun q => and_congr mapError_eq_ok eq_comm

theorem parse_label (scope : DataScope) : parse scope.label = .ok [.key scope.label] := by
  cases scope <;> rfl

/-- A path with its scope is the rest of it, after the name of the scope. -/
theorem parse_scoped (scope : DataScope) {rest : String} :
    parse (scope.label ++ "." ++ rest) = .ok p ↔ ∃ q, parse rest = .ok q ∧ p = .key scope.label :: q :=
  parse_append_dot (parse_label scope)

end Path

/-! ## 3. Scopes -/

/-- What a scope stands for. -/
def DataScope.data (scope : DataScope) (context event : Value) : Value :=
  match scope with
  | .context => context
  | .event => event

/-- A text that begins with one of the two scopes and a dot. -/
theorem exists_join_of_begins {path : String}
    (h : (beginsWith "context." path || beginsWith "event." path) = true) :
    ∃ (scope : DataScope) (rest : String), path = scope.label ++ "." ++ rest := by
  rcases (Bool.or_eq_true _ _).mp h with h | h
  · obtain ⟨rest, rfl⟩ := exists_rest_of_beginsWith h
    exact ⟨.context, rest, rfl⟩
  · obtain ⟨rest, rfl⟩ := exists_rest_of_beginsWith h
    exact ⟨.event, rest, rfl⟩

/-- **A path with its scope is looked up by the rest of it.** -/
theorem lookupScoped_join (scope : DataScope) {rest : String} {q : Path} (hq : Path.parse rest = .ok q)
    (context event default : Value) :
    lookupScoped (scope.label ++ "." ++ rest) context event default =
      .ok (((scope.data context event).at? q).getD default) := by
  rw [lookupScoped, splitScope_join]
  cases scope <;> simp only [Value.atTextD, Value.atText, hq] <;> rfl

end Statechart
