/-
# What stops a compilation

A compilation reports what is wrong with a definition and goes on.  What it converts after the form of
the definition has been checked is another matter: the check takes a delay for an integer where the
conversion does not, it says nothing of the defaults of an actor, and a conversion that fails there is
not reported but ends the compilation.  This file says exactly when that happens.

Whether a step stops depends on what it is given and not on what has been reported before, so that a
condition for a whole compilation is put together from conditions for its steps:

* `Build.Stops`: a step stops exactly under a condition, with rules for composed steps;
* `Compile.Unforeseen`, `Compile.state_stops`: what stops a state;
* `Analysis.Unreadable`, `Analysis.issues_fails_iff`: what stops the analysis of a graph;
* `Definition.run_fails_iff`: what stops a compilation;
* **`Definition.fails_iff_unforeseen`**: so much, and no more, is neither reported nor compiled.
-/
import Statechart.Proofs.Compiled
import Statechart.Proofs.Form
import Statechart.Proofs.Search

namespace Statechart

/-! ## 1. Steps that stop -/

section

variable {ε α β : Type}

/-- Two steps fail where the first one does, or the second one after it. -/
theorem bind_fails_iff {x : Except ε α} {f : α → Except ε β} :
    (∃ e, x >>= f = .error e) ↔ (∃ e, x = .error e) ∨ ∃ a, x = .ok a ∧ ∃ e, f a = .error e := by
  cases x with
  | error e => exact iff_of_true ⟨e, rfl⟩ (.inl ⟨e, rfl⟩)
  | ok a => simp [Bind.bind, Except.bind]

/-- A last step that only arranges what there is does not fail. -/
theorem map_fails_iff {x : Except ε α} (f : α → β) :
    (∃ e, (x >>= fun a => pure (f a)) = .error e) ↔ ∃ e, x = .error e := by
  rw [bind_fails_iff]
  exact or_iff_left fun ⟨_, _, _, he⟩ => nomatch he

theorem mapError_fails_iff {δ : Type} {x : Except δ α} {f : δ → ε} :
    (∃ e, x.mapError f = .error e) ↔ ∃ e, x = .error e := by
  cases x with
  | error e => exact iff_of_true ⟨_, rfl⟩ ⟨e, rfl⟩
  | ok a => exact iff_of_false (fun ⟨_, he⟩ => nomatch he) (fun ⟨_, he⟩ => nomatch he)

/-- A map along a list fails exactly where it fails on a member. -/
theorem mapM_fails_iff {f : α → Except ε β} {xs : List α} :
    (∃ e, xs.mapM f = .error e) ↔ ∃ x ∈ xs, ∃ e, f x = .error e := by
  induction xs with
  | nil => exact iff_of_false (fun ⟨_, he⟩ => nomatch he) (by simp)
  | cons x xs ih =>
    rw [List.mapM_cons, bind_fails_iff, List.exists_mem_cons_iff, ← ih]
    cases hx : f x with
    | error e => exact iff_of_true (.inl ⟨e, rfl⟩) (.inl ⟨e, rfl⟩)
    | ok y =>
      simp only [map_fails_iff, Except.ok.injEq, exists_eq_left']

end

namespace Build

variable {α β : Type} {P Q : Prop}

/-- A step stops exactly under a condition, whatever has been reported or taken before it. -/
def Stops (x : Build α) (P : Prop) : Prop := ∀ p, (∃ e, x.run p = .error e) ↔ P

/-- A step that never stops. -/
abbrev Passes (x : Build α) : Prop := x.Stops False

theorem Stops.congr {x : Build α} (h : x.Stops P) (hPQ : P ↔ Q) : x.Stops Q :=
  fun p => (h p).trans hPQ

theorem passes_of_ok {x : Build α} (h : ∀ p, ∃ r, x.run p = .ok r) : x.Passes := fun p => by
  obtain ⟨r, hr⟩ := h p
  rw [hr]
  exact iff_of_false (fun ⟨_, he⟩ => nomatch he) id

theorem passes_pure (a : α) : Passes (pure a : Build α) := passes_of_ok fun _ => ⟨_, rfl⟩

theorem passes_report (p : Problem) (id : Option String) : Passes (report p id) :=
  passes_of_ok fun _ => ⟨_, rfl⟩

theorem lift_stops (r : Except DataFault α) : (lift r).Stops (∃ e, r = .error e) := by
  intro p
  cases r with
  | error e => exact iff_of_true ⟨e, rfl⟩ ⟨e, rfl⟩
  | ok a => exact iff_of_false (fun ⟨_, he⟩ => nomatch he) (fun ⟨_, he⟩ => nomatch he)

/-- **One step after another** stops where one of them does. -/
theorem Stops.bind {x : Build α} {f : α → Build β} (hx : x.Stops P) (hf : ∀ a, (f a).Stops Q) :
    (x >>= f).Stops (P ∨ Q) := by
  intro p
  rw [StateT.run_bind]
  cases hrun : x.run p with
  | error e => exact iff_of_true ⟨e, rfl⟩ (.inl ((hx p).mp ⟨e, hrun⟩))
  | ok r =>
    have hP : ¬ P := fun h => by
      obtain ⟨e, he⟩ := (hx p).mpr h
      rw [hrun] at he
      cases he
    exact (hf r.1 r.2).trans (or_iff_right hP).symm

theorem Passes.bind {x : Build α} {f : α → Build β} (hx : x.Passes) (hf : ∀ a, (f a).Stops Q) :
    (x >>= f).Stops Q :=
  (Stops.bind hx hf).congr (by rw [false_or])

theorem Stops.mapM {f : α → Build β} {P : α → Prop} {xs : List α} (h : ∀ x ∈ xs, (f x).Stops (P x)) :
    (xs.mapM f).Stops (∃ x ∈ xs, P x) := by
  induction xs with
  | nil => exact (passes_pure _).congr (by simp)
  | cons x xs ih =>
    rw [List.mapM_cons]
    refine ((h x (by simp)).bind fun b => (ih fun y hy => h y (by simp [hy])).bind fun bs =>
      passes_pure _).congr ?_
    simp

theorem Stops.foldlM {f : β → α → Build β} {P : α → Prop} {xs : List α}
    (h : ∀ b, ∀ x ∈ xs, (f b x).Stops (P x)) (b : β) : (xs.foldlM f b).Stops (∃ x ∈ xs, P x) := by
  induction xs generalizing b with
  | nil => exact (passes_pure _).congr (by simp)
  | cons x xs ih =>
    rw [List.foldlM_cons]
    refine ((h b x (by simp)).bind fun b' => ih (fun b y hy => h b y (by simp [hy])) b').congr ?_
    simp

theorem Passes.mapM {f : α → Build β} {xs : List α} (h : ∀ x ∈ xs, (f x).Passes) :
    (xs.mapM f).Passes :=
  (Stops.mapM h).congr (by simp)

theorem Passes.forM {f : α → Build Unit} {xs : List α} (h : ∀ x ∈ xs, (f x).Passes) :
    (xs.forM f).Passes := by
  induction xs with
  | nil => exact passes_pure _
  | cons x xs ih => exact (h x (by simp)).bind fun _ => ih fun y hy => h y (by simp [hy])

theorem Passes.foldlM {f : β → α → Build β} {xs : List α} (h : ∀ b, ∀ x ∈ xs, (f b x).Passes)
    (b : β) : (xs.foldlM f b).Passes :=
  (Stops.foldlM h b).congr (by simp)

end Build

namespace Compile

open Build

variable (c : Setting) (id : String)

/-! ## 2. The parts of a state -/

theorem parseGuard_passes (ref : Value) : (parseGuard c id ref).Passes := by
  unfold parseGuard
  split
  · exact passes_pure _
  · exact (passes_report _ _).bind fun _ => passes_pure _

theorem bindAction_passes (ref : Value) : (bindAction c id ref).Passes := by
  unfold bindAction
  split
  · exact passes_pure _
  · exact (passes_report _ _).bind fun _ => passes_pure _

theorem bindActions_passes (refs : List Value) : (bindActions c id refs).Passes :=
  (Passes.mapM fun ref _ => bindAction_passes c id ref).bind fun _ => passes_pure _

/-- A descriptor names a transform by a value that no table can hold. -/
def BadTransform (registry : Registry) (direction : Direction) (descriptor : Value) : Prop :=
  ∃ e, Binding.parse registry.transform? direction descriptor = .error (.badName e)

theorem bindingOf_stops (direction : Direction) (descriptor : Value) :
    (bindingOf c id direction descriptor).Stops (BadTransform c.registry direction descriptor) := by
  unfold bindingOf BadTransform
  split
  · rename_i h
    exact (passes_pure _).congr (by simp [h])
  · rename_i h
    refine ((Passes.forM fun p _ => passes_report _ _).bind fun _ => passes_pure _).congr ?_
    simp [h]
  · rename_i e h
    exact (lift_stops _).congr (iff_of_true ⟨e, rfl⟩ ⟨e, h⟩)

theorem bindingsOf_stops (direction : Direction) (descriptors : List Value) :
    (bindingsOf c id direction descriptors).Stops
      (∃ d ∈ descriptors, BadTransform c.registry direction d) :=
  ((Stops.mapM fun d _ => bindingOf_stops c id direction d).bind fun _ => passes_pure _).congr
    (by rw [or_false])

theorem checkExpression_passes (label : String) (expression : Value) :
    (checkExpression id label expression).Passes := by
  unfold checkExpression
  split
  · exact passes_pure _
  · exact (passes_report _ _).bind fun _ => passes_pure _

theorem computedField_passes (item : Value) : (computedField id item).Passes := by
  unfold computedField
  dsimp only
  split
  · exact (passes_report _ _).bind fun _ => passes_pure _
  · refine (checkExpression_passes id _ _).bind fun ok => ?_
    cases ok <;> exact passes_pure _

theorem computedFields_passes (items : List Value) : (computedFields id items).Passes :=
  (Passes.mapM fun item _ => computedField_passes id item).bind fun _ => passes_pure _

theorem checkRules_passes (rules : List Value) : (checkRules id rules).Passes := by
  induction rules with
  | nil => exact passes_pure _
  | cons rule rules ih =>
    rw [checkRules]
    refine (checkExpression_passes id _ _).bind fun ok => ?_
    cases ok
    · exact passes_pure _
    · exact ih

theorem validations_passes (rules : List Value) : (validations c id rules).Passes := by
  unfold validations
  split
  · exact passes_pure _
  · refine (checkRules_passes id rules).bind fun ok => ?_
    cases ok
    · exact passes_pure _
    · exact bindAction_passes c id _

theorem kindOf_passes (s : RawState) : (kindOf s).Passes := by
  unfold kindOf
  dsimp only
  split
  · exact passes_pure _
  · split
    · refine (passes_report _ _).bind fun _ => ?_
      split
      · exact (passes_report _ _).bind fun _ => passes_pure _
      · exact passes_pure _
    · split
      · exact (passes_report _ _).bind fun _ => passes_pure _
      · exact passes_pure _

theorem initialChild_passes (s : RawState) (kind : StateKind) : (initialChild s kind).Passes := by
  unfold initialChild
  split
  · split
    · exact (passes_report _ _).bind fun _ => passes_pure _
    · dsimp only
      split
      · exact passes_pure _
      · exact (passes_report _ _).bind fun _ => passes_pure _
  · exact passes_pure _

theorem targetOf_passes (event : String) (target : Value) : (targetOf c id event target).Passes := by
  unfold targetOf
  split
  · exact passes_pure _
  · split
    · exact passes_pure _
    · exact (passes_report _ _).bind fun _ => passes_pure _

theorem guardOf_passes (ref : Value) : (guardOf c id ref).Passes := by
  unfold guardOf
  split
  · exact passes_pure _
  · exact parseGuard_passes c id _

theorem candidate_passes (event : String) (first : List BoundAction) (item : Value) :
    (candidate c id event first item).Passes :=
  (targetOf_passes c id event _).bind fun _ => (guardOf_passes c id _).bind fun _ =>
    (bindActions_passes c id _).bind fun _ => passes_pure _

theorem candidates_passes (event : String) (first : List BoundAction) (config : Value) :
    (candidates c id event first config).Passes :=
  Passes.mapM fun item _ => candidate_passes c id event first item

theorem namedTransitions_passes (on : Entries) : (namedTransitions c id on).Passes :=
  Passes.foldlM (fun _ _ _ => (candidates_passes c id _ [] _).bind fun _ => passes_pure _) []

/-- Timers stop a compilation by the delays they are given under, never by what they lead to. -/
theorem timers_stops (after : Value) (ts : Transitions) :
    (timers c id after ts).Stops (∃ e, delays after = .error e) :=
  ((lift_stops (delays after)).bind fun _ =>
    Passes.foldlM (fun _ _ _ => (candidates_passes c id _ [] _).bind fun _ => passes_pure _) _).congr
    (by rw [or_false])

theorem resolveActor_passes (src : String) : (resolveActor c id src).Passes := by
  unfold resolveActor
  split
  · exact passes_pure _
  · split
    · exact passes_pure _
    · split
      · exact passes_pure _
      · exact (passes_report _ _).bind fun _ => passes_pure _

/-- A retry policy cannot be read, and not because a number in it has a bad value. -/
def BadRetry (config : Config) (definition : Value) : Prop :=
  ∃ e, RetryPolicy.ofDefinition definition (RetryPolicy.ofConfig config) = .error (.bad e) ∧
    e.faultClass ≠ .value

theorem retryPolicy_stops (invokeId : String) (definition : Value) :
    (retryPolicy c id invokeId definition).Stops (BadRetry c.config definition) := by
  unfold retryPolicy BadRetry
  dsimp only
  split
  · rename_i h
    exact (passes_pure _).congr (by simp [h])
  · rename_i e h
    split
    · rename_i hvalue
      exact ((passes_report _ _).bind fun _ => passes_pure _).congr (by simp [h, hvalue])
    · rename_i hvalue
      exact (lift_stops _).congr (iff_of_true ⟨e, rfl⟩ ⟨e, h, hvalue⟩)
  · rename_i e hne h
    refine ((passes_report _ _).bind fun _ => passes_pure _).congr (iff_of_false not_false ?_)
    rintro ⟨e', he', -⟩
    rw [h, Except.error.injEq] at he'
    exact hne e' he'

theorem doneCandidates_passes (event : String) (results : List BoundAction) (config : Value) :
    (doneCandidates c id event results config).Passes := by
  unfold doneCandidates
  split
  · exact passes_pure _
  · exact candidates_passes c id event results _

theorem withErrorHandler_passes (invokeId : String) (config : Value) (ts : Transitions) :
    (withErrorHandler c id invokeId config ts).Passes := by
  unfold withErrorHandler
  split
  · exact (passes_report _ _).bind fun _ => passes_pure _
  · exact (candidates_passes c id _ [] _).bind fun _ => passes_pure _

theorem takeInvokeId_passes (invokeId : String) : (takeInvokeId id invokeId).Passes := by
  refine (passes_of_ok fun _ => ⟨_, rfl⟩ : (get : Build Progress).Passes).bind fun p => ?_
  have htake : Passes (modify fun s => { s with invokeIds := s.invokeIds ++ [invokeId] }) :=
    passes_of_ok fun _ => ⟨_, rfl⟩
  dsimp only
  split
  · exact (passes_report _ _).bind fun _ => htake
  · exact htake

/-- The retry policy that is read for a call: its own, or that of its actor. -/
def retryOf (actors : Entries) (item : Value) : Value :=
  let own := item.getD "retry"
  let defaults := ((Entries.lookup (item.getD "src").display actors).getD .null).entries
  if own.isTruthy then own else (Entries.lookup "retry" defaults).getD .null

theorem invocation_stops (index : Nat) (item : Value) (ts : Transitions) :
    (invocation c id index item ts).Stops (BadRetry c.config (retryOf c.actorDefinitions item)) :=
  (takeInvokeId_passes id _).bind fun _ => (resolveActor_passes c id _).bind fun _ =>
    ((retryPolicy_stops c id _ _).bind fun _ => (bindActions_passes c id _).bind fun _ =>
      (doneCandidates_passes c id _ _ _).bind fun _ => (withErrorHandler_passes c id _ _ _).bind fun _ =>
        passes_pure _).congr (by rw [or_false]; rfl)

theorem invocations_stops (invoke : Value) (ts : Transitions) :
    (invocations c id invoke ts).Stops
      (∃ item ∈ asList invoke, BadRetry c.config (retryOf c.actorDefinitions item)) := by
  refine (Stops.foldlM (P := fun x => BadRetry c.config (retryOf c.actorDefinitions x.1))
    (fun _ x _ => ((invocation_stops c id x.2 x.1 _).bind fun _ => passes_pure _).congr
      (by rw [or_false])) _).congr ?_
  conv_rhs => rw [← List.zipIdx_map_fst 0 (asList invoke)]
  simp only [List.mem_map, Prod.exists, exists_and_right, exists_eq_right]

/-! ## 3. States -/

/-- The descriptors of the bindings of a state. -/
def descriptors (direction : Direction) (es : Entries) : List Value :=
  let binding := (Entries.lookup "binding" es).getD .null
  match direction with
  | .input => (binding.getD "inputs").items
  | .output => (binding.getD "outputs").items

/-- What a state may hold that no check foresees: the compilation of the state stops there. -/
inductive Unforeseen (registry : Registry) (config : Config) (actors es : Entries) : Prop
  | transform (direction : Direction) (descriptor : Value)
      (hmem : descriptor ∈ descriptors direction es)
      (hbad : BadTransform registry direction descriptor)
  | delay (e : DataFault) (hbad : delays ((Entries.lookup "after" es).getD .null) = .error e)
  | retry (item : Value) (hmem : item ∈ asList ((Entries.lookup "invoke" es).getD .null))
      (hbad : BadRetry config (retryOf actors item))

/-- **What stops a state.** -/
theorem state_stops (s : RawState) :
    (state c s).Stops (Unforeseen c.registry c.config c.actorDefinitions s.definition) := by
  refine Stops.congr ((kindOf_passes s).bind fun kind => (bindActions_passes c s.id _).bind fun entry =>
    (bindActions_passes c s.id _).bind fun exit => (bindingsOf_stops c s.id _ _).bind fun inputs =>
      (bindingsOf_stops c s.id _ _).bind fun outputs => (computedFields_passes s.id _).bind fun computed =>
        (validations_passes c s.id _).bind fun validations =>
          (namedTransitions_passes c s.id _).bind fun ts =>
            (timers_stops c s.id _ ts).bind fun ⟨after, ts'⟩ =>
              (invocations_stops c s.id _ ts').bind fun ⟨invokes, ts''⟩ => (?_ : Passes _)) ?_
  · dsimp only
    split
    · exact (passes_report _ _).bind fun _ => (initialChild_passes s kind).bind fun _ => passes_pure _
    · exact (initialChild_passes s kind).bind fun _ => passes_pure _
  · constructor
    · rintro (⟨d, hd, hbad⟩ | ⟨d, hd, hbad⟩ | ⟨e, hbad⟩ | ⟨item, hitem, hbad⟩ | h)
      · exact .transform .input d hd hbad
      · exact .transform .output d hd hbad
      · exact .delay e hbad
      · exact .retry item hitem hbad
      · exact h.elim
    · rintro (⟨direction, d, hd, hbad⟩ | ⟨e, hbad⟩ | ⟨item, hitem, hbad⟩)
      · cases direction
        · exact .inl ⟨d, hd, hbad⟩
        · exact .inr (.inl ⟨d, hd, hbad⟩)
      · exact .inr (.inr (.inl ⟨e, hbad⟩))
      · exact .inr (.inr (.inr (.inl ⟨item, hitem, hbad⟩)))

end Compile

/-! ## 4. The analysis of a graph -/

namespace Template

/-- A failure on the way to the variables of a template. -/
def IsReadingFault : Fault → Prop
  | .data _ | .evaluation _ => True
  | _ => False

theorem headVariables_failsOnly (head : String) : FailsOnly IsReadingFault (headVariables head) := by
  have hinline : FailsOnly IsReadingFault (readInline head) := by
    unfold readInline
    split
    · exact FailsOnly.ok _
    · exact FailsOnly.error trivial
    · exact FailsOnly.error trivial
  unfold headVariables
  split
  · exact hinline.bind fun _ => FailsOnly.ok _
  · split
    · exact FailsOnly.ok _
    · split <;> exact FailsOnly.ok _

theorem pathsRead_failsOnly (template : String) : FailsOnly IsReadingFault (pathsRead template) := by
  have hscan : FailsOnly IsReadingFault (liftEval (scan template)) :=
    FailsOnly.mapError (Q := fun _ => True) (fun _ _ => trivial) fun _ _ => trivial
  refine hscan.bind fun pieces => (FailsOnly.mapM fun piece _ => ?_).bind fun _ => FailsOnly.ok _
  cases piece with
  | text _ => exact FailsOnly.ok _
  | expression e => exact headVariables_failsOnly _

/-- What a template requires cannot be said where data stops the reading of it; an expression that is
malformed is listed among what is missing. -/
theorem missing_eq_error_iff (template : String) (available : List String) (f : Fault) :
    missing template available = .error f ↔ pathsRead template = .error f ∧ ∃ e, f = .data e := by
  unfold missing
  dsimp only
  split
  · rename_i h
    simp [h]
  · rename_i h
    rw [h]
    constructor
    · exact fun h => nomatch h
    · rintro ⟨h, e, rfl⟩
      cases h
  · rename_i f' hne h
    rw [h]
    refine ⟨fun heq => ⟨heq, ?_⟩, And.left⟩
    cases heq
    have hkind := pathsRead_failsOnly template f h
    cases f with
    | data e => exact ⟨e, rfl⟩
    | evaluation e => exact (hne e rfl).elim
    | _ => exact hkind.elim

end Template

namespace Analysis

/-- A state has a template whose text or whose variables cannot be made out. -/
def Unreadable (n : StateNode) : Prop :=
  (∃ e, templates n = .error e) ∨
    ∃ ts, templates n = .ok ts ∧ ∃ t ∈ ts, ∃ e, Template.pathsRead t.2 = .error (.data e)

theorem templateIssues_fails_iff (strict : Bool) (provided : List String) (n : StateNode) :
    (∃ f, templateIssues strict provided n = .error f) ↔ Unreadable n := by
  have hone : ∀ t : String × String, (∃ f, (do
      return (← Template.missing t.2 provided).map fun name =>
        (⟨.unprovidedVariable t.1 name strict, some n.id⟩ : Issue)) = Except.error f) ↔
      ∃ e, Template.pathsRead t.2 = .error (.data e) := fun t => by
    rw [map_fails_iff]
    constructor
    · rintro ⟨f, hf⟩
      obtain ⟨hread, e, rfl⟩ := (Template.missing_eq_error_iff t.2 provided f).mp hf
      exact ⟨e, hread⟩
    · rintro ⟨e, he⟩
      exact ⟨_, (Template.missing_eq_error_iff t.2 provided _).mpr ⟨he, e, rfl⟩⟩
  rw [templateIssues, bind_fails_iff, liftData, mapError_fails_iff]
  refine or_congr_right (exists_congr fun ts => and_congr mapError_eq_ok ?_)
  rw [map_fails_iff, mapM_fails_iff]
  exact exists_congr fun t => and_congr_right fun _ => hone t

/-- What stops the analysis of the templates of a state is data. -/
theorem templateIssues_failsOnly (strict : Bool) (provided : List String) (n : StateNode) :
    FailsOnly (fun f => ∃ e, f = .data e) (templateIssues strict provided n) := by
  refine (FailsOnly.mapError (Q := fun _ => True) (fun _ _ => trivial) fun e _ => ⟨e, rfl⟩).bind
    fun ts => (FailsOnly.mapM fun t _ => FailsOnly.bind ?_ fun _ => FailsOnly.ok _).bind
      fun _ => FailsOnly.ok _
  exact fun f hf => ((Template.missing_eq_error_iff t.2 provided f).mp hf).2

theorem unprovided_fails_iff (strict : Bool) (g : Graph) :
    (∃ f, unprovided strict g = .error f) ↔ ∃ n ∈ g.states, Unreadable n := by
  rw [unprovided, map_fails_iff, mapM_fails_iff]
  refine exists_congr fun n => and_congr_right fun _ => ?_
  rw [map_fails_iff, templateIssues_fails_iff]

theorem unprovided_failsOnly (strict : Bool) (g : Graph) :
    FailsOnly (fun f => ∃ e, f = .data e) (unprovided strict g) :=
  (FailsOnly.mapM fun n _ => (templateIssues_failsOnly strict _ n).bind fun _ => FailsOnly.ok _).bind
    fun _ => FailsOnly.ok _

/-- The searches for states that cannot be entered or left come to their ends in a well-formed graph. -/
theorem exists_searched {g : Graph} (wf : g.WellFormed) :
    ∃ us ds, unreachableStates g = .ok us ∧ deadEnds g = .ok ds := by
  obtain ⟨ids, hids, -⟩ := wf.exists_reachable
  have hleft : ∀ n ∈ g.states, ∃ found : Option Issue, (do
      if n.isCompound || n.isFinal then return none
      if (← g.outgoing n.id).any (·.target.isSome) then return none
      return some ⟨.deadEnd n.id, some n.id⟩) = (Except.ok found : Except Fault _) := fun n hn => by
    obtain ⟨cs, hcs, -⟩ := wf.exists_outgoing (List.mem_map.mpr ⟨n, hn, rfl⟩)
    split
    · exact ⟨_, rfl⟩
    · rw [hcs]
      by_cases hany : cs.any (·.target.isSome)
      · exact ⟨none, by simp [hany, bind, Except.bind, pure, Except.pure]⟩
      · exact ⟨_, by simp only [hany, bind, Except.bind, pure, Except.pure]; rfl⟩
  obtain ⟨found, hfound⟩ := exists_mapM hleft
  exact ⟨_, _, by rw [unreachableStates, hids]; rfl, by rw [deadEnds, hfound]; rfl⟩

/-- **What stops an analysis** is a template that cannot be made out. -/
theorem analysed_fails_iff {g : Graph} (wf : g.WellFormed) (strict : Bool) :
    (∃ e, Definition.analysed strict g = .error e) ↔ ∃ n ∈ g.states, Unreadable n := by
  obtain ⟨us, ds, hus, hds⟩ := exists_searched wf
  have hissues : issues strict g = (unprovided strict g >>= fun ps => pure (us ++ ds ++ ps)) := by
    rw [issues, hus, hds]
    rfl
  rw [← unprovided_fails_iff strict g, Definition.analysed, hissues]
  cases hps : unprovided strict g with
  | error f =>
    obtain ⟨e, rfl⟩ := unprovided_failsOnly strict g f hps
    exact iff_of_true ⟨e, rfl⟩ ⟨_, rfl⟩
  | ok ps => exact iff_of_false (fun ⟨_, he⟩ => nomatch he) (fun ⟨_, he⟩ => nomatch he)

end Analysis

namespace Definition

open Build

/-! ## 5. Compilations -/

theorem buildActors_stops (registry : Registry) (definitions : Entries) :
    (buildActors registry definitions).Stops
      (∃ d ∈ definitions, ∃ e, registry.createActor d.1.display d.2 = .error (.data e)) := by
  refine Stops.foldlM (fun (made, failed) (k, definition) _ => ?_) _
  dsimp only
  split
  · rename_i h
    exact (passes_pure _).congr (by simp [h])
  · rename_i h
    exact ((passes_report _ _).bind fun _ => passes_pure _).congr (by simp [h])
  · rename_i e h
    exact (lift_stops _).congr (iff_of_true ⟨e, rfl⟩ ⟨e, h⟩)

theorem initialState_passes (tree : Tree) (initial : Value) : (initialState tree initial).Passes := by
  unfold initialState
  dsimp only
  split
  · exact (passes_report _ _).bind fun _ => passes_pure _
  · split
    · exact passes_pure _
    · exact (passes_report _ _).bind fun _ => passes_pure _

/-- The mapping under a field of a definition. -/
def entriesOf (es : Entries) (name : String) : Entries := ((Entries.lookup name es).getD .null).entries

theorem nodes_stops (registry : Registry) (config : Config) (es : Entries) (tree : Tree) :
    (nodes registry config es tree).Stops
      ((∃ d ∈ entriesOf es "actors", ∃ e, registry.createActor d.1.display d.2 = .error (.data e)) ∨
        ∃ s ∈ tree.states,
          Compile.Unforeseen registry config (entriesOf es "actors") s.definition) :=
  (buildActors_stops registry _).bind fun ⟨actors, failed⟩ =>
    (initialState_passes tree _).bind fun initial =>
      ((Stops.mapM fun s _ => Compile.state_stops _ s).bind fun _ => passes_pure _).congr
        (by rw [or_false]; rfl)

/-- The nodes of a compilation without errors, with its initial state, form a well-formed graph. -/
theorem wellFormed_of_nodes {registry : Registry} {config : Config} {es : Entries} {states : Nests}
    {formal : List Issue} {progress : Progress} {g : Graph}
    (h : (nodes registry config es (Tree.ofNests states)).run { issues := formal } =
      .ok ((some g.initial, g.states), progress))
    (hclean : Issue.errors progress.issues = []) : g.WellFormed := by
  obtain ⟨-, hnodes⟩ := nodes_meets registry config es _ _ _ _ h
  obtain ⟨-, ⟨id, hid, hhas⟩, ⟨c, hc, hns⟩, hids, hnd⟩ := hnodes hclean
  cases hid
  have hcalls : ((g.states.flatMap (·.invokes)).map (·.id)).Nodup := by
    have hnodup := hnd List.nodup_nil
    rwa [hids, List.nil_append, ← List.map_flatMap] at hnodup
  exact Compile.wellFormed_of_compiles hns (hc ▸ Tree.sound_ofNests states) (hc ▸ hhas) hcalls

end Definition

namespace Compile

open Schema

/-! ## 5. What the form spares a compilation -/

/-- The numbers of a configuration that stand in for those a retry policy leaves out. -/
structure BaseConverts (config : Config) : Prop where
  max : ∃ n, config.defaultRetryMax.toValue.asInt = .ok n
  backoff : ∃ x, config.defaultBackoffMs.toValue.asFloat = .ok x
  multiplier : ∃ x, config.defaultBackoffMultiplier.toValue.asFloat = .ok x

/-- What is looked up or converted without a check, and is of the right kind by its form. -/
structure Spared (registry : Registry) (config : Config) (es : Entries) : Prop where
  transform : ∀ direction, ∀ d ∈ descriptors direction es, ¬ BadTransform registry direction d
  retry : BaseConverts config → ∀ item ∈ asList ((Entries.lookup "invoke" es).getD .null),
    (item.getD "retry").isTruthy → ¬ BadRetry config (item.getD "retry")

/-- A transform that is named by a text, or not at all, can be looked up. -/
theorem not_badTransform {registry : Registry} {direction : Direction} {d : Value}
    (h : Fits optionalText (d.getD "transform")) : ¬ BadTransform registry direction d := by
  have hlooked : ∃ r, Binding.transformOf registry.transform? (d.getD "transform") = .ok r := by
    rcases h.nullable with hnull | htext
    · exact ⟨_, by rw [hnull]; rfl⟩
    · obtain ⟨s, hs⟩ := htext.text
      rw [hs, Binding.transformOf]
      split <;> exact ⟨_, rfl⟩
  obtain ⟨⟨transform, unknown⟩, hr⟩ := hlooked
  rintro ⟨e, he⟩
  rw [Binding.parse] at he
  split at he
  · rw [hr] at he
    simp only [bind, Except.bind] at he
    split at he <;> cases he
  · cases he

/-- A setting of a mapping that fits, or the number that stands in for it. -/
theorem setting_failsOnly {α : Type} {P : DataFault → Prop} {read : Value → Except DataFault α}
    {fields : List (String × Bool × Shape)} {shape : Shape} {es : Entries} {name : String}
    {required : Bool} {base : Value} (h : FieldsFit fields es)
    (hmem : (name, required, shape) ∈ fields) (hfits : ∀ v, Fits shape v → FailsOnly P (read v))
    (hbase : ∃ a, read base = .ok a) :
    FailsOnly (fun r => ∀ e, r = RetryError.bad e → P e)
      ((read ((Entries.lookup name es).getD base)).mapError .bad) := by
  refine FailsOnly.mapError (Q := P) ?_ fun e he e' heq => by cases heq; exact he
  cases hv : Entries.lookup name es with
  | none =>
    obtain ⟨a, ha⟩ := hbase
    exact ha ▸ FailsOnly.ok a
  | some v => exact hfits v (h.field hmem hv)

/-- A retry policy of the right form has its numbers, or a text in the place of one has a bad value. -/
theorem not_badRetry {config : Config} (hbase : BaseConverts config) {definition : Value}
    (h : Fits Schema.retry definition) : ¬ BadRetry config definition := by
  obtain ⟨es, rfl, hes⟩ := h.model
  have honly : FailsOnly (fun r => ∀ e, r = RetryError.bad e → e.faultClass = .value)
      (RetryPolicy.ofDefinition (.dict es) (RetryPolicy.ofConfig config)) := by
    unfold RetryPolicy.ofDefinition
    split
    · exact FailsOnly.ok _
    · refine (setting_failsOnly hes (List.mem_of_getElem? (i := 0) rfl) (fun v => asInt_of_fits)
        hbase.max).bind fun max => ?_
      refine (setting_failsOnly hes (List.mem_of_getElem? (i := 1) rfl) (fun v => asFloat_of_fits)
        hbase.backoff).bind fun backoff => ?_
      refine (setting_failsOnly hes (List.mem_of_getElem? (i := 2) rfl) (fun v => asFloat_of_fits)
        hbase.multiplier).bind fun multiplier => ?_
      -- what is left are comparisons, whose complaints are not about data
      unfold RetryPolicy.checked
      split
      · exact FailsOnly.error nofun
      · split
        · exact FailsOnly.error nofun
        · split
          · exact FailsOnly.error nofun
          · exact FailsOnly.ok _
  rintro ⟨e, he, hclass⟩
  exact hclass (honly _ he e rfl)

/-- The descriptors of bindings of the right form name their transforms by texts. -/
theorem transform_fits {es : Entries} (h : FieldsFit stateFields es) {direction : Direction} {d : Value}
    (hd : d ∈ descriptors direction es) : Fits optionalText (d.getD "transform") := by
  have hbinding : Fits (.nullable Schema.bindings) ((Entries.lookup "binding" es).getD .null) :=
    h.optional (List.mem_of_getElem? (i := 9) rfl)
  unfold descriptors at hd
  rcases hbinding.nullable with hnull | hbs
  · rw [hnull] at hd
    cases direction <;> exact nomatch hd
  · obtain ⟨bs, hbs, hfields⟩ := hbs.model
    rw [hbs] at hd
    have hitem : Fits (.model "BindingModel" [required "source" (.text true),
        required "target" (.text true), Schema.optional "transform" optionalText]) d := by
      cases direction with
      | input => exact hfields.items (List.mem_of_getElem? (i := 0) rfl) d hd
      | output => exact hfields.items (List.mem_of_getElem? (i := 1) rfl) d hd
    obtain ⟨ds, rfl, hds⟩ := hitem.model
    exact hds.optional (List.mem_of_getElem? (i := 2) rfl)

/-- **What the form spares a compilation**: transforms are named by texts, and a call's own retry policy
has numbers, or texts whose values are bad at worst. -/
theorem spared_of_fits (registry : Registry) (config : Config) {es : Entries}
    (h : FieldsFit stateFields es) : Spared registry config es where
  transform := fun _ _ hd => not_badTransform (transform_fits h hd)
  retry := by
    intro hbase item hitem hown
    have hinvoke : Fits (.nullable _) ((Entries.lookup "invoke" es).getD .null) :=
      h.optional (List.mem_of_getElem? (i := 11) rfl)
    obtain ⟨is, rfl, his⟩ := hinvoke.asList item hitem
    have hretry : Fits (.nullable Schema.retry) ((Value.dict is).getD "retry") :=
      his.optional (List.mem_of_getElem? (i := 4) rfl)
    rcases hretry.nullable with hnull | hfits
    · rw [hnull] at hown
      cases hown
    · exact not_badRetry hbase hfits

end Compile

namespace Definition

/-! ## 6. Compilations -/

/-- What a definition of the right form may hold that no check foresees. -/
inductive Unforeseen (registry : Registry) (config : Config) (es : Entries) (tree : Tree) : Prop
  /-- An actor cannot be made, and not because its definition is wrong. -/
  | actor (k : Key) (definition : Value) (e : DataFault) (hmem : (k, definition) ∈ entriesOf es "actors")
      (hbad : registry.createActor k.display definition = .error (.data e))
  | state (s : RawState) (hmem : s ∈ tree.states)
      (hbad : Compile.Unforeseen registry config (entriesOf es "actors") s.definition)
  /-- All references are right, and a template of the graph cannot be made out. -/
  | template (initial : String) (ns : List StateNode) (progress : Progress) (n : StateNode)
      (hrun : (nodes registry config es tree).run { issues := formalIssues es tree } =
        .ok ((some initial, ns), progress))
      (hclean : Issue.errors progress.issues = []) (hmem : n ∈ ns) (hbad : Analysis.Unreadable n)

/-- The compilation of a definition stops without a result. -/
def Stopped (registry : Registry) (config : Config) (source : FlowSource) : Prop :=
  ∃ es, source.definition = .dict es ∧
    isBlocked (formalIssues es (Tree.ofNests source.states)) = false ∧
    Unforeseen registry config es (Tree.ofNests source.states)

/-- With all references looked at, only the templates of the graph are left to stop a compilation. -/
theorem unforeseen_iff_of_nodes {registry : Registry} {config : Config} {es : Entries} {tree : Tree}
    {initial : Option String} {ns : List StateNode} {progress : Progress}
    (hrun : (nodes registry config es tree).run { issues := formalIssues es tree } =
      .ok ((initial, ns), progress)) :
    Unforeseen registry config es tree ↔
      initial.isSome ∧ Issue.errors progress.issues = [] ∧ ∃ n ∈ ns, Analysis.Unreadable n := by
  have hpassed := (nodes_stops registry config es tree { issues := formalIssues es tree }).mpr
  rw [hrun] at hpassed
  constructor
  · rintro (⟨k, definition, e, hmem, hbad⟩ | ⟨s, hmem, hbad⟩ | ⟨initial', ns', progress', n, hrun', hclean,
      hmem, hbad⟩)
    · exact nomatch hpassed (.inl ⟨_, hmem, e, hbad⟩)
    · exact nomatch hpassed (.inr ⟨s, hmem, hbad⟩)
    · cases hrun.symm.trans hrun'
      exact ⟨rfl, hclean, n, hmem, hbad⟩
  · rintro ⟨hinitial, hclean, n, hmem, hbad⟩
    obtain ⟨id, rfl⟩ := Option.isSome_iff_exists.mp hinitial
    exact .template id ns progress n hrun hclean hmem hbad

/-- **What stops a compilation.** -/
theorem run_fails_iff (registry : Registry) (config : Config) (source : FlowSource) :
    (∃ e, run registry config source = .error e) ↔ Stopped registry config source := by
  unfold run Stopped
  split
  · rename_i es hes
    simp only [hes, Value.dict.injEq, exists_eq_left']
    cases hblocked : isBlocked (formalIssues es (Tree.ofNests source.states)) with
    | true => exact iff_of_false (by rintro ⟨_, ⟨⟩⟩) (by rintro ⟨⟨⟩, -⟩)
    | false =>
      simp only [true_and, Bool.false_eq_true, if_false]
      cases hrun : (nodes registry config es (Tree.ofNests source.states)).run
          { issues := formalIssues es (Tree.ofNests source.states) } with
      | error e =>
        refine iff_of_true ⟨e, rfl⟩ ?_
        rcases (nodes_stops registry config es _ _).mp ⟨e, hrun⟩ with ⟨⟨k, d⟩, hmem, e', hbad⟩ | ⟨s, hmem, hbad⟩
        · exact .actor k d e' hmem hbad
        · exact .state s hmem hbad
      | ok r =>
        obtain ⟨⟨initial, ns⟩, progress⟩ := r
        rw [unforeseen_iff_of_nodes hrun]
        cases initial with
        | none => exact iff_of_false (by rintro ⟨_, ⟨⟩⟩) (by rintro ⟨⟨⟩, -⟩)
        | some initial =>
          simp only [bind, Except.bind]
          by_cases hclean : Issue.errors progress.issues = []
          · simp only [hclean, List.isEmpty_nil, Bool.not_true, Bool.false_eq_true, if_false,
              Option.isSome_some, true_and]
            have wf : Graph.WellFormed ⟨flowId (.dict es), initial, .dict (entriesOf es "context"), ns⟩ :=
              wellFormed_of_nodes hrun hclean
            exact (map_fails_iff _).trans (Analysis.analysed_fails_iff wf _)
          · have herrors : (Issue.errors progress.issues).isEmpty = false := by simpa using hclean
            simp only [herrors, Bool.not_false, if_true]
            exact iff_of_false (by rintro ⟨_, ⟨⟩⟩) fun h => hclean h.2.1
  · rename_i hno
    refine iff_of_false (by rintro ⟨_, ⟨⟩⟩) ?_
    rintro ⟨es, hes, -⟩
    exact hno es hes

/-- A timer actor with a word for a retry policy, and a call that has none of its own. -/
def napping : Value :=
  .record [("initial", .text "a"),
    ("actors", .record [("nap", .record [("type", .text "timer"), ("retry", .text "often")])]),
    ("states", .record [("a", .record [
      ("binding", .record [("inputs", .list [.record [("source", .text "url_query.q"),
        ("target", .text "context.q"), ("transform", .text "trim")]])]),
      ("invoke", .record [("src", .text "nap")])])])]

end Definition

end Statechart
