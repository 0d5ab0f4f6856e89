/-
# What is said about references

A definition refers to actions, guards, states, actors and places in stores, and uses operators in its
expressions.  Each reference can be looked at on its own: it stands for something, or there is a
problem with it (`Compile.Reference.problems`).  This file says that a compilation looks at all of them,
whatever it has found before, and reports what is wrong with each in the order in which they are
written, **neither less nor more**, with one exception: among the rules of a state it stops at the first
one that uses an unknown operator.

* `Build.Files`: the issues about references that a step adds, with rules for composed steps;
* `Compile.references`, `Compile.heeded`: all references of a state, and the rules that are looked at;
* `Compile.state_files`: what compiling a state says about its references;
* `Definition.filed_of_run`: so much is said of a whole definition, and nothing but what flattening says
  of nested states that are left out (`Definition.omissions_of_run`);
* **`Definition.reference_issues_of_validateSource`**: and it is said whatever else is wrong.
-/
import Statechart.Proofs.Reachability
import Statechart.Proofs.Stop
import Statechart.Proofs.Written
import Mathlib.Data.List.Flatten
import Mathlib.Data.List.TakeDrop

namespace Statechart

/-- A problem with something that a definition refers to. -/
def Problem.isReference : Problem → Bool
  | unknownTarget .. | guardRef .. | actionRef _ | binding .. | computedField _ | unknownOperators ..
  | actorRef .. | unknownActor _ => true
  | _ => false

theorem Problem.isFatal_of_isReference {p : Problem} (h : p.isReference = true) : p.isFatal = true := by
  cases p <;> first | rfl | cases h

theorem Problem.not_isOmission_of_isReference {p : Problem} (h : p.isReference = true) : Tree.isOmission p = false := by
  cases p <;> first | rfl | cases h

namespace Issue

/-- The issues about references, in order. -/
def ofReferences (is : List Issue) : List Issue := is.filter (·.problem.isReference)

/-- The issues about nested states that are left out, in order. -/
def ofOmissions (is : List Issue) : List Issue := is.filter fun i => Tree.isOmission i.problem

/-- Problems that belong to a state. -/
def within (id : String) (ps : List Problem) : List Issue := ps.map (⟨·, some id⟩)

@[simp] theorem ofReferences_append (is js : List Issue) :
    ofReferences (is ++ js) = ofReferences is ++ ofReferences js := List.filter_append is js

@[simp] theorem ofOmissions_append (is js : List Issue) :
    ofOmissions (is ++ js) = ofOmissions is ++ ofOmissions js := List.filter_append is js

end Issue

namespace Build

open Issue

variable {α β : Type} {is js : List Issue}

/-! ## 1. Issues that are filed -/

/-- A step that goes on only adds issues; those about references are the given ones, and none is about a
nested state. -/
def Files (x : Build α) (is : List Issue) : Prop :=
  ∀ p a p', x.run p = .ok (a, p') →
    ∃ more, p'.issues = p.issues ++ more ∧ ofReferences more = is ∧ ofOmissions more = []

theorem Files.congr {x : Build α} (h : x.Files is) (heq : is = js) : x.Files js := heq ▸ h

theorem files_pure (a : α) : Files (pure a : Build α) [] := by
  intro p b p' hx
  cases hx
  exact ⟨[], (List.append_nil _).symm, rfl, rfl⟩

theorem files_lift (r : Except DataFault α) : (lift r).Files [] := by
  intro p a p' hx
  cases r with
  | error e => cases hx
  | ok b =>
    cases hx
    exact ⟨[], (List.append_nil _).symm, rfl, rfl⟩

/-- A problem with a reference is filed. -/
theorem files_report {p : Problem} (id : Option String) (h : p.isReference = true) :
    (report p id).Files [⟨p, id⟩] := by
  intro s a s' hx
  cases hx
  exact ⟨[⟨p, id⟩], rfl, by simp [ofReferences, h],
    by simp [ofOmissions, Problem.not_isOmission_of_isReference h]⟩

/-- Another one is not. -/
theorem files_aside {p : Problem} (id : Option String) (h : p.isReference = false)
    (homission : Tree.isOmission p = false) : (report p id).Files [] := by
  intro s a s' hx
  cases hx
  exact ⟨[⟨p, id⟩], rfl, by simp [ofReferences, h], by simp [ofOmissions, homission]⟩

/-- **One step after another** files what both file. -/
theorem Files.bind {x : Build α} {f : α → Build β} (hx : x.Files is) (hf : ∀ a, (f a).Files js) :
    (x >>= f).Files (is ++ js) := by
  intro p b p' h
  rw [StateT.run_bind] at h
  obtain ⟨⟨a, p₁⟩, hrun, h⟩ := bind_eq_ok.mp h
  obtain ⟨more, hmore, rfl, hnone⟩ := hx p a p₁ hrun
  obtain ⟨more', hmore', rfl, hnone'⟩ := hf a p₁ b p' h
  exact ⟨more ++ more', by rw [hmore', hmore, List.append_assoc], ofReferences_append more more',
    by rw [ofOmissions_append, hnone, hnone', List.append_nil]⟩

/-- A last step that arranges what there is. -/
theorem Files.arranged {x : Build α} {f : α → Build β} (hx : x.Files is) (hf : ∀ a, (f a).Files []) :
    (x >>= f).Files is :=
  (hx.bind hf).congr (List.append_nil is)

/-- A first step that says nothing about references. -/
theorem Files.silently {x : Build α} {f : α → Build β} (hx : x.Files []) (hf : ∀ a, (f a).Files is) :
    (x >>= f).Files is := hx.bind hf

theorem Files.mapM {f : α → Build β} {g : α → List Issue} {xs : List α}
    (h : ∀ x ∈ xs, (f x).Files (g x)) : (xs.mapM f).Files (xs.flatMap g) := by
  induction xs with
  | nil => exact files_pure _
  | cons x xs ih =>
    rw [List.mapM_cons, List.flatMap_cons]
    exact (h x (by simp)).bind fun _ => (ih fun y hy => h y (by simp [hy])).arranged fun _ =>
      files_pure _

theorem Files.forM {f : α → Build Unit} {g : α → List Issue} {xs : List α}
    (h : ∀ x ∈ xs, (f x).Files (g x)) : (xs.forM f).Files (xs.flatMap g) := by
  induction xs with
  | nil => exact files_pure _
  | cons x xs ih =>
    rw [List.flatMap_cons]
    exact (h x (by simp)).bind fun _ => ih fun y hy => h y (by simp [hy])

theorem Files.foldlM {f : β → α → Build β} {g : α → List Issue} {xs : List α}
    (h : ∀ b, ∀ x ∈ xs, (f b x).Files (g x)) (b : β) : (xs.foldlM f b).Files (xs.flatMap g) := by
  induction xs generalizing b with
  | nil => exact files_pure _
  | cons x xs ih =>
    rw [List.foldlM_cons, List.flatMap_cons]
    exact (h b x (by simp)).bind fun b' => ih (fun b y hy => h b y (by simp [hy])) b'

end Build

namespace Compile

open Build Issue

/-! ## 2. References -/

/-- Something that a state refers to. -/
inductive Reference where
  | action (ref : Value)
  | guard (ref : Value)
  | target (event : String) (name : Value)
  | source (src : String)
  | binding (direction : Direction) (descriptor : Value)
  | computed (item : Value)
  | rule (item : Value)

/-- The operators of an expression that do not exist. -/
def operatorProblems (label : String) (expression : Value) : List Problem :=
  match distinctSorted (unknownOperators expression) with
  | [] => []
  | names => [.unknownOperators label names]

theorem operatorProblems_of_unknown {label name : String} {expression : Value}
    (h : unknownOperators expression = [name]) :
    operatorProblems label expression = [.unknownOperators label [name]] := by
  rw [operatorProblems, h, distinctSorted, List.mergeSort_singleton]
  rfl

/-- What is wrong with a field that is computed: the place it is stored in, or else its expression. -/
def computedProblems (item : Value) : List Problem :=
  let name := (item.getD "field").display
  match contextField name with
  | .error e => [.computedField e]
  | .ok _ => operatorProblems ("Computed field '" ++ name ++ "'") (item.getD "expression")

/-- What is wrong with a rule. -/
def ruleProblems (item : Value) : List Problem :=
  operatorProblems ("Validation rule for '" ++ (item.getD "field").display ++ "'")
    (item.getD "expression")

namespace Reference

/-- What is wrong with a reference in a state, seen by itself. An actor that the flow defines is known,
also one that could not be made, which is reported where it is defined. -/
def problems (c : Setting) (id : String) : Reference → List Problem
  | action ref =>
    match Action.bind c.actions c.registry.action? ref with
    | .ok _ => []
    | .error e => [.actionRef e]
  | guard ref =>
    match Guard.resolve c.guards c.registry.guard? ref with
    | .ok _ => []
    | .error e => [.guardRef ref e]
  | target event name =>
    if (c.tree.resolve? id name.display).isSome then [] else [.unknownTarget event name]
  | source src =>
    if c.actorDefinitions.any (·.1.display = src) || (c.registry.actor? src).isSome then []
    else [.unknownActor src]
  | binding direction descriptor =>
    match Binding.parse c.registry.transform? direction descriptor with
    | .error (.problems ps) => ps.map (.binding direction)
    | _ => []
  | computed item => computedProblems item
  | rule item => ruleProblems item

/-- What is wrong with references of a state. -/
def complaints (c : Setting) (id : String) (rs : List Reference) : List Issue :=
  rs.flatMap fun r => within id (r.problems c id)

theorem complaints_append (c : Setting) (id : String) (rs qs : List Reference) :
    complaints c id (rs ++ qs) = complaints c id rs ++ complaints c id qs := List.flatMap_append

theorem complaints_cons (c : Setting) (id : String) (r : Reference) (rs : List Reference) :
    complaints c id (r :: rs) = within id (r.problems c id) ++ complaints c id rs := List.flatMap_cons

@[simp] theorem complaints_singleton (c : Setting) (id : String) (r : Reference) :
    complaints c id [r] = within id (r.problems c id) := List.flatMap_singleton _ r

theorem complaints_map {α : Type} (c : Setting) (id : String) (f : α → Reference) (xs : List α) :
    complaints c id (xs.map f) = xs.flatMap fun x => within id ((f x).problems c id) := by
  rw [complaints, List.flatMap_map]

theorem complaints_flatMap {α : Type} (c : Setting) (id : String) (f : α → List Reference)
    (xs : List α) : complaints c id (xs.flatMap f) = xs.flatMap fun x => complaints c id (f x) :=
  List.flatMap_assoc

/-! ## 3. Where references are written -/

/-- The target of a candidate, unless it is null. -/
def ofTarget (event : String) (item : Value) : List Reference :=
  match (Entries.lookup "target" (candidateFields item)).getD .null with
  | .null => []
  | v => [target event v]

/-- The guard of a candidate, unless it is null. -/
def ofGuard (item : Value) : List Reference :=
  match guardRef item with
  | .null => []
  | ref => [guard ref]

/-- What a candidate refers to. -/
def ofCandidate (event : String) (item : Value) : List Reference :=
  ofTarget event item ++ ofGuard item ++
    (asList ((Entries.lookup "actions" (candidateFields item)).getD .null)).map action

/-- What is referred to under an event. -/
def ofCandidates (event : String) (config : Value) : List Reference :=
  (asList config).flatMap (ofCandidate event)

/-- What is referred to under `on`. -/
def ofEvents (on : Entries) : List Reference :=
  on.flatMap fun (event, config) => ofCandidates event.display config

/-- What is referred to under `after`. -/
def ofTimers (id : String) (after : Value) : List Reference :=
  match delays after with
  | .ok entries => entries.zipIdx.flatMap fun ((delay, config), index) =>
      ofCandidates (timerEvent id delay index) config
  | .error _ => []

/-- The actions that a call asks for by saying where its result is to be stored. -/
def storing (item : Value) : List Value :=
  let mapping := item.getD "mapResult"
  let target := item.getD "assignTo"
  (if mapping.isTruthy then [.record [("type", .text "mapResult"), ("mapping", mapping)]] else []) ++
    if target.isTruthy then [.record [("type", .text "assignResult"), ("target", target)]] else []

/-- What a call refers to. -/
def ofCall (id : String) : Value × Nat → List Reference
  | (item, index) =>
    let invokeId := invokeIdOf id index item
    source (item.getD "src").display :: (storing item).map action ++
      ofCandidates (Invocation.doneEventOf invokeId) (item.getD "onDone") ++
      ofCandidates (Invocation.errorEventOf invokeId) (item.getD "onError")

/-- What is referred to under `invoke`. -/
def ofCalls (id : String) (invoke : Value) : List Reference :=
  (asList invoke).zipIdx.flatMap (ofCall id)

end Reference

/-- The rules of a state. -/
def rulesOf (es : Entries) : List Value :=
  (((Entries.lookup "logic" es).getD .null).getD "validations").items

/-- The rules that are looked at: the first one that uses an unknown operator is the last. -/
def heeded : List Value → List Value
  | [] => []
  | rule :: rest => rule :: if (ruleProblems rule).isEmpty then heeded rest else []

/-- The action that applies rules, if there are any and nothing is wrong with them. -/
def applying (rules : List Value) : List Value :=
  if rules.isEmpty || !(rules.all (ruleProblems · |>.isEmpty)) then []
  else [.record [("type", .text "validateWithRules"), ("rules", .list rules)]]

/-- What a state refers to, with the given ones among its rules. -/
def referencesWith (rules : List Value) (id : String) (es : Entries) : List Reference :=
  let field := fun name => (Entries.lookup name es).getD .null
  let lifecycle := field "lifecycle"
  ((lifecycle.getD "onEnter").items ++ asList (field "entry")).map .action ++
  ((lifecycle.getD "onExit").items ++ asList (field "exit")).map .action ++
  (descriptors .input es).map (.binding .input) ++ (descriptors .output es).map (.binding .output) ++
  ((field "logic").getD "computed").items.map .computed ++
  rules.map .rule ++ (applying (rulesOf es)).map .action ++
  Reference.ofEvents (field "on").entries ++ Reference.ofTimers id (field "after") ++
  Reference.ofCalls id (field "invoke")

/-- All that a state refers to. -/
def references (id : String) (es : Entries) : List Reference := referencesWith (rulesOf es) id es

/-- What a state refers to and its compilation looks at. -/
def heededReferences (id : String) (es : Entries) : List Reference :=
  referencesWith (heeded (rulesOf es)) id es

/-- The actors that could be made and those that could not are the ones that the flow defines. -/
def KnowsActors (c : Setting) : Prop :=
  ∀ src, c.actorDefinitions.any (·.1.display = src) =
    ((c.actors.lookup src).isSome || c.failedActors.contains src)

variable (c : Setting) (id : String)

/-! ## 4. What compiling a state says -/

theorem bindAction_files (ref : Value) :
    (bindAction c id ref).Files (within id ((Reference.action ref).problems c id)) := by
  unfold bindAction Reference.problems
  split
  · rename_i h
    exact (files_pure _).congr (by simp [h, within])
  · rename_i h
    exact ((files_report _ rfl).arranged fun _ => files_pure _).congr (by simp [h, within])

theorem bindActions_files (refs : List Value) :
    (bindActions c id refs).Files (Reference.complaints c id (refs.map .action)) :=
  ((Files.mapM fun ref _ => bindAction_files c id ref).arranged fun _ => files_pure _).congr
    (Reference.complaints_map c id _ refs).symm

theorem parseGuard_files (ref : Value) :
    (parseGuard c id ref).Files (within id ((Reference.guard ref).problems c id)) := by
  unfold parseGuard Reference.problems
  split
  · rename_i h
    exact (files_pure _).congr (by simp [h, within])
  · rename_i h
    exact ((files_report _ rfl).arranged fun _ => files_pure _).congr (by simp [h, within])

theorem bindingOf_files (direction : Direction) (descriptor : Value) :
    (bindingOf c id direction descriptor).Files
      (within id ((Reference.binding direction descriptor).problems c id)) := by
  unfold bindingOf Reference.problems
  split
  · rename_i h
    exact (files_pure _).congr (by simp [h, within])
  · rename_i ps h
    refine ((Files.forM fun p _ => files_report (some id) rfl).arranged fun _ => files_pure _).congr ?_
    rw [← List.map_eq_flatMap]
    simp [h, within]
  · rename_i h
    exact (files_lift _).congr (by simp [h, within])

theorem bindingsOf_files (direction : Direction) (ds : List Value) :
    (bindingsOf c id direction ds).Files (Reference.complaints c id (ds.map (.binding direction))) :=
  ((Files.mapM fun d _ => bindingOf_files c id direction d).arranged fun _ => files_pure _).congr
    (Reference.complaints_map c id _ ds).symm

/-- An expression is reported for the operators in it that do not exist. -/
theorem checkExpression_files (label : String) (expression : Value) :
    (checkExpression id label expression).Files (within id (operatorProblems label expression)) := by
  unfold checkExpression operatorProblems
  cases distinctSorted (unknownOperators expression) with
  | nil => exact files_pure _
  | cons name names => exact (files_report _ rfl).arranged fun _ => files_pure _

theorem computedField_files (item : Value) :
    (computedField id item).Files (within id (computedProblems item)) := by
  unfold computedField computedProblems
  dsimp only
  cases contextField (item.getD "field").display with
  | error e => exact (files_report _ rfl).arranged fun _ => files_pure _
  | ok field =>
    refine (checkExpression_files id _ _).arranged fun ok => ?_
    cases ok <;> exact files_pure _

theorem computedFields_files (items : List Value) :
    (computedFields id items).Files (Reference.complaints c id (items.map .computed)) :=
  ((Files.mapM fun item _ => computedField_files id item).arranged fun _ => files_pure _).congr
    (Reference.complaints_map c id .computed items).symm

/-- Rules are looked at until one is reported, and whether one has been is known in the end. -/
theorem checkRules_files {α : Type} {k : Bool → Build α} {is : List Issue} (rules : List Value)
    (hk : (k (rules.all fun rule => (ruleProblems rule).isEmpty)).Files is) :
    (checkRules id rules >>= k).Files
      (Reference.complaints c id ((heeded rules).map .rule) ++ is) := by
  induction rules with
  | nil => exact hk
  | cons rule rules ih =>
    rw [heeded, List.map_cons, Reference.complaints_cons, List.append_assoc, checkRules, checkExpression]
    rw [List.all_cons] at hk
    simp only [Reference.problems]
    cases hops : distinctSorted (unknownOperators (rule.getD "expression")) with
    | nil =>
      have hnone : ruleProblems rule = [] := by rw [ruleProblems, operatorProblems, hops]
      rw [hnone] at hk ⊢
      exact ih hk
    | cons name names =>
      have hsome : ruleProblems rule = [.unknownOperators
          ("Validation rule for '" ++ (rule.getD "field").display ++ "'") (name :: names)] := by
        rw [ruleProblems, operatorProblems, hops]
      rw [hsome] at hk ⊢
      exact (files_report (some id) rfl).bind fun _ => hk

theorem validations_files (rules : List Value) :
    (validations c id rules).Files
      (Reference.complaints c id ((heeded rules).map .rule ++ (applying rules).map .action)) := by
  rw [Reference.complaints_append, validations, applying]
  cases hempty : rules.isEmpty with
  | true =>
    rw [List.isEmpty_iff] at hempty
    subst hempty
    exact files_pure _
  | false =>
    simp only [Bool.false_eq_true, if_false, Bool.false_or]
    refine checkRules_files c id rules ?_
    cases rules.all fun rule => (ruleProblems rule).isEmpty with
    | false => exact files_pure _
    | true => exact (bindAction_files c id _).congr (Reference.complaints_singleton c id _).symm

theorem target_files (event : String) (v : Value) :
    Files (match c.tree.resolve? id v.display with
      | some t => return some t
      | none => do
        Build.report (.unknownTarget event v) id
        return none) (Reference.complaints c id [.target event v]) := by
  rw [Reference.complaints_singleton, Reference.problems]
  cases c.tree.resolve? id v.display with
  | some t => exact files_pure _
  | none => exact (files_report (some id) rfl).arranged fun _ => files_pure _

theorem targetOf_files (event : String) (item : Value) :
    (targetOf c id event ((Entries.lookup "target" (candidateFields item)).getD .null)).Files
      (Reference.complaints c id (Reference.ofTarget event item)) := by
  unfold targetOf Reference.ofTarget
  cases (Entries.lookup "target" (candidateFields item)).getD .null with
  | null => exact files_pure _
  | _ => exact target_files c id event _

theorem guardOf_files (item : Value) :
    (guardOf c id (guardRef item)).Files (Reference.complaints c id (Reference.ofGuard item)) := by
  unfold guardOf Reference.ofGuard
  cases guardRef item with
  | null => exact files_pure _
  | _ => exact (parseGuard_files c id _).congr (Reference.complaints_singleton c id _).symm

theorem candidate_files (event : String) (first : List BoundAction) (item : Value) :
    (candidate c id event first item).Files
      (Reference.complaints c id (Reference.ofCandidate event item)) := by
  rw [Reference.ofCandidate, Reference.complaints_append, Reference.complaints_append, List.append_assoc]
  exact (targetOf_files c id event item).bind fun _ => (guardOf_files c id item).bind fun _ =>
    (bindActions_files c id _).arranged fun _ => files_pure _

theorem candidates_files (event : String) (first : List BoundAction) (config : Value) :
    (candidates c id event first config).Files
      (Reference.complaints c id (Reference.ofCandidates event config)) :=
  (Files.mapM fun item _ => candidate_files c id event first item).congr
    (Reference.complaints_flatMap c id _ _).symm

theorem namedTransitions_files (on : Entries) :
    (namedTransitions c id on).Files (Reference.complaints c id (Reference.ofEvents on)) :=
  (Files.foldlM (fun _ e _ => (candidates_files c id e.1.display [] e.2).arranged fun _ => files_pure _)
    []).congr (Reference.complaints_flatMap c id _ _).symm

theorem timers_files (after : Value) (ts : Transitions) :
    (timers c id after ts).Files (Reference.complaints c id (Reference.ofTimers id after)) := by
  unfold timers Reference.ofTimers
  cases delays after with
  | error e =>
    intro p r p' h
    cases h
  | ok entries =>
    have hlift : lift (.ok entries) = (pure entries : Build (List (Int × Value))) := rfl
    rw [hlift, pure_bind]
    exact (Files.foldlM (fun _ e _ => (candidates_files c id _ [] e.1.2).arranged fun _ => files_pure _)
      _).congr (Reference.complaints_flatMap c id _ _).symm

/-- An actor that is not known is reported, unless its definition has been. -/
theorem resolveActor_files (hactors : KnowsActors c) (src : String) :
    (resolveActor c id src).Files (within id ((Reference.source src).problems c id)) := by
  rw [resolveActor, Reference.problems, hactors src]
  cases c.actors.lookup src with
  | some a => exact files_pure _
  | none =>
    cases c.failedActors.contains src with
    | true => exact files_pure _
    | false =>
      cases c.registry.actor? src with
      | some a => exact files_pure _
      | none => exact (files_report (some id) rfl).arranged fun _ => files_pure _

theorem retryPolicy_files (invokeId : String) (definition : Value) :
    (retryPolicy c id invokeId definition).Files [] := by
  unfold retryPolicy
  dsimp only
  split
  · exact files_pure _
  · split
    · exact (files_aside _ rfl rfl).silently fun _ => files_pure _
    · exact files_lift _
  · exact (files_aside _ rfl rfl).silently fun _ => files_pure _

theorem doneCandidates_files (event : String) (results : List BoundAction) (config : Value) :
    (doneCandidates c id event results config).Files
      (Reference.complaints c id (Reference.ofCandidates event config)) := by
  unfold doneCandidates
  cases config with
  | null => exact files_pure _
  | _ => exact candidates_files c id event results _

theorem withErrorHandler_files (invokeId : String) (config : Value) (ts : Transitions) :
    (withErrorHandler c id invokeId config ts).Files
      (Reference.complaints c id (Reference.ofCandidates (Invocation.errorEventOf invokeId) config)) := by
  unfold withErrorHandler
  cases config with
  | null => exact (files_aside _ rfl rfl).silently fun _ => files_pure _
  | _ => exact (candidates_files c id _ [] _).arranged fun _ => files_pure _

theorem takeInvokeId_files (invokeId : String) : (takeInvokeId id invokeId).Files [] := by
  have hget : Files (get : Build Progress) [] := by
    intro p s p' hx
    cases hx
    exact ⟨[], (List.append_nil _).symm, rfl, rfl⟩
  have htake : Files (modify fun s => { s with invokeIds := s.invokeIds ++ [invokeId] }) [] := by
    intro p u p' hx
    cases hx
    exact ⟨[], (List.append_nil _).symm, rfl, rfl⟩
  refine hget.silently fun s => ?_
  dsimp only
  split
  · exact (files_aside _ rfl rfl).silently fun _ => htake
  · exact htake

theorem invocation_files (hactors : KnowsActors c) (index : Nat) (item : Value) (ts : Transitions) :
    (invocation c id index item ts).Files
      (Reference.complaints c id (Reference.ofCall id (item, index))) := by
  rw [Reference.ofCall, Reference.complaints_append, Reference.complaints_append,
    Reference.complaints_cons, List.append_assoc, List.append_assoc]
  exact (takeInvokeId_files id _).silently fun _ => (resolveActor_files c id hactors _).bind fun _ =>
    (retryPolicy_files c id _ _).silently fun _ => (bindActions_files c id (Reference.storing item)).bind
      fun _ => (doneCandidates_files c id _ _ _).bind fun _ =>
        (withErrorHandler_files c id _ _ _).arranged fun _ => files_pure _

theorem invocations_files (hactors : KnowsActors c) (invoke : Value) (ts : Transitions) :
    (invocations c id invoke ts).Files (Reference.complaints c id (Reference.ofCalls id invoke)) :=
  (Files.foldlM (fun _ x _ => (invocation_files c id hactors x.2 x.1 _).arranged fun _ => files_pure _)
    _).congr (Reference.complaints_flatMap c id _ _).symm

theorem kindOf_files (s : RawState) : (kindOf s).Files [] := by
  unfold kindOf
  dsimp only
  split
  · exact files_pure _
  · split
    · refine (files_aside _ rfl rfl).silently fun _ => ?_
      split
      · exact (files_aside _ rfl rfl).silently fun _ => files_pure _
      · exact files_pure _
    · split
      · exact (files_aside _ rfl rfl).silently fun _ => files_pure _
      · exact files_pure _

theorem initialChild_files (s : RawState) (kind : StateKind) : (initialChild s kind).Files [] := by
  unfold initialChild
  split
  · split
    · exact (files_aside _ rfl rfl).silently fun _ => files_pure _
    · dsimp only
      split
      · exact files_pure _
      · exact (files_aside _ rfl rfl).silently fun _ => files_pure _
  · exact files_pure _

/-- **What compiling a state says about its references.** -/
theorem state_files (hactors : KnowsActors c) (s : RawState) :
    (state c s).Files (Reference.complaints c s.id (heededReferences s.id s.definition)) := by
  simp only [heededReferences, referencesWith, Reference.complaints_append, List.append_assoc]
  refine (kindOf_files s).silently fun kind => (bindActions_files c s.id _).bind fun entry =>
    (bindActions_files c s.id _).bind fun exit => (bindingsOf_files c s.id _ _).bind fun inputs =>
      (bindingsOf_files c s.id _ _).bind fun outputs => (computedFields_files c s.id _).bind fun computed => ?_
  rw [← List.append_assoc, ← Reference.complaints_append]
  refine (validations_files c s.id _).bind fun validations => (namedTransitions_files c s.id _).bind
    fun ts => (timers_files c s.id _ ts).bind fun ⟨after, ts'⟩ =>
      (invocations_files c s.id hactors _ ts').arranged fun ⟨invokes, ts''⟩ => ?_
  dsimp only
  split
  · exact (files_aside _ rfl rfl).silently fun _ => (initialChild_files s kind).silently fun _ => files_pure _
  · exact (initialChild_files s kind).silently fun _ => files_pure _

/-! ## 5. Rules that are not looked at -/

/-- An expression has one problem at most. -/
theorem length_ruleProblems (rule : Value) : (ruleProblems rule).length ≤ 1 := by
  unfold ruleProblems operatorProblems
  split
  · exact Nat.zero_le 1
  · exact le_rfl

/-- **Of the problems of rules, the first is reported.** -/
theorem flatMap_heeded (rules : List Value) :
    (heeded rules).flatMap ruleProblems = (rules.flatMap ruleProblems).take 1 := by
  induction rules with
  | nil => rfl
  | cons rule rules ih =>
    have hone := length_ruleProblems rule
    rw [heeded, List.flatMap_cons, List.flatMap_cons]
    cases hp : ruleProblems rule with
    | nil => exact ih
    | cons p ps =>
      have hps : ps = [] := by simpa [hp] using hone
      simp [hps]

theorem complaints_rules (rules : List Value) :
    Reference.complaints c id (rules.map .rule) = within id (rules.flatMap ruleProblems) := by
  rw [Reference.complaints_map, within, List.map_flatMap]
  rfl

theorem complaints_heeded_sublist (es : Entries) :
    (Reference.complaints c id (heededReferences id es)).Sublist
      (Reference.complaints c id (references id es)) := by
  simp only [heededReferences, references, referencesWith, Reference.complaints_append,
    complaints_rules, flatMap_heeded]
  have hrules := (List.take_sublist 1 ((rulesOf es).flatMap ruleProblems)).map (⟨·, some id⟩ : Problem → Issue)
  iterate 4 refine List.Sublist.append ?_ (.refl _)
  exact (List.Sublist.refl _).append hrules

/-- All that is wrong with the references of a state is said if it has at most one bad rule. -/
theorem complaints_heeded_iff (es : Entries) :
    Reference.complaints c id (heededReferences id es) = Reference.complaints c id (references id es) ↔
      ((rulesOf es).flatMap ruleProblems).length ≤ 1 := by
  have hinjective : Function.Injective (⟨·, some id⟩ : Problem → Issue) := fun p q h => by cases h; rfl
  simp only [heededReferences, references, referencesWith, Reference.complaints_append,
    complaints_rules, flatMap_heeded, List.append_cancel_right_eq, List.append_cancel_left_eq, within,
    hinjective.list_map.eq_iff, List.take_eq_self_iff]

end Compile

namespace Definition

open Build Issue Compile

/-! ## 6. What a compilation says -/

/-- What is wrong with the definitions of actors. -/
def actorComplaints (registry : Registry) (definitions : Entries) : List Issue :=
  definitions.flatMap fun d =>
    match registry.createActor d.1.display d.2 with
    | .error (.reference e) => [⟨.actorRef d.1.display e, none⟩]
    | _ => []

theorem buildActors_files (registry : Registry) (definitions : Entries) :
    (buildActors registry definitions).Files (actorComplaints registry definitions) := by
  refine Files.foldlM (fun (made, failed) (k, definition) _ => ?_) _
  dsimp only
  cases registry.createActor k.display definition with
  | ok a => exact files_pure _
  | error e =>
    cases e with
    | reference e => exact (files_report _ rfl).arranged fun _ => files_pure _
    | data e => exact files_lift _

/-- The actors that are known by name: those that have been made and those that have failed. -/
def knows (r : Catalogue Actor × List String) (src : String) : Bool :=
  (r.1.lookup src).isSome || r.2.contains src

theorem knows_made (made : Catalogue Actor) (failed : List String) (name : String) (a : Actor)
    (src : String) :
    knows (made ++ [(name, a)], failed) src = (knows (made, failed) src || decide (name = src)) := by
  have hlast : (List.lookup src [(name, a)]).isSome = decide (name = src) := by
    by_cases h : name = src
    · simp [h]
    · have hne : (src == name) = false := by simpa using Ne.symm h
      simp [List.lookup_cons, hne, h]
  simp only [knows, List.lookup_append, Option.isSome_or, hlast]
  rw [Bool.or_assoc, Bool.or_assoc, Bool.or_comm (decide _)]

theorem knows_failed (made : Catalogue Actor) (failed : List String) (name src : String) :
    knows (made, failed ++ [name]) src = (knows (made, failed) src || decide (name = src)) := by
  simp [knows, Bool.or_assoc, eq_comm]

/-- What is known after all definitions if each of them makes its own name known. -/
theorem knows_of_foldlM {f : Catalogue Actor × List String → Key × Value →
    Build (Catalogue Actor × List String)} (src : String)
    (hf : ∀ r d p r' p', (f r d).run p = .ok (r', p') →
      knows r' src = (knows r src || decide (d.1.display = src)))
    {definitions : Entries} {r r' : Catalogue Actor × List String} {p p' : Progress}
    (h : (definitions.foldlM f r).run p = .ok (r', p')) :
    knows r' src = (knows r src || definitions.any (·.1.display = src)) := by
  induction definitions generalizing r p with
  | nil =>
    cases h
    simp
  | cons d definitions ih =>
    rw [List.foldlM_cons, StateT.run_bind] at h
    obtain ⟨⟨r₁, p₁⟩, hstep, h⟩ := bind_eq_ok.mp h
    rw [ih h, List.any_cons, ← Bool.or_assoc, hf r d p r₁ p₁ hstep]

/-- Each actor that is defined has been made or has failed. -/
theorem knows_of_buildActors {registry : Registry} {definitions : Entries} {p p' : Progress}
    {r : Catalogue Actor × List String}
    (h : (buildActors registry definitions).run p = .ok (r, p')) (src : String) :
    definitions.any (·.1.display = src) = knows r src := by
  have hknows := knows_of_foldlM src (fun r d p r' p' hstep => ?step) h
  case step =>
    obtain ⟨k, definition⟩ := d
    obtain ⟨made, failed⟩ := r
    dsimp only at hstep
    cases hmade : registry.createActor k.display definition with
    | ok a =>
      rw [hmade] at hstep
      cases hstep
      exact knows_made made failed k.display a src
    | error e =>
      rw [hmade] at hstep
      cases e with
      | reference e =>
        cases hstep
        exact knows_failed made failed k.display src
      | data e => cases hstep
  simpa [knows] using hknows.symm

/-- What references are looked up in. -/
def setting (registry : Registry) (config : Config) (es : Entries) (tree : Tree) : Setting := {
  registry, config, guards := entriesOf es "guards", actions := entriesOf es "actions"
  actorDefinitions := entriesOf es "actors", tree }

/-- All that is wrong with the references of a definition, each seen by itself. -/
def complaints (registry : Registry) (config : Config) (es : Entries) (tree : Tree) : List Issue :=
  actorComplaints registry (entriesOf es "actors") ++ tree.states.flatMap fun s =>
    Reference.complaints (setting registry config es tree) s.id (references s.id s.definition)

/-- The same without the rules that are not looked at. -/
def heededComplaints (registry : Registry) (config : Config) (es : Entries) (tree : Tree) : List Issue :=
  actorComplaints registry (entriesOf es "actors") ++ tree.states.flatMap fun s =>
    Reference.complaints (setting registry config es tree) s.id (heededReferences s.id s.definition)

theorem initialState_files (tree : Tree) (initial : Value) : (initialState tree initial).Files [] := by
  unfold initialState
  dsimp only
  split
  · exact (files_aside _ rfl rfl).silently fun _ => files_pure _
  · split
    · exact files_pure _
    · exact (files_aside _ rfl rfl).silently fun _ => files_pure _

theorem nodes_files (registry : Registry) (config : Config) (es : Entries) (tree : Tree) :
    (nodes registry config es tree).Files (heededComplaints registry config es tree) := by
  intro p r p' h
  obtain ⟨⟨⟨actors, failed⟩, p₁⟩, hactors, h⟩ := bind_eq_ok.mp h
  obtain ⟨more, hmore, hfiled, hnone⟩ := buildActors_files registry _ _ _ _ hactors
  have hknows : KnowsActors { setting registry config es tree with actors, failedActors := failed } :=
    fun src => knows_of_buildActors hactors src
  obtain ⟨⟨initial, p₂⟩, hinitial, h⟩ := bind_eq_ok.mp h
  obtain ⟨_, hmore₂, hfiled₂, hnone₂⟩ := initialState_files tree _ _ _ _ hinitial
  obtain ⟨⟨ns, p₃⟩, hstates, h⟩ := bind_eq_ok.mp h
  obtain ⟨_, hmore₃, hfiled₃, hnone₃⟩ := Files.mapM (fun s _ => state_files _ hknows s) _ _ _ hstates
  cases h
  refine ⟨_, by rw [hmore₃, hmore₂, hmore, List.append_assoc, List.append_assoc], ?_, ?_⟩
  · rw [ofReferences_append, ofReferences_append, hfiled, hfiled₂, hfiled₃]
    rfl
  · rw [ofOmissions_append, ofOmissions_append, hnone, hnone₂, hnone₃]
    rfl

/-- What can be said before references are looked at is not about them. -/
theorem ofReferences_formal (es : Entries) (states : Nests) :
    ofReferences (formalIssues es (Tree.ofNests states)) = [] := by
  refine List.filter_eq_nil_iff.mpr fun i hi => ?_
  rcases List.mem_append.mp hi with hi | hi
  · have hmissing := Tree.isStrict_ofNests states i hi
    obtain ⟨p, id⟩ := i
    cases p <;> first | exact Bool.false_ne_true | cases hmissing
  · split at hi
    · cases hi
    · obtain ⟨m, -, rfl⟩ := List.mem_map.mp hi
      exact Bool.false_ne_true

/-- What an analysis says is neither about them nor about nested states. -/
theorem aside_of_analysed {strict : Bool} {g : Graph} {is : List Issue} (h : analysed strict g = .ok is)
    {i : Issue} (hi : i ∈ is) : i.problem.isReference = false ∧ Tree.isOmission i.problem = false := by
  unfold analysed at h
  split at h
  · rename_i hissues
    cases h
    obtain ⟨p, id⟩ := i
    rcases Analysis.mem_issues hissues hi with ⟨us, hus, hi⟩ | ⟨ds, hds, hi⟩ | hi
    · obtain ⟨_, n, -, -, -, rfl⟩ := Analysis.mem_unreachableStates hus hi
      exact ⟨rfl, rfl⟩
    · obtain ⟨n, -, rfl, -⟩ := Analysis.mem_deadEnds hds hi
      exact ⟨rfl, rfl⟩
    · cases p <;> first | exact ⟨rfl, rfl⟩ | exact hi.elim
  · cases h
  · cases h
    cases hi

theorem ofReferences_analysed {strict : Bool} {g : Graph} {is : List Issue}
    (h : analysed strict g = .ok is) : ofReferences is = [] :=
  List.filter_eq_nil_iff.mpr fun _ hi => by simp [(aside_of_analysed h hi).1]

theorem ofOmissions_analysed {strict : Bool} {g : Graph} {is : List Issue}
    (h : analysed strict g = .ok is) : ofOmissions is = [] :=
  List.filter_eq_nil_iff.mpr fun _ hi => by simp [(aside_of_analysed h hi).2]

/-- **What a compilation says about references**, if it is not ended by the form of the definition. -/
theorem filed_of_run {registry : Registry} {config : Config} {source : FlowSource} {es : Entries}
    {o : CompileOutcome} (hes : source.definition = .dict es)
    (hfree : isBlocked (formalIssues es (Tree.ofNests source.states)) = false)
    (h : run registry config source = .ok o) :
    ofReferences o.issues = heededComplaints registry config es (Tree.ofNests source.states) := by
  have hformal := ofReferences_formal es source.states
  rw [run, hes] at h
  simp only [hfree, Bool.false_eq_true, if_false] at h
  obtain ⟨⟨⟨initial, ns⟩, progress⟩, hrun, h⟩ := bind_eq_ok.mp h
  obtain ⟨more, hmore, hfiled, -⟩ := nodes_files registry config es _ _ _ _ hrun
  have hprogress : ofReferences progress.issues =
      heededComplaints registry config es (Tree.ofNests source.states) := by
    rw [hmore, ofReferences_append, hformal, List.nil_append, hfiled]
  dsimp only at h
  split at h
  · cases h
    exact hprogress
  · split at h
    · cases h
      exact hprogress
    · obtain ⟨found, hfound, h⟩ := bind_eq_ok.mp h
      cases h
      rw [ofReferences_append, ofReferences_analysed hfound, List.append_nil, hprogress]

/-- Of nested states that are left out only flattening speaks before references are looked at. -/
theorem ofOmissions_formal (es : Entries) (states : Nests) :
    ofOmissions (formalIssues es (Tree.ofNests states)) = (Tree.ofNests states).issues := by
  have htree : ofOmissions (Tree.ofNests states).issues = (Tree.ofNests states).issues :=
    List.filter_eq_self.mpr (Tree.isStrict_ofNests states)
  rw [formalIssues, ofOmissions_append, htree]
  split
  · exact List.append_nil _
  · have hform : ofOmissions (formIssues es) = [] := by
      refine List.filter_eq_nil_iff.mpr fun i hi => ?_
      obtain ⟨m, -, rfl⟩ := List.mem_map.mp hi
      exact Bool.false_ne_true
    rw [hform, List.append_nil]

/-- **What a compilation says about nested states that are left out** is what flattening says. -/
theorem omissions_of_run {registry : Registry} {config : Config} {source : FlowSource} {es : Entries}
    {o : CompileOutcome} (hes : source.definition = .dict es) (h : run registry config source = .ok o) :
    ofOmissions o.issues = (Tree.ofNests source.states).issues := by
  have hformal := ofOmissions_formal es source.states
  rw [run, hes] at h
  dsimp only at h
  split at h
  · cases h
    exact hformal
  obtain ⟨⟨⟨initial, ns⟩, progress⟩, hrun, h⟩ := bind_eq_ok.mp h
  obtain ⟨more, hmore, -, hnone⟩ := nodes_files registry config es _ _ _ _ hrun
  have hprogress : ofOmissions progress.issues = (Tree.ofNests source.states).issues := by
    rw [hmore, ofOmissions_append, hformal, hnone, List.append_nil]
  dsimp only at h
  split at h
  · cases h
    exact hprogress
  · split at h
    · cases h
      exact hprogress
    · obtain ⟨found, hfound, h⟩ := bind_eq_ok.mp h
      cases h
      rw [ofOmissions_append, ofOmissions_analysed hfound, List.append_nil, hprogress]

/-- Lists that are put together of parts of the parts of others are those if no part lacks anything. -/
theorem flatMap_eq_iff {α β : Type} {f g : α → List β} {xs : List α} (h : ∀ x ∈ xs, (f x).Sublist (g x)) :
    xs.flatMap f = xs.flatMap g ↔ ∀ x ∈ xs, f x = g x := by
  refine ⟨fun heq => ?_, fun heq => List.flatMap_congr heq⟩
  induction xs with
  | nil => exact fun x hx => nomatch hx
  | cons x xs ih =>
    rw [List.forall_mem_cons] at h
    have hrest := (List.Sublist.flatMap_right xs h.2).length_le
    have hfirst := h.1.length_le
    rw [List.flatMap_cons, List.flatMap_cons] at heq
    have hlength := congrArg List.length heq
    rw [List.length_append, List.length_append] at hlength
    have hx : f x = g x := h.1.eq_of_length (by omega)
    rw [hx] at heq
    exact List.forall_mem_cons.mpr ⟨hx, ih h.2 (List.append_cancel_left heq)⟩

/-- All that is wrong with references is said if no state has two bad rules. -/
theorem heededComplaints_eq_iff (registry : Registry) (config : Config) (es : Entries) (tree : Tree) :
    heededComplaints registry config es tree = complaints registry config es tree ↔
      ∀ s ∈ tree.states, ((rulesOf s.definition).flatMap ruleProblems).length ≤ 1 := by
  have hparts := flatMap_eq_iff fun s (_ : s ∈ tree.states) =>
    complaints_heeded_sublist (setting registry config es tree) s.id s.definition
  rw [heededComplaints, complaints, List.append_cancel_left_eq, hparts]
  exact forall₂_congr fun s _ => complaints_heeded_iff (setting registry config es tree) s.id s.definition

/-- A state with a bad reference of each kind. -/
def troubled : Value :=
  .record [("initial", .text "a"), ("states", .record [
    ("a", .record [
      ("entry", .list [.text "teleport:home"]),
      ("binding", .record [("inputs", .list [
        .record [("source", .text "nowhere.q"), ("target", .text "context.q")]])]),
      ("logic", .record [
        ("computed", .list [.record [("field", .text "total"),
          ("expression", .record [("plus", .list [.int 1, .int 2])])]]),
        ("validations", .list [.record [("field", .text "total"),
          ("expression", .record [("exceeds", .list [.int 1, .int 2])]),
          ("message", .text "too much")]])]),
      ("on", .record [("GO", .record [("target", .text "nowhere"), ("guard", .text "isVip")])]),
      ("invoke", .record [("src", .text "fetchUser"), ("onError", .text "b")])]),
    ("b", .record [("type", .text "final")])])]

/-- A rule that uses an unknown operator. -/
def lacking : Value :=
  .record [("field", .text "m"), ("expression", .record [("lacks", .list [.int 1, .int 2])]),
    ("message", .text "too little")]

/-- A state with two such rules. -/
def twiceRuled : Entries :=
  [(.text "initial", .text "a"), (.text "states", .record [("a", .record [
    ("type", .text "final"),
    ("logic", .record [("validations", .list [
      .record [("field", .text "n"), ("expression", .record [("exceeds", .list [.int 1, .int 2])]),
        ("message", .text "too much")],
      lacking])])])])]

end Definition

end Statechart
