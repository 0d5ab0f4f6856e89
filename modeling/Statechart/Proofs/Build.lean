/-
# Compiling without errors

A compilation goes on after a problem with something in the place of what is missing.  What it makes
is right only if no error has been reported in the end, so that is how every part of it is specified
here: issues are only ever added, and **if there is no error at the end, the result is right**
(`Build.Meets`).  A fatal issue makes whatever comes after it right without a proof, since it never
goes away.

* `Build.Meets.bind`, `Build.Meets.mapM`, `Build.Meets.foldlM`: specifications of composed steps;
* `Compile.candidate_yields`, `Compile.timers_yields`, `Compile.invocations_meets`: the parts of a
  state;
* `Compile.state_meets`: a state.

The identifiers of calls that are taken are the only thing steps tell each other apart from issues,
and they appear in the specifications before and after each step.
-/
import Statechart.Compile
import Statechart.Proofs.Evaluation
import Mathlib.Data.List.Basic
import Mathlib.Data.List.Nodup
import Mathlib.Data.List.Forall2
import Std.Data.String.ToInt
import Std.Data.String.ToNat

namespace Statechart

theorem no_errors_before {is js : List Issue} (h : is <+: js) (hj : Issue.errors js = []) :
    Issue.errors is = [] :=
  List.prefix_nil.mp (hj ▸ h.filter Issue.isFatal)

/-- What is odd about a single part of a definition; it does not stand in the way of a graph. -/
def Problem.IsNotice : Problem → Prop
  | implicitInitial .. | noErrorHandler _ => True
  | _ => False

namespace Build

variable {α β : Type}

/-! ## 1. Specifications -/

/-- A step only adds issues, and if there is no error afterwards, those it adds are notices, and its
result and the identifiers of calls before and after it are as stated. -/
def Meets (x : Build α) (Q : List String → α → List String → Prop) : Prop :=
  ∀ p a p', x.run p = .ok (a, p') →
    p.issues <+: p'.issues ∧ (Issue.errors p'.issues = [] →
      (∀ i ∈ p'.issues, i ∈ p.issues ∨ i.problem.IsNotice) ∧ Q p.invokeIds a p'.invokeIds)

/-- A step that takes no identifier of a call. -/
def Yields (x : Build α) (P : α → Prop) : Prop := x.Meets fun ids a ids' => ids' = ids ∧ P a

theorem Meets.mono {x : Build α} {Q R : List String → α → List String → Prop} (h : x.Meets Q)
    (hQR : ∀ ids a ids', Q ids a ids' → R ids a ids') : x.Meets R := fun p a p' hx =>
  ⟨(h p a p' hx).1, fun he => ((h p a p' hx).2 he).imp_right (hQR _ _ _)⟩

theorem Yields.mono {x : Build α} {P R : α → Prop} (h : x.Yields P) (hPR : ∀ a, P a → R a) :
    x.Yields R :=
  Meets.mono h fun _ a _ hq => ⟨hq.1, hPR a hq.2⟩

theorem Meets.pure {a : α} {Q : List String → α → List String → Prop} (h : ∀ ids, Q ids a ids) :
    Meets (Pure.pure a : Build α) Q := by
  intro p b p' hx
  cases hx
  exact ⟨List.prefix_rfl, fun _ => ⟨fun _ hi => Or.inl hi, h _⟩⟩

theorem Yields.pure {a : α} {P : α → Prop} (h : P a) : Yields (Pure.pure a : Build α) P :=
  Meets.pure fun _ => ⟨rfl, h⟩

/-- **One step after another.**  Errors of the first are still there after the second. -/
theorem Meets.bind {x : Build α} {f : α → Build β} {Q : List String → α → List String → Prop}
    {R : List String → β → List String → Prop} (hx : x.Meets Q)
    (hf : ∀ a, (f a).Meets fun ids b ids' => ∀ ids₀, Q ids₀ a ids → R ids₀ b ids') :
    (x >>= f).Meets R := by
  intro p b p' h
  rw [StateT.run_bind] at h
  obtain ⟨⟨a, p₁⟩, hrun, h⟩ := bind_eq_ok.mp h
  obtain ⟨h₁, hq⟩ := hx p a p₁ hrun
  obtain ⟨h₂, hr⟩ := hf a p₁ b p' h
  refine ⟨h₁.trans h₂, fun he => ?_⟩
  obtain ⟨hnotices, hQ⟩ := hq (no_errors_before h₂ he)
  obtain ⟨hnotices', hR⟩ := hr he
  exact ⟨fun i hi => (hnotices' i hi).elim (hnotices i) Or.inr, hR _ hQ⟩

theorem Yields.bind {x : Build α} {f : α → Build β} {P : α → Prop} {R : β → Prop} (hx : x.Yields P)
    (hf : ∀ a, (f a).Yields fun b => P a → R b) : (x >>= f).Yields R := by
  refine Meets.bind hx fun a => Meets.mono (hf a) ?_
  rintro ids b ids' ⟨rfl, hR⟩ ids₀ ⟨rfl, hP⟩
  exact ⟨rfl, hR hP⟩

theorem report_notice {p : Problem} (id : Option String) (h : p.IsNotice) :
    (report p id).Yields fun _ => True := by
  intro s a s' hx
  cases hx
  refine ⟨List.prefix_append _ _, fun _ => ⟨fun i hi => ?_, rfl, trivial⟩⟩
  rw [List.mem_append, List.mem_singleton] at hi
  exact hi.imp_right fun heq => by rwa [heq]

/-- After a fatal issue everything is right. -/
theorem report_fatal {p : Problem} (id : Option String) (h : p.isFatal = true) :
    (report p id).Meets fun _ _ _ => False := by
  intro s a s' hx
  cases hx
  refine ⟨List.prefix_append _ _, fun he => ?_⟩
  have hmem : (⟨p, id⟩ : Issue) ∈ Issue.errors (s.issues ++ [⟨p, id⟩]) :=
    Issue.mem_errors.mpr ⟨by simp, h⟩
  rw [he] at hmem
  cases hmem

/-- Whatever follows a fatal issue, as long as it only adds issues, meets any specification. -/
theorem Meets.after_fatal {p : Problem} {id : Option String} {x : Build α}
    {Q R : List String → α → List String → Prop} (h : p.isFatal = true) (hx : x.Meets Q) :
    Meets (do report p id; x) R :=
  Meets.bind (report_fatal id h) fun _ => hx.mono fun _ _ _ _ _ hf => hf.elim

theorem Yields.after_fatal {p : Problem} {id : Option String} {x : Build α} {P R : α → Prop}
    (h : p.isFatal = true) (hx : x.Yields P) : Yields (do report p id; x) R :=
  Meets.after_fatal h hx

theorem lift_yields (r : Except DataFault α) : (lift r).Yields fun a => r = .ok a := by
  intro p a p' hx
  cases r with
  | error e => simp [lift, StateT.run, Except.map] at hx
  | ok b =>
    simp only [lift, StateT.run, Except.map, Except.ok.injEq, Prod.mk.injEq] at hx
    obtain ⟨rfl, rfl⟩ := hx
    exact ⟨List.prefix_rfl, fun _ => ⟨fun _ hi => Or.inl hi, rfl, rfl⟩⟩

/-- **Steps for the members of a list, each taking identifiers that its result shows**, under a
condition that no step changes. -/
theorem Meets.mapM {H : Prop} {f : α → Build β} {g : β → List String} {P : α → β → Prop}
    {xs : List α}
    (h : ∀ x ∈ xs, (f x).Meets fun ids b ids' => H →
      P x b ∧ ids' = ids ++ g b ∧ (ids.Nodup → ids'.Nodup)) :
    (xs.mapM f).Meets fun ids bs ids' => H →
      List.Forall₂ P xs bs ∧ ids' = ids ++ bs.flatMap g ∧ (ids.Nodup → ids'.Nodup) := by
  induction xs with
  | nil => exact Meets.pure fun ids _ => ⟨.nil, by simp, id⟩
  | cons x xs ih =>
    rw [List.mapM_cons]
    refine Meets.bind (h x (by simp)) fun b =>
      Meets.bind (ih fun y hy => h y (by simp [hy])) fun bs => Meets.pure ?_
    intro ids ids₁ hrest ids₀ hfirst hH
    obtain ⟨hall, rfl, hnd₁⟩ := hrest hH
    obtain ⟨hb, rfl, hnd₀⟩ := hfirst hH
    exact ⟨.cons hb hall, by simp, fun hn => hnd₁ (hnd₀ hn)⟩

theorem Yields.mapM {f : α → Build β} {P : α → β → Prop} {xs : List α}
    (h : ∀ x ∈ xs, (f x).Yields (P x)) : (xs.mapM f).Yields (List.Forall₂ P xs) := by
  refine Meets.mono (Meets.mapM (H := True) (g := fun _ => []) (P := P) fun x hx =>
    Meets.mono (h x hx) ?_) ?_
  · rintro ids b ids' ⟨rfl, hb⟩ -
    exact ⟨hb, by simp, id⟩
  · intro ids bs ids' h
    obtain ⟨hall, rfl, -⟩ := h trivial
    exact ⟨by simp, hall⟩

theorem Yields.forM {f : α → Build Unit} {xs : List α} (h : ∀ x ∈ xs, (f x).Yields fun _ => True) :
    (xs.forM f).Yields fun _ => True := by
  induction xs with
  | nil => exact Yields.pure trivial
  | cons x xs ih =>
    exact Yields.bind (h x (by simp)) fun _ =>
      Yields.mono (ih fun y hy => h y (by simp [hy])) fun _ _ _ => trivial

/-- **Steps along a list that carry something on.**  The invariant is about the members that are
through, the identifiers taken, and what is carried. -/
theorem Meets.foldlM {f : β → α → Build β} {I : List α → List String → β → Prop} {xs : List α}
    (h : ∀ before x after, xs = before ++ x :: after → ∀ b,
      (f b x).Meets fun ids b' ids' => I before ids b → I (before ++ [x]) ids' b') (b : β) :
    (xs.foldlM f b).Meets fun ids b' ids' => I [] ids b → I xs ids' b' := by
  have hall : ∀ rest before b, xs = before ++ rest →
      (rest.foldlM f b).Meets fun ids b' ids' => I before ids b → I xs ids' b' := by
    intro rest
    induction rest with
    | nil =>
      rintro before b hs
      exact Meets.pure fun ids hI => by simpa [hs] using hI
    | cons x rest ih =>
      rintro before b hs
      rw [List.foldlM_cons]
      refine Meets.bind (h before x rest hs b) fun b' => Meets.mono (ih (before ++ [x]) b' ?_) ?_
      · simpa using hs
      · exact fun ids b'' ids' hrest ids₀ hstep hI => hrest (hstep hI)
  exact hall xs [] b rfl

theorem Yields.foldlM {f : β → α → Build β} {I : List α → β → Prop} {xs : List α} {b : β}
    (h : ∀ before x after, xs = before ++ x :: after → ∀ b,
      (f b x).Yields fun b' => I before b → I (before ++ [x]) b') (hb : I [] b) :
    (xs.foldlM f b).Yields (I xs) := by
  intro p b' p' hx
  have hall := Meets.foldlM (f := f) (I := fun before ids b => ids = p.invokeIds ∧ I before b)
    (fun before x after hs b => Meets.mono (h before x after hs b) ?_) b p b' p' hx
  · exact ⟨hall.1, fun he => (hall.2 he).imp_right fun h => h ⟨rfl, hb⟩⟩
  · rintro ids b ids' ⟨rfl, hI⟩ ⟨rfl, hbefore⟩
    exact ⟨rfl, hI hbefore⟩

end Build

namespace Compile

open Build

variable (c : Setting) (id : String)

/-! ## 2. References -/

theorem parseGuard_yields (ref : Value) : (parseGuard c id ref).Yields fun _ => True := by
  unfold parseGuard
  split
  · exact Yields.pure trivial
  · exact Yields.after_fatal rfl (Yields.pure (P := fun _ => True) trivial)

theorem bindAction_yields (ref : Value) : (bindAction c id ref).Yields fun _ => True := by
  unfold bindAction
  split
  · exact Yields.pure trivial
  · exact Yields.after_fatal rfl (Yields.pure (P := fun _ => True) trivial)

theorem bindActions_yields (refs : List Value) : (bindActions c id refs).Yields fun _ => True :=
  Yields.bind (Yields.mapM fun ref _ => bindAction_yields c id ref) fun _ =>
    Yields.pure fun _ => trivial

theorem bindingOf_yields (direction : Direction) (descriptor : Value) :
    (bindingOf c id direction descriptor).Yields fun _ => True := by
  unfold bindingOf
  split
  · exact Yields.pure trivial
  · refine Yields.bind (Yields.forM fun p _ => ?_) fun _ => Yields.pure fun _ => trivial
    exact (report_fatal _ rfl).mono fun _ _ _ h => h.elim
  · exact Yields.mono (lift_yields _) fun _ _ => trivial

theorem bindingsOf_yields (direction : Direction) (descriptors : List Value) :
    (bindingsOf c id direction descriptors).Yields fun _ => True :=
  Yields.bind (Yields.mapM fun d _ => bindingOf_yields c id direction d) fun _ =>
    Yields.pure fun _ => trivial

theorem checkExpression_yields (label : String) (expression : Value) :
    (checkExpression id label expression).Yields fun _ => True := by
  unfold checkExpression
  split
  · exact Yields.pure trivial
  · exact Yields.after_fatal rfl (Yields.pure (P := fun _ => True) trivial)

theorem computedField_yields (item : Value) : (computedField id item).Yields fun _ => True := by
  unfold computedField
  dsimp only
  split
  · exact Yields.after_fatal rfl (Yields.pure (P := fun _ => True) trivial)
  · refine Yields.bind (checkExpression_yields id _ _) fun ok => ?_
    cases ok <;> exact Yields.pure fun _ => trivial

theorem computedFields_yields (items : List Value) :
    (computedFields id items).Yields fun _ => True :=
  Yields.bind (Yields.mapM fun item _ => computedField_yields id item) fun _ =>
    Yields.pure fun _ => trivial

theorem checkRules_yields (rules : List Value) : (checkRules id rules).Yields fun _ => True := by
  induction rules with
  | nil => exact Yields.pure trivial
  | cons rule rules ih =>
    rw [checkRules]
    refine Yields.bind (checkExpression_yields id _ _) fun ok => ?_
    cases ok
    · exact Yields.pure fun _ => trivial
    · exact Yields.mono ih fun _ _ _ => trivial

theorem validations_yields (rules : List Value) :
    (validations c id rules).Yields fun _ => True := by
  unfold validations
  split
  · exact Yields.pure trivial
  · refine Yields.bind (checkRules_yields id rules) fun ok => ?_
    cases ok
    · exact Yields.pure fun _ => trivial
    · exact Yields.mono (bindAction_yields c id _) fun _ _ _ => trivial

/-! ## 3. Kinds and initial states -/

/-- A state that compiles is compound exactly if it has children. -/
theorem kindOf_yields (s : RawState) :
    (kindOf s).Yields fun kind => kind = .compound ↔ s.children ≠ [] := by
  unfold kindOf
  dsimp only
  split
  · refine Yields.pure ?_
    cases s.children <;> simp
  · rename_i kind _
    by_cases h : kind = .compound ↔ s.children ≠ []
    · -- nothing is reported of a kind that fits
      have h₁ : ¬ (kind ≠ .compound ∧ (!s.children.isEmpty) = true) := by
        rintro ⟨hk, hc⟩
        exact hk (h.mpr (by simpa using hc))
      have h₂ : ¬ (kind = .compound ∧ (!(!s.children.isEmpty)) = true) := by
        rintro ⟨hk, hc⟩
        exact h.mp hk (by simpa using hc)
      simp only [h₁, h₂, if_false]
      exact Yields.pure h
    · by_cases hk : kind = .compound
      · have hc : s.children = [] := by
          by_contra hne
          exact h (iff_of_true hk hne)
        simp only [hk, hc, ne_eq, not_true_eq_false, false_and, if_false, List.isEmpty_nil,
          Bool.not_true, Bool.not_false, and_self, if_true]
        exact Yields.after_fatal rfl (Yields.pure (P := fun _ => True) trivial)
      · have hc : s.children ≠ [] := fun hne => h (iff_of_false hk (by simp [hne]))
        have hc' : s.children.isEmpty = false := by simpa using hc
        simp only [hk, hc', ne_eq, not_false_eq_true, Bool.not_false, and_self, if_true,
          Bool.not_true, Bool.false_eq_true, if_false]
        exact Yields.after_fatal rfl (Yields.pure (P := fun _ => True) trivial)

/-- The initial child of a compound state is one of its children; other states have none. -/
theorem initialChild_yields (s : RawState) (kind : StateKind) :
    (initialChild s kind).Yields fun initial =>
      (kind = .compound → s.children ≠ [] → ∃ child ∈ s.children, initial = some child) ∧
        (kind ≠ .compound → initial = none) := by
  unfold initialChild
  split
  · rename_i first rest hc
    split
    · exact Yields.bind (report_notice _ trivial) fun _ =>
        Yields.pure fun _ => ⟨fun _ _ => ⟨first, by simp [hc], rfl⟩, fun h => absurd rfl h⟩
    · dsimp only
      split
      · rename_i hmem
        refine Yields.pure ⟨fun _ _ => ⟨_, ?_, rfl⟩, fun h => absurd rfl h⟩
        simpa using hmem
      · exact Yields.after_fatal rfl (Yields.pure (P := fun _ => True) trivial)
  · rename_i hno
    refine Yields.pure ⟨fun hk hne => ?_, fun _ => rfl⟩
    obtain ⟨first, rest, hc⟩ := List.exists_cons_of_ne_nil hne
    exact absurd hc (hno first rest hk)

/-! ## 4. Transitions -/

/-- A candidate belongs to an event of a state, and leads to a state of the tree if it leads
anywhere. -/
structure IsCandidate (event : String) (k : Candidate) : Prop where
  event_eq : k.event = event
  source_eq : k.source = id
  target_has : ∀ t, k.target = some t → c.tree.has t = true

theorem targetOf_yields (event : String) (target : Value) :
    (targetOf c id event target).Yields fun t? => ∀ t, t? = some t → c.tree.has t = true := by
  unfold targetOf
  split
  · exact Yields.pure (by simp)
  · split
    · rename_i t ht
      refine Yields.pure fun t' h => ?_
      cases h
      exact Tree.has_of_resolve ht
    · exact Yields.after_fatal rfl (Yields.pure (P := fun _ => True) trivial)

theorem guardOf_yields (ref : Value) : (guardOf c id ref).Yields fun _ => True := by
  unfold guardOf
  split
  · exact Yields.pure trivial
  · exact parseGuard_yields c id _

theorem candidate_yields (event : String) (first : List BoundAction) (item : Value) :
    (candidate c id event first item).Yields (IsCandidate c id event) :=
  Yields.bind (targetOf_yields c id event _) fun _ =>
    Yields.bind (guardOf_yields c id _) fun _ =>
      Yields.bind (bindActions_yields c id _) fun _ =>
        Yields.pure fun _ _ htarget => ⟨rfl, rfl, htarget⟩

theorem candidates_yields (event : String) (first : List BoundAction) (config : Value) :
    (candidates c id event first config).Yields fun ks => ∀ k ∈ ks, IsCandidate c id event k := by
  refine Yields.mono (Yields.mapM fun item _ => candidate_yields c id event first item) ?_
  intro ks hall k hk
  generalize asList config = items at hall
  induction hall with
  | nil => cases hk
  | cons h _ ih =>
    rcases List.mem_cons.mp hk with rfl | hk
    · exact h
    · exact ih hk

/-- Candidates by event, no event twice, each candidate under its own. -/
structure AreTransitions (ts : Transitions) : Prop where
  events_distinct : (ts.map (·.1)).Nodup
  candidate : ∀ event ks, (event, ks) ∈ ts → ∀ k ∈ ks, IsCandidate c id event k

variable {c id}

theorem areTransitions_nil : AreTransitions c id [] where
  events_distinct := List.nodup_nil
  candidate := by
    intro event ks h
    cases h

theorem mem_events_extend {event e : String} {ks : List Candidate} {ts : Transitions} :
    e ∈ (extend event ks ts).map (·.1) ↔ e = event ∨ e ∈ ts.map (·.1) := by
  induction ts with
  | nil => simp [extend]
  | cons t ts ih =>
    obtain ⟨d, ds⟩ := t
    by_cases h : d = event
    · subst h
      simp [extend]
    · simp only [extend, h, if_false, List.map_cons, List.mem_cons, ih]
      tauto

theorem nodup_events_extend {event : String} {ks : List Candidate} {ts : Transitions}
    (h : (ts.map (·.1)).Nodup) : ((extend event ks ts).map (·.1)).Nodup := by
  induction ts with
  | nil => simp [extend]
  | cons t ts ih =>
    obtain ⟨d, ds⟩ := t
    simp only [List.map_cons, List.nodup_cons] at h
    by_cases he : d = event
    · simp only [extend, he, if_true, List.map_cons, List.nodup_cons]
      exact ⟨he ▸ h.1, h.2⟩
    · simp only [extend, he, if_false, List.map_cons, List.nodup_cons]
      exact ⟨fun hd => (mem_events_extend.mp hd).elim he h.1, ih h.2⟩

theorem mem_extend {event e : String} {ks es : List Candidate} {ts : Transitions}
    (h : (e, es) ∈ extend event ks ts) :
    (e, es) ∈ ts ∨ (e = event ∧ ∃ ds, es = ds ++ ks ∧ (ds = [] ∨ (e, ds) ∈ ts)) := by
  induction ts with
  | nil =>
    simp only [extend, List.mem_singleton, Prod.mk.injEq] at h
    obtain ⟨rfl, rfl⟩ := h
    exact .inr ⟨rfl, [], rfl, .inl rfl⟩
  | cons t ts ih =>
    obtain ⟨d, ds⟩ := t
    by_cases he : d = event
    · simp only [extend, he, if_true, List.mem_cons, Prod.mk.injEq] at h
      rcases h with ⟨rfl, rfl⟩ | h
      · exact .inr ⟨rfl, ds, rfl, .inr (by simp [he])⟩
      · exact .inl (List.mem_cons_of_mem _ h)
    · simp only [extend, he, if_false, List.mem_cons, Prod.mk.injEq] at h
      rcases h with ⟨rfl, rfl⟩ | h
      · exact .inl List.mem_cons_self
      · rcases ih h with h | ⟨heq, ds', hes, hds⟩
        · exact .inl (List.mem_cons_of_mem _ h)
        · exact .inr ⟨heq, ds', hes, hds.imp_right (List.mem_cons_of_mem _)⟩

/-- More candidates for an event keep the candidates in order. -/
theorem AreTransitions.extend {ts : Transitions} (h : AreTransitions c id ts) {event : String}
    {ks : List Candidate} (hks : ∀ k ∈ ks, IsCandidate c id event k) :
    AreTransitions c id (extend event ks ts) where
  events_distinct := nodup_events_extend h.events_distinct
  candidate := by
    intro e es hes k hk
    rcases mem_extend hes with hes | ⟨rfl, ds, rfl, hds⟩
    · exact h.candidate e es hes k hk
    · rcases List.mem_append.mp hk with hk | hk
      · rcases hds with rfl | hds
        · cases hk
        · exact h.candidate e ds hds k hk
      · exact hks k hk

theorem AreTransitions.withoutEmpty {ts : Transitions} (h : AreTransitions c id ts)
    (event : String) : AreTransitions c id (withoutEmpty event ts) where
  events_distinct := h.events_distinct.sublist (List.filter_sublist.map _)
  candidate := fun e ks he => h.candidate e ks (List.mem_of_mem_filter he)

variable (c id)

theorem namedTransitions_yields (on : Entries) :
    (namedTransitions c id on).Yields (AreTransitions c id) := by
  refine Yields.foldlM (I := fun _ ts => AreTransitions c id ts) ?_ areTransitions_nil
  rintro before ⟨event, config⟩ after _ ts
  exact Yields.bind (candidates_yields c id event.display [] config) fun ks =>
    Yields.pure fun hks hts => hts.extend hks

/-! ## 5. Timers -/

/-- A text is divided in one way at its first full stop. -/
theorem dot_append_inj {x y a b : List Char} (hx : '.' ∉ x) (hy : '.' ∉ y)
    (h : x ++ '.' :: a = y ++ '.' :: b) : x = y ∧ a = b := by
  induction x generalizing y with
  | nil =>
    cases y with
    | nil => exact ⟨rfl, (List.cons.inj h).2⟩
    | cons d y => exact absurd ((List.cons.inj h).1 ▸ List.mem_cons_self) hy
  | cons c x ih =>
    cases y with
    | nil => exact absurd ((List.cons.inj h).1 ▸ List.mem_cons_self) hx
    | cons d y =>
      simp only [List.cons_append, List.cons.injEq, List.mem_cons, not_or] at h hx hy
      obtain ⟨hrest, hab⟩ := ih hx.2 hy.2 h.2
      exact ⟨by rw [h.1, hrest], hab⟩

theorem dot_notMem_toString (n : Nat) : '.' ∉ (toString n).toList := by
  intro h
  have hdigit := Nat.isDigit_of_mem_toDigits (by omega) (by omega) (Nat.toList_repr ▸ h)
  cases hdigit

theorem dot_notMem_toString_int (n : Int) : '.' ∉ (toString n).toList := by
  cases n with
  | ofNat n => exact dot_notMem_toString n
  | negSucc n =>
    change '.' ∉ ("-" ++ toString (n + 1)).toList
    rw [String.toList_append, List.mem_append, not_or]
    exact ⟨by decide, dot_notMem_toString (n + 1)⟩

/-- **The name of a timer's event can be taken apart**, though there may be full stops and digits in the name
of the state: the delay ends at the first full stop, and the place begins after the last. -/
theorem timerEvent_injective {id id' : String} {d e : Int} {i j : Nat}
    (h : timerEvent id d i = timerEvent id' e j) : d = e ∧ id = id' ∧ i = j := by
  have hdot : ".".toList = ['.'] := rfl
  -- an equation for the text would first compare texts byte by byte
  delta timerEvent at h
  have hchars := congrArg String.toList h
  simp only [String.toList_append, hdot, List.append_assoc, List.cons_append, List.nil_append] at hchars
  obtain ⟨hdelay, hrest⟩ := dot_append_inj (dot_notMem_toString_int d) (dot_notMem_toString_int e)
    (List.append_cancel_left hchars)
  have hback := congrArg List.reverse hrest
  simp only [List.reverse_append, List.reverse_cons, List.append_assoc, List.cons_append, List.nil_append]
    at hback
  obtain ⟨hplace, hstate⟩ := dot_append_inj (List.mem_reverse.not.mpr (dot_notMem_toString i))
    (List.mem_reverse.not.mpr (dot_notMem_toString j)) hback
  exact ⟨Int.repr_injective (String.toList_injective hdelay),
    String.toList_injective (List.reverse_injective hstate),
    Nat.repr_inj.mp (String.toList_injective (List.reverse_injective hplace))⟩

/-- A member of an enumerated list carries the number of those before it. -/
theorem index_of_zipIdx {α : Type} {xs : List α} {before after : List (α × Nat)} {x : α} {i : Nat}
    (h : xs.zipIdx = before ++ (x, i) :: after) : i = before.length := by
  have hget : xs.zipIdx[before.length]? = some (x, i) := by simp [h]
  rw [List.getElem?_zipIdx] at hget
  obtain ⟨_, _, hx⟩ := Option.map_eq_some_iff.mp hget
  simpa using (congrArg Prod.snd hx).symm

/-- The timers up to a place: their events are those of their places. -/
def AreTimers (through : Nat) (after : List AfterTimer) : Prop :=
  ∃ delays : List Int, delays.length = through ∧
    after = delays.zipIdx.map fun (d, i) => ⟨d, timerEvent id d i⟩

theorem AreTimers.concat {through : Nat} {after : List AfterTimer} (h : AreTimers id through after)
    (delay : Int) : AreTimers id (through + 1) (after ++ [⟨delay, timerEvent id delay through⟩]) := by
  obtain ⟨delays, rfl, rfl⟩ := h
  exact ⟨delays ++ [delay], by simp, by simp [List.zipIdx_append]⟩

theorem AreTimers.distinct {through : Nat} {after : List AfterTimer}
    (h : AreTimers id through after) : (after.map (·.event)).Nodup := by
  obtain ⟨delays, rfl, rfl⟩ := h
  rw [List.map_map]
  refine List.Nodup.map_on ?_ ?_
  · rintro ⟨d, i⟩ hd ⟨e, j⟩ he hevent
    have hij : i = j := (timerEvent_injective hevent).2.2
    subst hij
    rw [List.mem_zipIdx_iff_getElem?] at hd he
    simp_all
  · exact List.Nodup.of_map Prod.snd (by simpa using List.nodup_range' )

theorem AreTimers.exists_timerEvent {through : Nat} {after : List AfterTimer}
    (h : AreTimers id through after) {event : String} (hevent : event ∈ after.map (·.event)) :
    ∃ d i, event = timerEvent id d i := by
  obtain ⟨delays, rfl, rfl⟩ := h
  obtain ⟨_, ht, rfl⟩ := List.mem_map.mp hevent
  obtain ⟨⟨d, i⟩, _, rfl⟩ := List.mem_map.mp ht
  exact ⟨d, i, rfl⟩

theorem AreTimers.event {through : Nat} {after : List AfterTimer} (h : AreTimers id through after) :
    ∀ t ∈ after, ∃ rest, t.event = "xflows.after." ++ rest := by
  intro t ht
  obtain ⟨d, i, hevent⟩ := h.exists_timerEvent id (List.mem_map_of_mem ht)
  refine ⟨toString d ++ "." ++ id ++ "." ++ toString i, hevent.trans ?_⟩
  delta timerEvent
  simp [String.append_assoc]

theorem timers_yields (after : Value) (ts : Transitions) :
    (timers c id after ts).Yields fun r => AreTransitions c id ts →
      AreTransitions c id r.2 ∧ ∃ through, AreTimers id through r.1 := by
  refine Yields.bind (lift_yields _) fun entries => ?_
  refine Yields.mono (P := fun r => AreTransitions c id ts →
    AreTransitions c id r.2 ∧ AreTimers id entries.zipIdx.length r.1) ?_ ?_
  · refine Yields.foldlM (I := fun before (r : List AfterTimer × Transitions) => AreTransitions c id ts →
      AreTransitions c id r.2 ∧ AreTimers id before.length r.1) ?_ ?_
    · rintro before ⟨⟨delay, config⟩, index⟩ rest hs ⟨done, ts'⟩
      have hindex : index = before.length := index_of_zipIdx hs
      subst hindex
      refine Yields.bind (candidates_yields c id _ [] config) fun ks => Yields.pure ?_
      intro hks hI hts
      obtain ⟨hts', hdone⟩ := hI hts
      exact ⟨hts'.extend hks, by simpa using hdone.concat id delay⟩
    · exact fun hts => ⟨hts, [], rfl, rfl⟩
  · rintro r hr _ hts
    exact ⟨(hr hts).1, _, (hr hts).2⟩

/-! ## 6. Calls of actors -/

/-- If all actors of the flow could be made, a call that compiles has an actor. -/
theorem resolveActor_yields (src : String) :
    (resolveActor c id src).Yields fun actor => c.failedActors = [] → actor.isSome = true := by
  unfold resolveActor
  split
  · exact Yields.pure fun _ => rfl
  · split
    · rename_i hfailed
      refine Yields.pure fun hnone => ?_
      rw [hnone] at hfailed
      cases hfailed
    · split
      · exact Yields.pure fun _ => rfl
      · exact Yields.after_fatal rfl (Yields.pure (P := fun _ => True) trivial)

theorem retryPolicy_yields (invokeId : String) (definition : Value) :
    (retryPolicy c id invokeId definition).Yields fun _ => True := by
  unfold retryPolicy
  dsimp only
  split
  · exact Yields.pure trivial
  · split
    · exact Yields.after_fatal rfl (Yields.pure (P := fun _ => True) trivial)
    · exact Yields.mono (lift_yields _) fun _ _ => trivial
  · exact Yields.after_fatal rfl (Yields.pure (P := fun _ => True) trivial)

theorem resultActions_yields (item : Value) : (resultActions c id item).Yields fun _ => True :=
  bindActions_yields c id _

theorem doneCandidates_yields (event : String) (results : List BoundAction) (config : Value) :
    (doneCandidates c id event results config).Yields fun ks =>
      ∀ k ∈ ks, IsCandidate c id event k := by
  unfold doneCandidates
  split
  · refine Yields.pure fun k hk => ?_
    split at hk
    · cases hk
    · rw [List.mem_singleton] at hk
      subst hk
      exact ⟨rfl, rfl, by simp⟩
  · exact candidates_yields c id event results config

theorem withErrorHandler_yields (invokeId : String) (config : Value) (ts : Transitions) :
    (withErrorHandler c id invokeId config ts).Yields fun ts' =>
      AreTransitions c id ts → AreTransitions c id ts' := by
  unfold withErrorHandler
  split
  · exact Yields.bind (report_notice _ trivial) fun _ => Yields.pure fun _ hts => hts
  · exact Yields.bind (candidates_yields c id _ [] _) fun ks =>
      Yields.pure fun hks hts => hts.extend hks

/-- **An identifier that is taken was free.** -/
theorem takeInvokeId_meets (invokeId : String) :
    (takeInvokeId id invokeId).Meets fun ids _ ids' =>
      ids' = ids ++ [invokeId] ∧ (ids.Nodup → ids'.Nodup) := by
  have hget : Meets (get : Build Progress) fun ids s ids' => ids' = ids ∧ s.invokeIds = ids := by
    intro p s p' hx
    cases hx
    exact ⟨List.prefix_rfl, fun _ => ⟨fun _ hi => Or.inl hi, rfl, rfl⟩⟩
  have htake : Meets (modify fun s => { s with invokeIds := s.invokeIds ++ [invokeId] } : Build Unit)
      fun ids _ ids' => ids' = ids ++ [invokeId] := by
    intro p u p' hx
    cases hx
    exact ⟨List.prefix_rfl, fun _ => ⟨fun _ hi => Or.inl hi, rfl⟩⟩
  refine Meets.bind hget fun s => ?_
  dsimp only
  split
  · refine Meets.after_fatal rfl htake
  · rename_i hfree
    refine Meets.mono htake ?_
    rintro ids _ _ rfl _ ⟨rfl, rfl⟩
    refine ⟨rfl, fun hnd => List.Nodup.append hnd (List.nodup_singleton _) ?_⟩
    simpa using hfree

/-- **The call of a definition**: it has the identifier it takes, and its events are added. -/
theorem invocation_meets (index : Nat) (item : Value) (ts : Transitions) :
    (invocation c id index item ts).Meets fun ids r ids' => c.failedActors = [] →
      (AreTransitions c id ts → AreTransitions c id r.2) ∧ (ids.Nodup → ids'.Nodup) ∧
        ∃ i, r.1 = some i ∧ ids' = ids ++ [i.id] ∧ i.stateId = id := by
  refine Meets.bind (takeInvokeId_meets id _) fun _ =>
    Meets.bind (resolveActor_yields c id _) fun actor =>
      Meets.bind (retryPolicy_yields c id _ _) fun retry =>
        Meets.bind (resultActions_yields c id item) fun results =>
          Meets.bind (doneCandidates_yields c id _ results _) fun done =>
            Meets.bind (withErrorHandler_yields c id _ _ _) fun ts' => Meets.pure ?_
  rintro ids _ ⟨rfl, hts⟩ _ ⟨rfl, hdone⟩ _ ⟨rfl, -⟩ _ ⟨rfl, -⟩ _ ⟨rfl, hactor⟩ ids₀ ⟨rfl, hnd⟩ hmade
  refine ⟨fun h => hts ((h.extend hdone).withoutEmpty _), hnd, ?_⟩
  obtain ⟨a, rfl⟩ := Option.isSome_iff_exists.mp (hactor hmade)
  exact ⟨_, rfl, rfl, rfl⟩

/-- What is known of the calls of a state: there is one for each definition, and they have taken
their identifiers. -/
structure AreCalls (through : Nat) (ids : List String) (calls : List Invocation)
    (ids' : List String) : Prop where
  length_eq : calls.length = through
  taken : ids' = ids ++ calls.map (·.id)
  nodup : ids.Nodup → ids'.Nodup
  state_eq : ∀ i ∈ calls, i.stateId = id

theorem invocations_meets (invoke : Value) (ts : Transitions) :
    (invocations c id invoke ts).Meets fun ids r ids' => c.failedActors = [] →
      AreTransitions c id ts →
        AreTransitions c id r.2 ∧ AreCalls id (asList invoke).length ids r.1 ids' := by
  intro p r p' hx
  have hall := Meets.foldlM
    (I := fun before ids (r : List Invocation × Transitions) => c.failedActors = [] →
      AreTransitions c id ts →
        AreTransitions c id r.2 ∧ AreCalls id before.length p.invokeIds r.1 ids)
    ?_ ([], ts) p r p' hx
  · refine ⟨hall.1, fun he => (hall.2 he).imp_right fun hcalls hmade hts => ?_⟩
    have hstart : AreCalls id 0 p.invokeIds [] p.invokeIds :=
      ⟨rfl, by simp, fun h => h, by simp⟩
    simpa using hcalls (fun _ h => ⟨h, hstart⟩) hmade hts
  · rintro before ⟨item, index⟩ after _ ⟨done, ts'⟩
    refine Meets.bind (invocation_meets c id index item ts') fun ⟨call, ts''⟩ => Meets.pure ?_
    intro ids ids₀ hcall hI hmade hts
    obtain ⟨hts', hcalls⟩ := hI hmade hts
    obtain ⟨hts'', hnd, i, hi, htaken, hstate⟩ := hcall hmade
    subst hi htaken
    refine ⟨hts'' hts', ?_, ?_, fun h => hnd (hcalls.nodup h), ?_⟩
    · simp [hcalls.length_eq]
    · simp [hcalls.taken]
    · intro j hj
      rcases List.mem_append.mp hj with hj | hj
      · exact hcalls.state_eq j hj
      · have hji : j = i := by simpa using hj
        exact hji ▸ hstate

/-! ## 7. States -/

/-- A node is what a state of the tree compiles to: it stands where the state stands, and what it
declares fits to the tree. -/
structure Compiles (s : RawState) (n : StateNode) : Prop where
  id_eq : n.id = s.id
  key_eq : n.key = s.key
  parent_eq : n.parent = s.parent
  children_eq : n.children = s.children
  compound_iff : n.kind = .compound ↔ s.children ≠ []
  initial_child : n.kind = .compound → s.children ≠ [] →
    ∃ child ∈ s.children, n.initial = some child
  initial_none : n.kind ≠ .compound → n.initial = none
  transitions : AreTransitions c s.id n.transitions
  final : n.kind = .final → n.transitions = [] ∧ n.after = [] ∧ n.invokes = []
  timers : ∃ through, AreTimers s.id through n.after
  invoke_state : ∀ i ∈ n.invokes, i.stateId = s.id
  invokes_length : n.invokes.length =
    (asList ((Entries.lookup "invoke" s.definition).getD .null)).length

/-- **The node of a state that compiles without errors.** -/
theorem state_meets (s : RawState) :
    (state c s).Meets fun ids n ids' => c.failedActors = [] →
      Compiles c s n ∧ ids' = ids ++ n.invokes.map (·.id) ∧ (ids.Nodup → ids'.Nodup) := by
  refine Meets.bind (kindOf_yields s) fun kind =>
    Meets.bind (bindActions_yields c s.id _) fun entry =>
      Meets.bind (bindActions_yields c s.id _) fun exit =>
        Meets.bind (bindingsOf_yields c s.id _ _) fun inputs =>
          Meets.bind (bindingsOf_yields c s.id _ _) fun outputs =>
            Meets.bind (computedFields_yields s.id _) fun computed =>
              Meets.bind (validations_yields c s.id _) fun validations =>
                Meets.bind (namedTransitions_yields c s.id _) fun ts =>
                  Meets.bind (timers_yields c s.id _ ts) fun ⟨after, ts'⟩ =>
                    Meets.bind (invocations_meets c s.id _ ts') fun ⟨invokes, ts''⟩ => ?_
  dsimp only
  split
  · exact Meets.after_fatal rfl (Meets.bind (R := fun _ _ _ => True) (initialChild_yields s kind)
      fun _ => Meets.pure fun _ _ _ => trivial)
  · rename_i hfinal
    refine Meets.bind (initialChild_yields s kind) fun initial => Meets.pure ?_
    rintro ids _ ⟨rfl, hchild, hnone⟩ ids₀ hcalls _ ⟨rfl, htimers⟩ _ ⟨rfl, hts⟩
      _ ⟨rfl, -⟩ _ ⟨rfl, -⟩ _ ⟨rfl, -⟩ _ ⟨rfl, -⟩ _ ⟨rfl, -⟩ _ ⟨rfl, -⟩ _ ⟨rfl, hkind⟩ hmade
    have hempty : kind = .final → ts'' = [] ∧ after = [] ∧ invokes = [] := by
      intro hk
      simpa [hk, and_assoc] using hfinal
    obtain ⟨hts', through, hafter⟩ := htimers hts
    obtain ⟨hts'', hcalls⟩ := hcalls hmade hts'
    refine ⟨?_, hcalls.taken, hcalls.nodup⟩
    exact {
      id_eq := rfl, key_eq := rfl, parent_eq := rfl, children_eq := rfl
      compound_iff := hkind, initial_child := hchild, initial_none := hnone
      transitions := hts'', final := hempty, timers := ⟨through, hafter⟩
      invoke_state := hcalls.state_eq, invokes_length := hcalls.length_eq }

end Compile

end Statechart
