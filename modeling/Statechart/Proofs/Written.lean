/-
# What is written for an event

A definition writes transitions in four places of a state: under `on`, under `after`, and at the end or
the failure of a call, each time as a text, a mapping or a list of these.  A graph has one list of
candidates for each event.  This file says that nothing is lost on the way and nothing is put in:

* `Compile.written`: all that a state writes, each entry with its event;
* `Compile.Realizes`: what a candidate has to do with what is written, its guard above all;
* `Compile.Filed`: the candidates of every event are, **one by one and in order**, those of what is
  written for it;
* `Compile.state_filed`: so they are for a state that compiles without errors;
* **`Definition.keeps_of_compileSource`**: so they are for all states of a graph;
* `Definition.resolved_of_compileSource`: every guard of a graph comes of a reference.

The guard of a candidate is written under `guard`, or else under `cond`.  Whether it is there decides,
not whether it is null (`Compile.guardRef`), and that is the one way to write a condition that is not
kept.
-/
import Statechart.Proofs.Compiled
import Statechart.Proofs.Transition
import Mathlib.Data.List.ReduceOption

namespace Statechart

namespace Build

variable {α β : Type}

/-- Steps for the members of a list, each with a result of its own kind. -/
theorem Meets.mapM_forall₂ {f : α → Build β} {P : α → β → Prop} {xs : List α}
    (h : ∀ x ∈ xs, (f x).Meets fun _ b _ => P x b) :
    (xs.mapM f).Meets fun _ bs _ => List.Forall₂ P xs bs := by
  induction xs with
  | nil => exact Meets.pure fun _ => .nil
  | cons x xs ih =>
    rw [List.mapM_cons]
    exact Meets.bind (h x (by simp)) fun _ => Meets.bind (ih fun y hy => h y (by simp [hy])) fun _ =>
      Meets.pure fun _ _ hrest _ hfirst => .cons hfirst hrest

/-- A step that yields something does so whatever identifiers are taken. -/
theorem Yields.meets {x : Build α} {P : α → Prop} (h : x.Yields P) :
    x.Meets fun _ a _ => P a := Meets.mono h fun _ _ _ hq => hq.2

/-- A step of which nothing is asked any more. -/
theorem Meets.trivial {x : Build α} {Q : List String → α → List String → Prop} (h : x.Meets Q) :
    x.Meets fun _ _ _ => True := Meets.mono h fun _ _ _ _ => True.intro

end Build

namespace Compile

open Build

/-! ## 1. What is written -/

/-- Where a candidate comes from: an entry of the definition, or a call whose results are stored
although nothing is written for its end. -/
inductive Origin where
  | item (v : Value)
  | results

/-- The reference to the guard of a candidate, null for none: the entry `guard` if there is one, even
a null, and `cond` only if there is not. -/
def guardRef (item : Value) : Value :=
  (Entries.lookup "guard" (candidateFields item)).getD
    ((Entries.lookup "cond" (candidateFields item)).getD .null)

/-- The entries of a configuration. -/
def items (config : Value) : List Origin := (asList config).map .item

/-- Entries for an event. -/
def labelled (event : String) (os : List Origin) : List (String × Origin) := os.map (event, ·)

/-- What is written under `on`. -/
def writtenOn (on : Entries) : List (String × Origin) :=
  on.flatMap fun (event, config) => labelled event.display (items config)

/-- What is written for one timer. -/
def writtenTimer (id : String) : (Int × Value) × Nat → List (String × Origin)
  | ((delay, config), index) => labelled (timerEvent id delay index) (items config)

/-- What is written under `after`. -/
def writtenAfter (id : String) (after : Value) : List (String × Origin) :=
  match delays after with
  | .ok entries => entries.zipIdx.flatMap (writtenTimer id)
  | .error _ => []

/-- Whether a call stores its results. -/
def storesResults (item : Value) : Bool :=
  (item.getD "mapResult").isTruthy || (item.getD "assignTo").isTruthy

/-- What is written for the end of a call. -/
def doneItems (item : Value) : List Origin :=
  match item.getD "onDone" with
  | .null => if storesResults item then [.results] else []
  | config => items config

/-- What is written for the end and for the failure of one call. -/
def writtenCall (id : String) : Value × Nat → List (String × Origin)
  | (item, index) =>
    let invokeId := invokeIdOf id index item
    labelled (Invocation.doneEventOf invokeId) (doneItems item) ++
      labelled (Invocation.errorEventOf invokeId) (items (item.getD "onError"))

/-- What is written under `invoke`. -/
def writtenCalls (id : String) (invoke : Value) : List (String × Origin) :=
  (asList invoke).zipIdx.flatMap (writtenCall id)

/-- All that a state writes, in order. -/
def written (id : String) (es : Entries) : List (String × Origin) :=
  let field := fun name => (Entries.lookup name es).getD .null
  writtenOn (field "on").entries ++ writtenAfter id (field "after") ++
    writtenCalls id (field "invoke")

/-- What is written for an event. -/
def under (event : String) (os : List (String × Origin)) : List Origin :=
  os.filterMap fun (e, o) => if e = event then some o else none

theorem under_append (event : String) (os more : List (String × Origin)) :
    under event (os ++ more) = under event os ++ under event more :=
  List.filterMap_append

theorem under_labelled (event e : String) (os : List Origin) :
    under event (labelled e os) = if e = event then os else [] := by
  unfold under labelled
  rw [List.filterMap_map]
  split
  · rename_i h
    simp [h]
  · rename_i h
    simp [h]

/-! ## 2. Candidates and what is written -/

/-- A guard that is the one of a reference, or no guard where there is no reference. -/
def IsGuardOf (flow : Entries) (host : String → Option HostGuard) (ref : Value)
    (guard : Option Guard) : Prop :=
  (ref = .null ∧ guard = none) ∨
    (ref ≠ .null ∧ ∃ g, Guard.resolve flow host ref = .ok g ∧ guard = some g)

/-- A candidate stands for what is written: it has the guard that is written for it, and one that
nothing is written for stays in its state without condition. -/
structure Realizes (flow : Entries) (host : String → Option HostGuard) (id event : String)
    (o : Origin) (k : Candidate) : Prop where
  event_eq : k.event = event
  source_eq : k.source = id
  guard : ∀ v, o = .item v → IsGuardOf flow host (guardRef v) k.guard
  results : o = .results → k.guard = none ∧ k.target = none

/-- A candidate has a guard exactly if it is written for it. -/
theorem Realizes.guard_isSome_iff {flow : Entries} {host : String → Option HostGuard}
    {id event : String} {v : Value} {k : Candidate} (h : Realizes flow host id event (.item v) k) :
    k.guard.isSome = true ↔ guardRef v ≠ .null := by
  rcases h.guard v rfl with ⟨hnull, hnone⟩ | ⟨href, g, -, hg⟩
  · simp [hnull, hnone]
  · simp [href, hg]

/-- The candidates of an event. -/
def filedUnder (event : String) (ts : Transitions) : List Candidate := (ts.lookup event).getD []

/-- **The candidates of each event are those of what is written for it**, one by one and in order. -/
structure Filed (flow : Entries) (host : String → Option HostGuard) (id : String)
    (ts : Transitions) (os : List (String × Origin)) : Prop where
  events_distinct : (ts.map (·.1)).Nodup
  filed : ∀ event, List.Forall₂ (Realizes flow host id event) (under event os) (filedUnder event ts)

section Filing

variable {flow : Entries} {host : String → Option HostGuard} {id : String}
variable {ts : Transitions} {os : List (String × Origin)}

theorem filed_nil : Filed flow host id [] [] := ⟨List.nodup_nil, fun _ => .nil⟩

theorem filedUnder_extend (event e : String) (ks : List Candidate) (ts : Transitions) :
    filedUnder event (extend e ks ts) =
      filedUnder event ts ++ if e = event then ks else [] := by
  unfold filedUnder
  induction ts with
  | nil =>
    by_cases h : e = event
    · simp [extend, h]
    · have h' : (event == e) = false := by simpa using Ne.symm h
      simp [extend, List.lookup_cons, h, h']
  | cons t ts ih =>
    obtain ⟨d, ds⟩ := t
    by_cases hd : event = d
    · subst hd
      by_cases he : event = e
      · simp [extend, he]
      · have he' : ¬ e = event := fun h => he h.symm
        simp [extend, he, he']
    · have hd' : (event == d) = false := by simpa using hd
      by_cases he : d = e
      · subst he
        have he' : ¬ d = event := fun h => hd h.symm
        simp [extend, he', List.lookup_cons, hd']
      · simp only [extend, he, if_false, List.lookup_cons, hd']
        exact ih

/-- More candidates for an event stand behind those that are there. -/
theorem Filed.extend (h : Filed flow host id ts os) {event : String} {new : List Origin}
    {ks : List Candidate} (hks : List.Forall₂ (Realizes flow host id event) new ks) :
    Filed flow host id (extend event ks ts) (os ++ labelled event new) where
  events_distinct := nodup_events_extend h.events_distinct
  filed := fun e => by
    rw [under_append, under_labelled, filedUnder_extend]
    refine List.rel_append (h.filed e) ?_
    split
    · rename_i heq
      exact heq ▸ hks
    · exact .nil

theorem filedUnder_withoutEmpty (event e : String) {ts : Transitions}
    (h : (ts.map (·.1)).Nodup) : filedUnder event (withoutEmpty e ts) = filedUnder event ts := by
  unfold filedUnder withoutEmpty
  induction ts with
  | nil => rfl
  | cons t ts ih =>
    obtain ⟨d, ds⟩ := t
    simp only [List.map_cons, List.nodup_cons] at h
    rw [List.filter_cons]
    dsimp only
    split
    · rw [List.lookup_cons, List.lookup_cons]
      split
      · rfl
      · exact ih h.2
    · rename_i hgone
      rw [ih h.2, List.lookup_cons]
      have hempty : d = e ∧ ds = [] := by simpa using hgone
      split
      · -- the event whose empty list goes has no other one
        rename_i heq
        have hnone : ts.lookup event = none := by
          rw [List.lookup_eq_none_iff]
          intro t ht
          have hne : d ≠ t.1 := fun hd => h.1 (hd ▸ List.mem_map_of_mem ht)
          have hevent : event = d := by simpa using heq
          simpa [hevent] using hne
        simp [hnone, hempty.2]
      · rfl

/-- An event without candidates need not be listed. -/
theorem Filed.withoutEmpty (h : Filed flow host id ts os) (event : String) :
    Filed flow host id (withoutEmpty event ts) os where
  events_distinct := h.events_distinct.sublist (List.filter_sublist.map _)
  filed := fun e => by
    rw [filedUnder_withoutEmpty e event h.events_distinct]
    exact h.filed e

end Filing

/-! ## 3. Compiling what is written -/

section Compiling

variable (c : Setting) (id : String)

/-- The relation of a candidate to what is written, in a setting. -/
abbrev RealizesIn (event : String) (o : Origin) (k : Candidate) : Prop :=
  Realizes c.guards c.registry.guard? id event o k

/-- The candidates of the events of a state, in a setting. -/
abbrev FiledIn (ts : Transitions) (os : List (String × Origin)) : Prop :=
  Filed c.guards c.registry.guard? id ts os

theorem guardOf_isGuardOf (ref : Value) :
    (guardOf c id ref).Yields (IsGuardOf c.guards c.registry.guard? ref) := by
  unfold guardOf
  split
  · exact Yields.pure (.inl ⟨rfl, rfl⟩)
  · rename_i href
    unfold parseGuard
    split
    · rename_i g hg
      exact Yields.pure (.inr ⟨href, g, hg, rfl⟩)
    · exact Yields.after_fatal rfl (Yields.pure (P := fun _ => True) trivial)

theorem candidate_realizes (event : String) (first : List BoundAction) (item : Value) :
    (candidate c id event first item).Yields (RealizesIn c id event (.item item)) :=
  Yields.bind (targetOf_yields c id event _) fun _ =>
    Yields.bind (guardOf_isGuardOf c id _) fun guard =>
      Yields.bind (bindActions_yields c id _) fun _ => Yields.pure fun _ hguard _ =>
        { event_eq := rfl, source_eq := rfl
          guard := fun v hv => by cases hv; exact hguard
          results := fun h => by cases h }

theorem candidates_realize (event : String) (first : List BoundAction) (config : Value) :
    (candidates c id event first config).Yields
      (List.Forall₂ (RealizesIn c id event) (items config)) :=
  Yields.mono (Yields.mapM fun item _ => candidate_realizes c id event first item) fun _ hks =>
    List.forall₂_map_left_iff.mpr hks

theorem namedTransitions_filed (on : Entries) :
    (namedTransitions c id on).Yields fun ts => FiledIn c id ts (writtenOn on) := by
  refine Yields.foldlM (I := fun before ts => FiledIn c id ts (writtenOn before)) ?_ filed_nil
  rintro before ⟨event, config⟩ after _ ts
  refine Yields.bind (candidates_realize c id event.display [] config) fun ks => Yields.pure ?_
  intro hks hts
  have hmore := hts.extend hks
  rwa [writtenOn, List.flatMap_append, List.flatMap_singleton]

theorem timers_filed (after : Value) (ts : Transitions) :
    (timers c id after ts).Yields fun r => ∀ os, FiledIn c id ts os →
      FiledIn c id r.2 (os ++ writtenAfter id after) := by
  refine Yields.bind (lift_yields _) fun entries => ?_
  refine Yields.mono (P := fun r => ∀ os, FiledIn c id ts os →
    FiledIn c id r.2 (os ++ entries.zipIdx.flatMap (writtenTimer id))) ?_ ?_
  · refine Yields.foldlM (I := fun before (r : List AfterTimer × Transitions) =>
      ∀ os, FiledIn c id ts os → FiledIn c id r.2 (os ++ before.flatMap (writtenTimer id))) ?_ ?_
    · rintro before ⟨⟨delay, config⟩, index⟩ rest _ ⟨done, ts'⟩
      refine Yields.bind (candidates_realize c id _ [] config) fun ks => Yields.pure ?_
      intro hks hI os hts
      have hmore := (hI os hts).extend hks
      rwa [List.flatMap_append, List.flatMap_singleton, ← List.append_assoc]
    · intro os hts
      simpa using hts
  · intro r hr hentries os hts
    rw [writtenAfter, hentries]
    exact hr os hts

/-- Without errors every reference to an action has its action. -/
theorem bindActions_length (refs : List Value) :
    (bindActions c id refs).Yields fun as => as.length = refs.length := by
  have hbind : ∀ ref, (bindAction c id ref).Yields fun a => a.isSome = true := fun ref => by
    unfold bindAction
    split
    · exact Yields.pure rfl
    · exact Yields.after_fatal rfl (Yields.pure (P := fun _ => True) trivial)
  refine Yields.bind (Yields.mapM fun ref _ => hbind ref) fun as => Yields.pure fun has => ?_
  induction has with
  | nil => rfl
  | cons ha _ ih =>
    obtain ⟨a, rfl⟩ := Option.isSome_iff_exists.mp ha
    rw [List.reduceOption_cons_of_some, List.length_cons, List.length_cons, ih]

theorem resultActions_isEmpty (item : Value) :
    (resultActions c id item).Yields fun as => as.isEmpty = !storesResults item := by
  refine Yields.mono (bindActions_length c id _) fun as has => ?_
  have hempty : as.isEmpty = true ↔ as.length = 0 := by simp
  rw [Bool.eq_iff_iff, hempty, has, storesResults]
  cases (item.getD "mapResult").isTruthy <;> cases (item.getD "assignTo").isTruthy <;> simp

theorem doneCandidates_realize (event : String) (results : List BoundAction) (item : Value) :
    (doneCandidates c id event results (item.getD "onDone")).Yields fun ks =>
      results.isEmpty = (!storesResults item) →
        List.Forall₂ (RealizesIn c id event) (doneItems item) ks := by
  unfold doneCandidates doneItems
  cases item.getD "onDone" with
  | null =>
    refine Yields.pure fun hresults => ?_
    dsimp only
    cases hstores : storesResults item with
    | false =>
      simp only [hresults, hstores, Bool.not_false, if_true, Bool.false_eq_true, if_false]
      exact .nil
    | true =>
      simp only [hresults, hstores, Bool.not_true, Bool.false_eq_true, if_true, if_false]
      refine .cons ?_ .nil
      exact { event_eq := rfl, source_eq := rfl, guard := (fun v hv => by cases hv)
              results := fun _ => ⟨rfl, rfl⟩ }
  | _ => exact Yields.mono (candidates_realize c id event results _) fun ks hks _ => hks

theorem withErrorHandler_filed (invokeId : String) (config : Value) (ts : Transitions) :
    (withErrorHandler c id invokeId config ts).Yields fun ts' => ∀ os, FiledIn c id ts os →
      FiledIn c id ts' (os ++ labelled (Invocation.errorEventOf invokeId) (items config)) := by
  unfold withErrorHandler
  split
  · refine Yields.bind (report_notice _ trivial) fun _ => Yields.pure fun _ os hts => ?_
    simpa [labelled, items, asList] using hts
  · exact Yields.bind (candidates_realize c id _ [] _) fun ks =>
      Yields.pure fun hks os hts => hts.extend hks

theorem invocation_filed (index : Nat) (item : Value) (ts : Transitions) :
    (invocation c id index item ts).Meets fun _ r _ => ∀ os, FiledIn c id ts os →
      FiledIn c id r.2 (os ++ writtenCall id (item, index)) := by
  refine Meets.bind (takeInvokeId_meets id _).trivial fun _ =>
    Meets.bind (resolveActor_yields c id _).meets.trivial fun actor =>
      Meets.bind (retryPolicy_yields c id _ _).meets fun retry =>
        Meets.bind (resultActions_isEmpty c id item).meets fun results =>
          Meets.bind (doneCandidates_realize c id _ results item).meets fun done =>
            Meets.bind (withErrorHandler_filed c id _ _ _).meets fun ts' => Meets.pure ?_
  intro _ _ herror _ hdone _ hresults _ _ _ _ _ _ os hts
  have hended := (hts.extend (hdone hresults)).withoutEmpty
    (Invocation.doneEventOf (invokeIdOf id index item))
  have hall := herror _ hended
  rwa [List.append_assoc] at hall

theorem invocations_filed (invoke : Value) (ts : Transitions) :
    (invocations c id invoke ts).Meets fun _ r _ => ∀ os, FiledIn c id ts os →
      FiledIn c id r.2 (os ++ writtenCalls id invoke) := by
  refine Meets.mono (Meets.foldlM
    (I := fun before _ (r : List Invocation × Transitions) => ∀ os, FiledIn c id ts os →
      FiledIn c id r.2 (os ++ before.flatMap (writtenCall id))) ?_ ([], ts)) ?_
  · rintro before ⟨item, index⟩ after _ ⟨done, ts'⟩
    refine Meets.bind (invocation_filed c id index item ts') fun ⟨call, ts''⟩ => Meets.pure ?_
    intro _ _ hcall hI os hts
    have hmore := hcall _ (hI os hts)
    rwa [List.flatMap_append, List.flatMap_singleton, ← List.append_assoc]
  · intro _ r _ hall
    exact hall fun os hts => by simpa using hts

/-- **The candidates of a state that compiles without errors are those of what it writes.** -/
theorem state_filed (s : RawState) :
    (state c s).Meets fun _ n _ =>
      n.id = s.id ∧ FiledIn c s.id n.transitions (written s.id s.definition) := by
  refine Meets.bind (kindOf_yields s).meets.trivial fun kind =>
    Meets.bind (bindActions_yields c s.id _).meets fun entry =>
      Meets.bind (bindActions_yields c s.id _).meets fun exit =>
        Meets.bind (bindingsOf_yields c s.id _ _).meets fun inputs =>
          Meets.bind (bindingsOf_yields c s.id _ _).meets fun outputs =>
            Meets.bind (computedFields_yields s.id _).meets fun computed =>
              Meets.bind (validations_yields c s.id _).meets fun validations =>
                Meets.bind (namedTransitions_filed c s.id _).meets fun ts =>
                  Meets.bind (timers_filed c s.id _ ts).meets fun ⟨after, ts'⟩ =>
                    Meets.bind (invocations_filed c s.id _ ts') fun ⟨invokes, ts''⟩ => ?_
  dsimp only
  split
  · exact Meets.after_fatal rfl (Meets.bind (R := fun _ _ _ => True) (initialChild_yields s kind)
      fun _ => Meets.pure fun _ _ _ => trivial)
  · refine Meets.bind (initialChild_yields s kind).meets.trivial fun initial => Meets.pure ?_
    intro _ _ _ _ hcalls _ htimers _ hnamed _ _ _ _ _ _ _ _ _ _ _ _ _ _
    exact ⟨rfl, hcalls _ (htimers _ hnamed)⟩

end Compiling

end Compile

namespace Definition

open Build

/-! ## 4. Graphs -/

/-- The guards that a flow names. -/
def guards (definition : Value) : Entries := (definition.getD "guards").entries

/-- A node keeps what is written in its place: for every event its candidates are those of what is
written there for that event, one by one and in order. -/
structure Keeps (flow : Entries) (host : String → Option HostGuard) (p : Nest.Position)
    (n : StateNode) : Prop where
  id_eq : n.id = p.id
  candidates : ∃ es inside, p.nest = .state es inside ∧ ∀ event,
    List.Forall₂ (Compile.Realizes flow host n.id event) (Compile.under event (Compile.written n.id es))
      (n.candidatesFor event)

theorem nodes_filed (registry : Registry) (config : Config) (es : Entries) (tree : Tree) :
    (nodes registry config es tree).Meets fun _ r _ =>
      List.Forall₂ (fun s n => n.id = s.id ∧ Compile.Filed (guards (.dict es)) registry.guard? s.id
        n.transitions (Compile.written s.id s.definition)) tree.states r.2 :=
  Meets.bind (buildActors_yields registry _).meets.trivial fun ⟨_, _⟩ =>
    Meets.bind (initialState_yields tree _).meets.trivial fun _ =>
      Meets.bind (Meets.mapM_forall₂ fun s _ => Compile.state_filed _ s) fun _ =>
        Meets.pure fun _ _ hns _ _ _ _ => hns

/-- **A graph keeps all that its definition writes.** -/
theorem keeps_of_compileSource {registry : Registry} {config : Config} {source : FlowSource}
    {c : Compiled} (h : compileSource registry config source = .ok c) :
    List.Forall₂ (Keeps (guards source.definition) registry.guard?) (Nest.positions source.states)
      c.graph.states := by
  obtain ⟨o, ho, hg, he⟩ := run_of_compileSource h
  obtain ⟨s, hs, hclean, -⟩ := graph_of_run ho hg he
  obtain ⟨es, progress, _, hes, hrun, hnone, -, -⟩ := exists_nodes_of_run ho hg he
  have hfiled := ((nodes_filed registry config es _ _ _ _ hrun).2 hnone).2
  rw [hs] at hclean
  rw [hes]
  refine comp_of_forall₂ (Tree.fills_ofNests hclean) hfiled fun p s n hp hn => ?_
  obtain ⟨inside, hinside⟩ := hp.definition_eq
  refine ⟨hn.1.trans hp.id_eq, _, inside, hinside, fun event => ?_⟩
  rw [hn.1]
  exact hn.2.filed event

/-- The guards of a graph come of references. -/
theorem resolved_of_compileSource {registry : Registry} {config : Config} {source : FlowSource}
    {c : Compiled} (h : compileSource registry config source = .ok c) {n : StateNode}
    (hn : n ∈ c.graph.states) {event : String} {k : Candidate} (hk : k ∈ n.candidatesFor event)
    {g : Guard} (hg : k.guard = some g) :
    ∃ ref, Guard.resolve (guards source.definition) registry.guard? ref = .ok g := by
  obtain ⟨p, -, hp⟩ := exists_left_of_forall₂ (keeps_of_compileSource h) hn
  obtain ⟨es, _, -, hall⟩ := hp.candidates
  obtain ⟨o, -, ho⟩ := exists_left_of_forall₂ (hall event) hk
  cases o with
  | item v =>
    rcases ho.guard v rfl with ⟨-, hnone⟩ | ⟨-, g', hg', hsome⟩
    · rw [hg] at hnone
      cases hnone
    · rw [hg] at hsome
      cases hsome
      exact ⟨_, hg'⟩
  | results =>
    rw [(ho.results rfl).1] at hg
    cases hg

end Definition

end Statechart
