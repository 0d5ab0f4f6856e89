/-
# What the parts of a graph carry with them

An action of a graph has been bound and an input of a graph has been parsed, whatever else was wrong with
the definition.  Hence what binding and parsing establish holds of every graph, and of its parts wherever
they have come from: an action lists the places that its parameters name, and an input leads into the
context.

* `BoundAction.IsBound`: an action that lists the places it is told to write;
* `Build.Gives`: what is known of the result of a step, whatever it has reported;
* `Compile.state_gives`: what compiling a state gives;
* **`Definition.areBound_of_compileSource`**: so are the parts of a graph.
-/
import Statechart.Proofs.Compiled
import Statechart.Proofs.Context
import Mathlib.Data.List.ReduceOption

namespace Statechart

/-! ## 1. Actions -/

/-- An action of a catalogue, which lists the places that its specification and its parameters name. -/
structure BoundAction.IsBound (catalogue : String → Option ActionSpec) (a : BoundAction) : Prop where
  known : ∃ name, catalogue name = some a.spec
  writes_eq : a.writes = distinctSorted (Action.writes a.spec a.params)

namespace Action

variable {catalogue : String → Option ActionSpec} {a : BoundAction}

theorem isBound_of_bindSpec {name : String} {spec : ActionSpec} {params : Entries}
    (hknown : known catalogue name = .ok spec) (h : bindSpec spec params = .ok a) :
    a.IsBound catalogue := by
  have hspec : catalogue name = some spec := by
    unfold known at hknown
    split at hknown
    · rename_i hfound
      cases hknown
      exact hfound
    · cases hknown
  unfold bindSpec at h
  dsimp only at h
  split at h
  · split at h
    · cases h
    · cases h
      exact ⟨⟨name, hspec⟩, rfl⟩
  · cases h

theorem isBound_of_bindFrom {flow unused : Entries} {ref : Value}
    (h : bindFrom flow catalogue unused ref = .ok a) : a.IsBound catalogue := by
  fun_induction bindFrom flow catalogue unused ref with
  | case1 _ es name =>
    obtain ⟨spec, hspec, h⟩ := bind_eq_ok.mp h
    exact isBound_of_bindSpec hspec h
  | case4 _ s _ _ _ _ ih => exact ih h
  | case6 _ s =>
    obtain ⟨spec, hspec, h⟩ := bind_eq_ok.mp h
    obtain ⟨params, -, h⟩ := bind_eq_ok.mp h
    exact isBound_of_bindSpec hspec h
  | _ => cases h

end Action

/-! ## 2. Results of compile steps -/

namespace Build

variable {α β : Type} {P : α → Prop} {R : β → Prop}

/-- A step that goes on has a result as stated, whatever it has reported. -/
def Gives (x : Build α) (P : α → Prop) : Prop := ∀ p a p', x.run p = .ok (a, p') → P a

theorem gives_any (x : Build α) : x.Gives fun _ => True := fun _ _ _ _ => trivial

theorem Gives.pure {a : α} (h : P a) : Gives (Pure.pure a : Build α) P := by
  intro p b p' hx
  cases hx
  exact h

theorem Gives.mono {x : Build α} {Q : α → Prop} (h : x.Gives P) (hPQ : ∀ a, P a → Q a) : x.Gives Q :=
  fun p a p' hx => hPQ a (h p a p' hx)

/-- **One step after another.** -/
theorem Gives.bind {x : Build α} {f : α → Build β} (hx : x.Gives P) (hf : ∀ a, P a → (f a).Gives R) :
    (x >>= f).Gives R := by
  intro p b p' h
  rw [StateT.run_bind] at h
  obtain ⟨⟨a, p₁⟩, hrun, h⟩ := bind_eq_ok.mp h
  exact hf a (hx p a p₁ hrun) p₁ b p' h

/-- A step of which nothing is asked before another one. -/
theorem Gives.after {x : Build α} {f : α → Build β} (hf : ∀ a, (f a).Gives R) : (x >>= f).Gives R :=
  (gives_any x).bind fun a _ => hf a

theorem Gives.mapM {f : α → Build β} {xs : List α} (h : ∀ x ∈ xs, (f x).Gives R) :
    (xs.mapM f).Gives fun bs => ∀ b ∈ bs, R b := by
  induction xs with
  | nil => exact Gives.pure fun _ hb => nomatch hb
  | cons x xs ih =>
    rw [List.mapM_cons]
    exact (h x (by simp)).bind fun b hb => (ih fun y hy => h y (by simp [hy])).bind fun bs hbs =>
      Gives.pure (List.forall_mem_cons.mpr ⟨hb, hbs⟩)

theorem Gives.foldlM {f : β → α → Build β} {xs : List α} (h : ∀ b, ∀ x ∈ xs, R b → (f b x).Gives R)
    {b : β} (hb : R b) : (xs.foldlM f b).Gives R := by
  induction xs generalizing b with
  | nil => exact Gives.pure hb
  | cons x xs ih =>
    rw [List.foldlM_cons]
    exact (h b x (by simp) hb).bind fun b' hb' => ih (fun b y hy => h b y (by simp [hy])) hb'

/-- Steps that may leave something out. -/
theorem Gives.reduced {f : α → Build (Option β)} {xs : List α}
    (h : ∀ x ∈ xs, (f x).Gives fun b? => ∀ b, b? = some b → R b) :
    Gives (do return (← xs.mapM f).reduceOption) fun bs => ∀ b ∈ bs, R b :=
  (Gives.mapM h).bind fun _ hbs => Gives.pure fun b hb =>
    hbs (some b) (List.reduceOption_mem_iff.mp hb) b rfl

end Build

namespace Compile

open Build

variable (c : Setting) (id : String)

/-! ## 3. Parts of states -/

theorem bindAction_gives (ref : Value) :
    (bindAction c id ref).Gives fun a? => ∀ a, a? = some a → a.IsBound c.registry.action? := by
  unfold bindAction
  split
  · rename_i a hbind
    refine Gives.pure ?_
    rintro _ ⟨⟩
    exact Action.isBound_of_bindFrom hbind
  · exact Gives.after fun _ => Gives.pure nofun

theorem bindActions_gives (refs : List Value) :
    (bindActions c id refs).Gives fun as => ∀ a ∈ as, a.IsBound c.registry.action? :=
  Gives.reduced fun ref _ => bindAction_gives c id ref

theorem inputs_give (descriptors : List Value) :
    (bindingsOf c id .input descriptors).Gives fun bs => ∀ b ∈ bs, b.target.store = .context := by
  refine Gives.reduced fun descriptor _ => ?_
  unfold bindingOf
  split
  · rename_i b hparse
    refine Gives.pure ?_
    rintro _ ⟨⟩
    exact Binding.parse_input_target hparse
  · exact Gives.after fun _ => Gives.pure nofun
  · rename_i e _
    intro p b? p' h
    cases h

theorem validations_give (rules : List Value) :
    (validations c id rules).Gives fun a? => ∀ a, a? = some a → a.IsBound c.registry.action? := by
  unfold validations
  split
  · exact Gives.pure nofun
  · refine Gives.after fun ok => ?_
    split
    · exact bindAction_gives c id _
    · exact Gives.pure nofun

/-- Candidates whose actions are bound. -/
def AreBound (ks : List Candidate) : Prop := ∀ k ∈ ks, ∀ a ∈ k.actions, a.IsBound c.registry.action?

/-- None are. -/
theorem none_bound : ∀ a ∈ ([] : List BoundAction), a.IsBound c.registry.action? := nofun

variable {first : List BoundAction} {ts : Transitions}

theorem candidates_give (event : String) (hfirst : ∀ a ∈ first, a.IsBound c.registry.action?)
    (config : Value) : (candidates c id event first config).Gives (AreBound c) := by
  refine Gives.mapM fun item _ => Gives.after fun target => Gives.after fun guard =>
    (bindActions_gives c id _).bind fun as has => Gives.pure fun a ha => ?_
  exact (List.mem_append.mp ha).elim (hfirst a) (has a)

/-- Candidates by event whose actions are bound. -/
def AllBound (ts : Transitions) : Prop := ∀ t ∈ ts, AreBound c t.2

variable {c} in
theorem AllBound.extend (h : AllBound c ts) {event : String} {ks : List Candidate}
    (hks : AreBound c ks) : AllBound c (extend event ks ts) := by
  rintro ⟨e, es⟩ hes k hk
  rcases mem_extend hes with hes | ⟨rfl, ds, rfl, hds⟩
  · exact h _ hes k hk
  · rcases List.mem_append.mp hk with hk | hk
    · rcases hds with rfl | hds
      · cases hk
      · exact h _ hds k hk
    · exact hks k hk

theorem namedTransitions_give (on : Entries) : (namedTransitions c id on).Gives (AllBound c) :=
  Gives.foldlM (fun _ _ _ hts => (candidates_give c id _ (none_bound c) _).bind fun _ hks =>
    Gives.pure (hts.extend hks)) fun _ ht => by cases ht

theorem timers_give (after : Value) (hts : AllBound c ts) :
    (timers c id after ts).Gives fun r => AllBound c r.2 :=
  Gives.after fun _ => Gives.foldlM (fun _ _ _ hr =>
    (candidates_give c id _ (none_bound c) _).bind fun _ hks => Gives.pure (hr.extend hks)) hts

theorem invocation_gives (index : Nat) (item : Value) (hts : AllBound c ts) :
    (invocation c id index item ts).Gives fun r => AllBound c r.2 := by
  refine Gives.after fun _ => Gives.after fun actor => Gives.after fun retry =>
    (bindActions_gives c id _).bind fun results hresults => ?_
  have hdone : ∀ event config, (doneCandidates c id event results config).Gives (AreBound c) := by
    intro event config
    unfold doneCandidates
    split
    · refine Gives.pure ?_
      split
      · exact nofun
      · intro k hk a ha
        rw [List.mem_singleton] at hk
        subst hk
        exact hresults a ha
    · exact candidates_give c id event hresults _
  refine (hdone _ _).bind fun done hdone => ?_
  have hended : AllBound c (withoutEmpty (Invocation.doneEventOf (invokeIdOf id index item))
      (extend (Invocation.doneEventOf (invokeIdOf id index item)) done ts)) :=
    fun t ht => hts.extend hdone t (List.mem_of_mem_filter ht)
  refine Gives.bind (P := AllBound c) ?_ fun ts' hts' => Gives.pure hts'
  unfold withErrorHandler
  split
  · exact Gives.after fun _ => Gives.pure hended
  · exact (candidates_give c id _ (none_bound c) _).bind fun ks hks => Gives.pure (hended.extend hks)

theorem invocations_give (invoke : Value) (hts : AllBound c ts) :
    (invocations c id invoke ts).Gives fun r => AllBound c r.2 :=
  Gives.foldlM (fun (_, _) (item, index) _ hr => (invocation_gives c id index item hr).bind
    fun (_, _) hr' => Gives.pure hr') hts

end Compile

/-- The actions of a state are bound, and its inputs lead into the context. -/
structure StateNode.IsBound (catalogue : String → Option ActionSpec) (n : StateNode) : Prop where
  action : ∀ a ∈ n.allActions, a.IsBound catalogue
  input : ∀ b ∈ n.inputs, b.target.store = .context

/-- **The parts of a state are bound.** -/
theorem Compile.state_gives (c : Setting) (s : RawState) :
    (state c s).Gives (StateNode.IsBound c.registry.action?) := by
  refine Build.Gives.after fun kind => (bindActions_gives c s.id _).bind fun entry hentry =>
    (bindActions_gives c s.id _).bind fun exit hexit => (inputs_give c s.id _).bind fun inputs hinputs =>
      Build.Gives.after fun outputs => Build.Gives.after fun computed =>
        (validations_give c s.id _).bind fun validations hvalidations =>
          (namedTransitions_give c s.id _).bind fun ts hts => (timers_give c s.id _ hts).bind
            fun ⟨after, ts'⟩ hts' => (invocations_give c s.id _ hts').bind
              fun ⟨invokes, ts''⟩ hts'' => ?_
  have hnode : ∀ n : StateNode, n.entry = entry → n.exit = exit → n.transitions = ts'' →
      n.validations = validations → n.inputs = inputs → n.IsBound c.registry.action? := by
    rintro n rfl rfl rfl rfl rfl
    refine ⟨fun a ha => ?_, hinputs⟩
    rcases List.mem_append.mp ha with ha | ha
    · rcases List.mem_append.mp ha with ha | ha
      · exact (List.mem_append.mp ha).elim (hentry a) (hexit a)
      · obtain ⟨k, hk, ha⟩ := List.mem_flatMap.mp ha
        obtain ⟨t, ht, hk⟩ := List.mem_flatMap.mp hk
        exact hts'' t ht k hk a ha
    · exact hvalidations a (Option.mem_toList.mp ha)
  dsimp only
  split
  · exact Build.Gives.after fun _ => Build.Gives.after fun initial =>
      Build.Gives.pure (hnode _ rfl rfl rfl rfl rfl)
  · exact Build.Gives.after fun initial => Build.Gives.pure (hnode _ rfl rfl rfl rfl rfl)

namespace Definition

/-! ## 4. Graphs -/

/-- **The parts of a graph are bound.** -/
theorem areBound_of_compileSource {registry : Registry} {config : Config} {source : FlowSource}
    {c : Compiled} (h : compileSource registry config source = .ok c) :
    ∀ n ∈ c.graph.states, n.IsBound registry.action? := by
  obtain ⟨o, hrun, hgraph, herrors⟩ := run_of_compileSource h
  obtain ⟨es, progress, -, -, hnodes, -⟩ := exists_nodes_of_run hrun hgraph herrors
  have hall : (nodes registry config es (Tree.ofNests source.states)).Gives fun r =>
      ∀ n ∈ r.2, n.IsBound registry.action? :=
    Build.Gives.after fun _ => Build.Gives.after fun _ =>
      (Build.Gives.mapM fun s _ => Compile.state_gives _ s).bind fun ns hns => Build.Gives.pure hns
  exact hall _ _ _ hnodes

end Definition

end Statechart
