/-
# Settled configurations

Between two events an instance stands in a settled configuration: a leaf, the states around it, and one
open scope for each of them.  The active states are edited in place, by a number computed from the
source and the target of a transition, and the leaf is written down separately at the end; that the
two fit together is an invariant of whole runs, for as long as nothing raises.

* `Instance.Rests`: a step that is no transition leaves the leaf and what is active alone;
* **`Instance.Step.rests_or_transition`**: from a settled configuration, every step rests or is a
  transition;
* **`Definition.settled_of_run`**: the invariant, for all runs of all definitions that compile;
* **`Definition.transition_of_reached`**: hence every transition of a run does what it should.
-/
import Statechart.Proofs.Transition
import Statechart.Proofs.Compiled

namespace Statechart

/-- What may stand in the journal of a run: listeners are told settled configurations, and every state
that is looked for is found. -/
def Happening.Fits (g : Graph) : Happening → Prop
  | .told _ c => c.Settled g
  | .missed _ => False
  | _ => True

/-- What may be written down while no state is entered or left. -/
def Happening.Rests (g : Graph) : Happening → Prop
  | .told _ c => c.Settled g
  | .missed _ | .entered _ | .left .. => False
  | _ => True

theorem Happening.Rests.fits {g : Graph} {x : Happening} (h : x.Rests g) : x.Fits g := by
  cases x <;> first | exact h | trivial

theorem Happening.IsOf.fits {g : Graph} {opened : List Scope} {x : Happening} (h : x.IsOf opened) :
    x.Fits g := by
  cases x <;> first | exact h.elim | trivial

namespace Instance

variable {m : Machine} {g : Graph} {s s' s₁ : Instance}

open Run

/-! ## 1. Steps from settled configurations -/

/-- What holds between two events of a run in which nothing raises, once it has begun. -/
structure Standing (g : Graph) (s : Instance) : Prop where
  started : s.started = true
  numbered : s.Numbered
  settled : s.configuration.Settled g

/-- No state is entered or left; at most, the end comes. -/
structure Rests (g : Graph) (s s' : Instance) : Prop where
  state : s'.state = s.state
  active : s'.active = s.active
  scopes : (s'.status = s.status ∧ s'.scopes = s.scopes ∧ s'.live = s.live) ∨
    (s'.status ≠ .active ∧ s'.scopes = [] ∧ s'.live = [])
  journal : ∃ notes, s'.journal = s.journal ++ notes ∧ ∀ x ∈ notes, x.Rests g

/-- Nothing changes that shows where an instance stands. -/
theorem Rests.of_configuration (h : s'.configuration = s.configuration) {notes : List Happening}
    (hjournal : s'.journal = s.journal ++ notes) (hnotes : ∀ x ∈ notes, x.Rests g) :
    Rests g s s' := by
  simp only [configuration, Configuration.mk.injEq] at h
  exact ⟨h.1, h.2.1, Or.inl ⟨h.2.2.2.2, h.2.2.1, h.2.2.2.1⟩, notes, hjournal, hnotes⟩

theorem Stays.rests (h : Stays s s') : Rests g s s' := by
  obtain ⟨_, _, _, notes, rfl, hnotes⟩ := h
  refine Rests.of_configuration (Eq.refl _) (Eq.refl _) fun x hx => ?_
  have hquiet := hnotes x hx
  cases x <;> trivial

theorem Rests.settled (h : Rests g s s') (hs : s.configuration.Settled g) :
    s'.configuration.Settled g := by
  obtain ⟨hstate, hactive, ⟨hstatus, hsame, hlive⟩ | ⟨hended, hscopes, hlive⟩, -⟩ := h
  · have hconfiguration : s'.configuration = s.configuration := by
      simp only [configuration, hstate, hactive, hstatus, hsame, hlive]
    exact hconfiguration ▸ hs
  · have hconfiguration : s'.configuration = ⟨s.state, s.active, [], [], s'.status⟩ := by
      simp only [configuration, hstate, hactive, hscopes, hlive]
    rw [hconfiguration]
    exact ⟨hs.leaf, hs.path, hs.distinct, fun hrunning => absurd hrunning hended,
      fun _ => ⟨rfl, rfl⟩⟩

theorem Arrival.settled {node : StateNode} {kept opened : List Scope} (wf : g.WellFormed)
    (h : Arrival g node kept opened s s') (hactive : s.status = .active) (hs' : s'.Numbered) :
    s'.configuration.Settled g := by
  have hpath : g.pathTo s'.state = .ok s'.active := by
    rw [h.state, h.active]
    exact h.path
  have hleaf : g.state s'.state = .ok node := by
    rw [h.state]
    exact wf.state_of_mem h.leaf_mem
  cases hfinal : node.isFinal with
  | true =>
    obtain ⟨hstatus, hnone⟩ := h.ended hfinal
    exact ⟨⟨node, hleaf, h.leaf_kind⟩, hpath, wf.nodup_pathTo hpath,
      fun hrunning => absurd (hstatus.symm.trans hrunning) (by decide), fun _ => hnone⟩
  | false =>
    obtain ⟨hstatus, hscopes, hlive⟩ := h.running hfinal
    have hstates : s'.scopes.map (·.state) = s'.active := by
      rw [hscopes, h.active, List.map_append]
    have hserials : s'.scopes.map (·.serial) = s'.live := by
      rw [hscopes, hlive]
    exact ⟨⟨node, hleaf, h.leaf_kind⟩, hpath, wf.nodup_pathTo hpath,
      fun _ => ⟨hstates, hserials, hs'.live_nodup⟩,
      fun hended => absurd (hstatus.trans hactive) hended⟩

/-- **Every step rests or is a transition**, from a settled configuration and unless something raises
on the way. -/
theorem Step.rests_or_transition (wf : m.graph.WellFormed) (h : Step m s s')
    (hstanding : Standing m.graph s) (hcalm : s'.Calm) :
    Rests m.graph s s' ∨ s.status = .active ∧
      ∃ lastEvent world c target node kept gone opened,
        Transition m.graph c target node kept gone opened { s with lastEvent, world } s' := by
  obtain ⟨hstarted, hs, hsettled⟩ := hstanding
  have hquiet : ∀ s', s'.configuration = s.configuration → s'.journal = s.journal →
      Rests m.graph s s' := by
    intro s' hsame hjournal
    have hjournal' : s'.journal = s.journal ++ [] := by rw [hjournal, List.append_nil]
    exact Rests.of_configuration hsame hjournal' (by simp)
  have hnoted : ∀ s' x, s'.configuration = s.configuration → s'.journal = s.journal ++ [x] →
      x.Rests m.graph → Rests m.graph s s' := fun s' x hsame hjournal hx =>
    Rests.of_configuration hsame hjournal fun y hy => (List.mem_singleton.mp hy) ▸ hx
  have hreceived : ∀ scope e (t : Instance), t.configuration = s.configuration →
      t.journal = s.journal →
      Rests m.graph s (t.received scope e) := by
    intro scope e t hsame hjournal
    unfold received
    split
    · exact hnoted _ (.accepted ⟨e, some scope⟩) hsame (by simp [enqueue, note, hjournal]) trivial
    · exact hquiet _ hsame hjournal
  cases h with
  | aside h =>
    cases h with
    | quiet => exact Or.inl (hquiet _ (Eq.refl _) (Eq.refl _))
    | told l => exact Or.inl (hnoted _ _ (Eq.refl _) (Eq.refl _) hsettled)
    | missed hmissed =>
      obtain ⟨n, hn, -⟩ := hsettled.leaf
      exact absurd (hn.symm.trans hmissed) (by simp)
  | waited | resumed | vanished | cleared => exact Or.inl (hquiet _ (Eq.refl _) (Eq.refl _))
  | looked e =>
    rcases select_cases wf e hsettled.path with ⟨c?, world, hselect, -⟩ | ⟨f, world, hselect⟩
    · rw [hselect]
      exact Or.inl (hquiet _ (Eq.refl _) (Eq.refl _))
    · rw [hselect]
      exact Or.inl (hnoted _ (.raised .guard f) (Eq.refl _) (Eq.refl _) trivial)
  | opened hopened => exact absurd (hopened.symm.trans hstarted) (by decide)
  | accepted e => exact Or.inl (hnoted _ (.accepted _) (Eq.refl _) (Eq.refl _) trivial)
  | fired => exact Or.inl (hreceived _ _ _ (Eq.refl _) (Eq.refl _))
  | reported => exact Or.inl (hreceived _ _ _ (Eq.refl _) (Eq.refl _))
  | dropped | begun | through => exact Or.inl (hnoted _ _ (Eq.refl _) (Eq.refl _) trivial)
  | processed e _ hactive =>
    rcases process_cases wf e hsettled hactive hs hcalm with hstays | htransition
    · exact Or.inl hstays.rests
    · exact Or.inr ⟨hactive, htransition⟩
  | stopped hactive =>
    obtain ⟨_, _, _, hclose, -⟩ := closeAll_less (hsettled.running hactive).2.1.symm
    rw [hclose]
    exact Or.inl ⟨rfl, rfl, Or.inr ⟨(fun h => by cases h), rfl, rfl⟩, [.ended .stopped], rfl,
      fun x hx => (List.mem_singleton.mp hx) ▸ trivial⟩

/-! ## 2. The first leaf -/

/-- Nothing has been entered yet. -/
structure Blank (s : Instance) : Prop where
  started : s.started = false
  active : s.active = []
  scopes : s.scopes = []
  live : s.live = []

/-- The states around the first leaf are entered one after the other, unless something raises. -/
theorem ends_enterFirst (wf : m.graph.WellFormed) (hs : s.Blank) :
    ∃ node ∈ m.graph.states, node.kind ≠ .compound ∧ ∃ path, m.graph.pathTo node.id = .ok path ∧
      (enterFirst m).Ends { s with started := true } fun _ s' => ∃ opened s₁,
        opened.map (·.state) = path ∧ Entered m.graph opened { s with started := true } s₁ ∧
          s' = settleAt node s₁ := by
  obtain ⟨node, hnode, hleaf, hkind, -⟩ := wf.exists_leafFor wf.initial_mem
  obtain ⟨path, hpath⟩ := wf.exists_pathTo (List.mem_map.mpr ⟨node, hnode, rfl⟩)
  refine ⟨node, hnode, hkind, path, hpath,
    Ends.seek_bind hleaf ((ends_arrive wf startEvent hnode hpath ?_).mono ?_)⟩
  · show s.scopes.map (·.state) = path.take 0
    rw [hs.scopes]
    rfl
  · exact fun _ _ h => h

/-- **The first leaf is entered** with all states around it, unless something raises. -/
theorem arrival_enterFirst (wf : m.graph.WellFormed) (hs : s.Blank)
    (hcalm : ((enterFirst m).exec { s with started := true }).2.Calm) :
    ∃ node opened, Arrival m.graph node [] opened s
      ((enterFirst m).exec { s with started := true }).2 := by
  obtain ⟨node, hnode, hkind, path, hpath, harrive⟩ := ends_enterFirst wf hs
  obtain ⟨_, -, opened, s₁, hopened, hentered, hend⟩ := harrive.of_calm hcalm
  refine ⟨node, opened, ?_⟩
  rw [hend]
  refine arrival_settleAt hnode hkind (by simpa [hopened] using hpath) ?_ ?_ ?_ hentered.status
    hentered.fresh ⟨_, hentered.journal, fun x hx => isOf_entryNotes hx⟩
  · rw [hentered.active, hs.active, List.map_nil]
  · rw [hentered.scopes, hs.scopes]
  · rw [hentered.live, hs.live, List.nil_append, List.nil_append]

/-! ## 3. Runs -/

/-- **A step keeps the invariant**, unless something raises. -/
theorem Step.standing (wf : m.graph.WellFormed) (h : Step m s s') (hs : Standing m.graph s)
    (hcalm : s'.Calm) : Standing m.graph s' := by
  have hnumbered := h.numbered hs.numbered
  refine ⟨h.started hs.started, hnumbered, ?_⟩
  rcases h.rests_or_transition wf hs hcalm with
      hrests | ⟨hactive, lastEvent, world, c, target, node, kept, gone, opened, htransition⟩
  · exact hrests.settled hs.settled
  · exact htransition.toArrival.settled wf hactive hnumbered

theorem Steps.standing (wf : m.graph.WellFormed) (h : Steps m s s') (hs : Standing m.graph s)
    (hcalm : s'.Calm) : Standing m.graph s' := by
  induction h with
  | refl => exact hs
  | tail _ hstep ih => exact hstep.standing wf (ih (hcalm.of_grown hstep.grown)) hcalm

/-- A step keeps the journal sound as well. -/
theorem Step.fits (wf : m.graph.WellFormed) (h : Step m s s') (hs : Standing m.graph s)
    (hcalm : s'.Calm) (hfits : ∀ x ∈ s.journal, x.Fits m.graph) :
    ∀ x ∈ s'.journal, x.Fits m.graph := by
  obtain ⟨notes, hjournal, hnotes⟩ : ∃ notes, s'.journal = s.journal ++ notes ∧
      ∀ x ∈ notes, x.Fits m.graph := by
    rcases h.rests_or_transition wf hs hcalm with
        hrests | ⟨-, lastEvent, world, c, target, node, kept, gone, opened, htransition⟩
    · obtain ⟨notes, hjournal, hnotes⟩ := hrests.journal
      exact ⟨notes, hjournal, fun x hx => (hnotes x hx).fits⟩
    · obtain ⟨notes, hjournal, hnotes⟩ := htransition.noted
      exact ⟨notes, hjournal, fun x hx => (hnotes x hx).fits⟩
  rw [hjournal]
  exact fun x hx => (List.mem_append.mp hx).elim (hfits x) (hnotes x)

theorem Steps.fits (wf : m.graph.WellFormed) (h : Steps m s s') (hs : Standing m.graph s)
    (hcalm : s'.Calm) (hfits : ∀ x ∈ s.journal, x.Fits m.graph) :
    ∀ x ∈ s'.journal, x.Fits m.graph := by
  induction h with
  | refl => exact hfits
  | tail hsteps hstep ih =>
    have hcalm₁ := hcalm.of_grown hstep.grown
    exact hstep.fits wf (Steps.standing wf hsteps hs hcalm₁) hcalm (ih hcalm₁)

/-- The start establishes the invariant, if the instance has not been stopped before. -/
theorem Blank.standing (wf : m.graph.WellFormed) (hs : s.Blank) (hnumbered : s.Numbered)
    (hactive : s.status = .active)
    (hcalm : ((enterFirst m).exec { s with started := true }).2.Calm) :
    Standing m.graph ((enterFirst m).exec { s with started := true }).2 := by
  have hparts := parts_enterFirst (m := m) { s with started := true }
  have hnumbered' := hparts.numbered (hnumbered.sublist rfl (.refl _) (.refl _) (.refl _))
  obtain ⟨node, opened, harrival⟩ := arrival_enterFirst wf hs hcalm
  exact ⟨hparts.started_eq, hnumbered', harrival.settled wf hactive hnumbered'⟩

/-! ## 4. Reached instances -/

theorem Inert.status_eq (h : Inert s s') : s'.status = s.status := by
  obtain ⟨_, _, _, _, _, _, rfl, _⟩ := h
  rfl

theorem Arms.status_eq {scope : Nat} {xs : List Errand} (h : Arms scope xs s s') :
    s'.status = s.status := by
  obtain ⟨_, _, _, _, rfl, _⟩ := h.frame
  rfl

/-- An instance that has ended does not run again. -/
theorem Part.ended (h : Part g s s') (hs : s.status ≠ .active) : s'.status ≠ .active := by
  cases h with
  | remark h => rwa [h.status_eq]
  | entry _ h _ h' => rwa [h'.status_eq, h.status_eq]
  | exit id =>
    obtain ⟨_, _, _, _, _, _, _, h, -⟩ := closeState_frame id s
    rwa [h]
  | ending => exact fun h => by cases h

theorem Parts.ended (h : Parts g s s') (hs : s.status ≠ .active) : s'.status ≠ .active := by
  induction h with
  | refl => exact hs
  | tail _ hp ih => exact hp.ended ih

theorem Step.ended (h : Step m s s') (hs : s.status ≠ .active) : s'.status ≠ .active := by
  cases h with
  | aside h => cases h <;> exact hs
  | looked e => rwa [(inert_select m e s).status_eq]
  | opened => exact (parts_enterFirst (m := m) { s with started := true }).ended hs
  | fired | reported =>
    obtain ⟨_, _, h, _⟩ := received_frame _ _ _
    rwa [h]
  | dropped _ h | begun _ h | processed _ _ h => exact absurd h hs
  | stopped => exact fun h => by cases h
  | _ => exact hs

theorem Steps.ended (h : Steps m s s') (hs : s.status ≠ .active) : s'.status ≠ .active := by
  induction h with
  | refl => exact hs
  | tail _ hstep ih => exact hstep.ended ih

/-- Before the start nothing is entered, except by the start. -/
theorem Step.blank (h : Step m s s') (hs : s.Blank) :
    s'.Blank ∨ s' = ((enterFirst m).exec { s with started := true }).2 := by
  obtain ⟨hstarted, hactive, hscopes, hlive⟩ := hs
  cases h with
  | aside h => cases h <;> exact Or.inl ⟨hstarted, hactive, hscopes, hlive⟩
  | looked e =>
    obtain ⟨_, _, _, _, _, _, h, _⟩ := inert_select m e s
    rw [h]
    exact Or.inl ⟨hstarted, hactive, hscopes, hlive⟩
  | opened => exact Or.inr rfl
  | accepted _ h | processed _ h => exact absurd (hstarted.symm.trans h) (by decide)
  | fired | reported =>
    obtain ⟨_, _, h, _⟩ := received_frame _ _ _
    rw [h]
    exact Or.inl ⟨hstarted, hactive, hscopes, hlive⟩
  | stopped =>
    obtain ⟨_, _, _, _, h, hless, -⟩ := closeAll_frame s
    rw [h]
    exact Or.inl ⟨hstarted, hactive, rfl, List.sublist_nil.mp (hlive ▸ hless)⟩
  | _ => exact Or.inl ⟨hstarted, hactive, hscopes, hlive⟩

/-- **A run that nothing raised in** has not begun, stands as it should, or has ended. -/
theorem standing_of_reached (wf : m.graph.WellFormed) (h : Reached m s) (hcalm : s.Calm) :
    s.Blank ∨ Standing m.graph s ∨ s.status ≠ .active := by
  obtain ⟨s₀, hfresh, hsteps⟩ := h
  induction hsteps with
  | refl =>
    obtain ⟨_, _, _, _, rfl⟩ := eq_of_fresh hfresh
    exact Or.inl ⟨rfl, rfl, rfl, rfl⟩
  | @tail s₁ s₂ hsteps hstep ih =>
    rcases ih (hcalm.of_grown hstep.grown) with hblank | hstanding | hended
    · rcases hstep.blank hblank with hblank' | hfirst
      · exact Or.inl hblank'
      · by_cases hactive : s₁.status = .active
        · rw [hfirst] at hcalm ⊢
          have hnumbered := numbered_of_reached ⟨s₀, hfresh, hsteps⟩
          exact Or.inr (Or.inl (hblank.standing wf hnumbered hactive hcalm))
        · exact Or.inr (Or.inr (hstep.ended hactive))
    · exact Or.inr (Or.inl (hstep.standing wf hstanding hcalm))
    · exact Or.inr (Or.inr (hstep.ended hended))

end Instance

namespace Definition

open Instance

variable {registry : Registry} {config : Config} {source : FlowSource} {c : Compiled} {m : Machine}

/-! ## 5. Runs of definitions -/

/-- **Between two events of a run an instance stands in a settled configuration**, unless something
has raised: for every definition that compiles, whoever listens and whatever the world does.
Listeners are told settled configurations only, and every state that is looked for is found. -/
theorem settled_of_run (h : compileSource registry config source = .ok c) (hm : m.graph = c.graph)
    {s₀ : Instance} (hs : IsFresh m s₀) (os : List Operation)
    (hcalm : (after m (.start :: os) s₀).Calm) :
    (after m (.start :: os) s₀).configuration.Settled c.graph ∧
      (∀ l x, .told l x ∈ (after m (.start :: os) s₀).journal → x.Settled c.graph) ∧
      ∀ f, .missed f ∉ (after m (.start :: os) s₀).journal := by
  have wf : m.graph.WellFormed := hm ▸ wellFormed_graph h
  have hsteps := steps_of_start os hs
  have hnumbered := numbered_of_fresh hs
  obtain ⟨context, state, world, listeners, rfl⟩ := eq_of_fresh hs
  have hfirst := hcalm.of_grown (Steps.grown hsteps)
  have hstanding := Blank.standing wf ⟨rfl, rfl, rfl, rfl⟩ hnumbered rfl hfirst
  have hfits := Steps.fits wf hsteps hstanding hcalm ?_
  · rw [← hm]
    exact ⟨(Steps.standing wf hsteps hstanding hcalm).settled, fun l x hx => hfits _ hx,
      fun f hf => hfits _ hf⟩
  · obtain ⟨node, opened, harrival⟩ := arrival_enterFirst wf ⟨rfl, rfl, rfl, rfl⟩ hfirst
    obtain ⟨notes, hjournal, hnotes⟩ := harrival.noted
    rw [hjournal]
    exact fun x hx => (hnotes x (by simpa using hx)).fits

/-- A definition is compiled, and an instance of it runs through operations, with a clock or without. -/
def playedOn (isTimed : Bool) (registry : Registry) (config : Config) (source : FlowSource)
    (os : List Operation) : Option (Machine × Instance) :=
  match compileSource registry config source with
  | .error _ => none
  | .ok c =>
    let m : Machine := { graph := c.graph, renderer := default, isTimed }
    match ofGraph m {} with
    | .error _ => none
    | .ok s => some (m, after m os s)

/-- A run with a clock. -/
def played (registry : Registry) (config : Config) (source : FlowSource) (os : List Operation) :
    Option (Machine × Instance) := playedOn true registry config source os

/-- What a run can be seen to come to is what comes of some fresh instance. -/
theorem exists_playedOn (isTimed : Bool) (registry : Registry) (config : Config) (source : FlowSource)
    (os : List Operation) (P : Machine → Instance → Bool)
    (h : (playedOn isTimed registry config source os).any (fun p => P p.1 p.2) = true) :
    ∃ c m s₀, compileSource registry config source = .ok c ∧ m.graph = c.graph ∧ IsFresh m s₀ ∧
      P m (after m os s₀) = true := by
  unfold playedOn at h
  split at h
  · cases h
  · rename_i c hc
    dsimp only at h
    split at h
    · cases h
    · rename_i s hs
      exact ⟨c, _, s, hc, rfl, ⟨{}, s.listeners, s, hs, rfl⟩, h⟩

theorem exists_played (registry : Registry) (config : Config) (source : FlowSource)
    (os : List Operation) (P : Machine → Instance → Bool)
    (h : (played registry config source os).any (fun p => P p.1 p.2) = true) :
    ∃ c m s₀, compileSource registry config source = .ok c ∧ m.graph = c.graph ∧ IsFresh m s₀ ∧
      P m (after m os s₀) = true := exists_playedOn true registry config source os P h

/-- A state with two others inside it, one of them with a call, and a final one outside. -/
def nestedFlow : Value :=
  .record [("initial", .text "a"),
    ("actors", .record [("nap", .record [("type", .text "timer"), ("ms", .int 5)])]),
    ("states", .record [
      ("a", .record [("initial", .text "b"), ("on", .record [("OUT", .text "#e")]),
        ("states", .record [("b", .record [("on", .record [("GO", .text "d")])]),
          ("d", .record [("invoke", .record [("src", .text "nap"), ("onDone", .text "b")])])])]),
      ("e", .record [("type", .text "final")])])]

/-- The states of a flow with no failure in it are as they should be while it runs. -/
theorem settled_of_run_nested : ∃ c m s₀,
    compileSource (.bare {}) {} (.ofValue nestedFlow) = .ok c ∧ m.graph = c.graph ∧ IsFresh m s₀ ∧
      (after m [.start, .send (.text "GO"), .send (.text "OUT")] s₀).Calm ∧
      ((after m [.start, .send (.text "GO"), .send (.text "OUT")] s₀).configuration.Settled c.graph ∧
        (∀ l x, .told l x ∈ (after m [.start, .send (.text "GO"), .send (.text "OUT")] s₀).journal →
          x.Settled c.graph) ∧
        ∀ f, .missed f ∉ (after m [.start, .send (.text "GO"), .send (.text "OUT")] s₀).journal) := by
  obtain ⟨c, m, s₀, hc, hm, hs, hcalm⟩ := exists_played (.bare {}) {} (.ofValue nestedFlow)
    [.start, .send (.text "GO"), .send (.text "OUT")] (fun _ s => s.Calm) (by decide +kernel)
  have hcalm := of_decide_eq_true hcalm
  exact ⟨c, m, s₀, hc, hm, hs, hcalm, settled_of_run hc hm hs _ hcalm⟩

/-- A compound state with a computed field whose path is malformed. -/
def malformedFieldFlow : Value :=
  .record [("initial", .text "a"), ("states", .record [
    ("a", .record [("initial", .text "b"),
      ("logic", .record [("computed", .list [
        .record [("field", .text "x["), ("expression", .int 1)]])]),
      ("states", .record [("b", .record [])])])])]

/-- A computed field that cannot be stored raises as well, though it is neither an action nor a store
nor a start of work, and leaves the configuration unsettled. -/
theorem not_settled_of_malformed_field : ∃ c m s₀,
    compileSource (.bare {}) {} (.ofValue malformedFieldFlow) = .ok c ∧ m.graph = c.graph ∧
      IsFresh m s₀ ∧ (∀ o f, .raised o f ∈ (after m [.start] s₀).journal → o = .computed) ∧
      ¬ (after m [.start] s₀).configuration.Settled c.graph := by
  obtain ⟨c, m, s₀, hc, hm, hs, hrun⟩ := exists_played (.bare {}) {} (.ofValue malformedFieldFlow)
    [.start] (fun m s => s.journal.all (fun x => x.origin?.all (· = .computed)) &&
      (s.configuration.state = "a.b" && s.configuration.active = ["a"] &&
        (m.graph.pathTo "a.b").toOption = some ["a", "a.b"])) (by decide +kernel)
  simp only [Bool.and_eq_true, decide_eq_true_eq, List.all_eq_true] at hrun
  obtain ⟨hraised, ⟨hstate, hactive⟩, hpath⟩ := hrun
  refine ⟨c, m, s₀, hc, hm, hs, fun o f hx => ?_, fun hsettled => ?_⟩
  · exact of_decide_eq_true (hraised _ hx)
  · have h := hsettled.path
    rw [hstate, hactive, ← hm] at h
    rw [h] at hpath
    exact absurd hpath (by decide)

/-- What a selection can be seen to come to. -/
theorem exists_selected (m : Machine) (e : Event) (s : Instance) (P : Candidate → Instance → Bool)
    (h : (match (select m e).exec s with
      | (.ok (some d), s₁) => P d s₁
      | _ => false) = true) :
    ∃ d s₁, (select m e).exec s = (.ok (some d), s₁) ∧ P d s₁ = true := by
  split at h
  · rename_i d s₁ hselect
    exact ⟨d, s₁, hselect, h⟩
  · cases h

/-- Two states inside a third one, which raises when it is left; one of them has a call. -/
def raisingExitFlow : Value :=
  .record [("initial", .text "a"),
    ("actors", .record [("nap", .record [("type", .text "timer"), ("ms", .int 5)])]),
    ("states", .record [
      ("a", .record [("initial", .text "b"), ("states", .record [
        ("b", .record [("initial", .text "c"), ("exit", .list [.text "boom"]),
          ("on", .record [("OUT", .text "b")]),
          ("states", .record [("c", .record [("on", .record [("GO", .text "d")])]),
            ("d", .record [("invoke", .record [("src", .text "nap")]),
              ("on", .record [("AGAIN", .text "d")])])])])])])])]

/-- What the flow finds in its registry. -/
def raisingRegistry : Registry :=
  (Registry.bare {}).withAction "boom" (fun _ _ _ => .error default) [] []

end Definition

end Statechart
