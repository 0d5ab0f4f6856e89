/-
# Transitions that may break off

A transition can fail anywhere between its first exit and its last entry, and what it has done by then
remains.  Here is what is known of it in any case, from any instance that stands in a state of its
graph: states are left, and the only ones that are entered lie on the way to a leaf that can follow.
That leaf is put down at the very end, or not at all.

* `Instance.Along`: states are left, and certain ones entered;
* `Instance.Course`: what comes of processing an event, whether a transition arrives or breaks off;
* **`Instance.course_process`**, `Instance.comes_enterFirst`;
* `Instance.Keeps`, **`Instance.Step.keeps_or_moves`**: steps of other kinds enter and leave nothing;
* `Instance.unopened_of_reached`: where an instance stands before the start;
* `Instance.known_of_reached`: only states of the graph are ever on record;
* **`Instance.comes_process_recorded`**: an event that is not processed to its end leaves on record what
  has raised.
-/
import Statechart.Proofs.Account
import Statechart.Proofs.Configuration

namespace Statechart

/-- What is written down while states are left and certain ones entered. -/
def Happening.IsAlong (P : String → Prop) : Happening → Prop
  | .entered c => P c.state
  | .left .. | .acted _ | .armed .. | .raised .. | .missed _ => True
  | _ => False

theorem Happening.IsRemark.isAlong {P : String → Prop} {x : Happening} (h : x.IsRemark) :
    x.IsAlong P := by
  cases x <;> first | exact h.elim | trivial

/-- A state on the way to a leaf that can follow. -/
def Graph.Ahead (g : Graph) (id a : String) : Prop :=
  ∃ leaf, g.Leads id leaf ∧ (a = leaf ∨ g.IsAround a leaf)

namespace Instance

variable {m : Machine} {g : Graph} {P : String → Prop} {s s' s₁ : Instance}

open Run

/-! ## 1. On the way -/

/-- States are left, and certain ones entered; no leaf is put down. -/
structure Along (P : String → Prop) (s s' : Instance) : Prop where
  state : s'.state = s.state
  status : s'.status = s.status
  started : s'.started = s.started
  queue : s'.queue = s.queue
  published : s'.published = s.published
  lastEvent : s'.lastEvent = s.lastEvent
  active : ∀ a ∈ s'.active, a ∈ s.active ∨ P a
  noted : ∃ notes, s'.journal = s.journal ++ notes ∧ (∀ x ∈ notes, x.IsAlong P) ∧
    ((∀ x ∈ notes, x.KeepsScopes) → s'.configuration = s.configuration)

theorem Along.rfl : Along P s s :=
  ⟨Eq.refl _, Eq.refl _, Eq.refl _, Eq.refl _, Eq.refl _, Eq.refl _, fun _ => Or.inl, [], by simp,
    by simp, fun _ => Eq.refl _⟩

theorem Along.trans (h : Along P s s₁) (h' : Along P s₁ s') : Along P s s' := by
  obtain ⟨notes, hjournal, hnotes, hsame⟩ := h.noted
  obtain ⟨notes', hjournal', hnotes', hsame'⟩ := h'.noted
  refine ⟨h'.state.trans h.state, h'.status.trans h.status, h'.started.trans h.started,
    h'.queue.trans h.queue, h'.published.trans h.published, h'.lastEvent.trans h.lastEvent,
    fun a ha => (h'.active a ha).elim (h.active a) Or.inr,
    notes ++ notes', by rw [hjournal', hjournal, List.append_assoc], fun x hx => ?_, fun hall => ?_⟩
  · exact (List.mem_append.mp hx).elim (hnotes x) (hnotes' x)
  · rw [hsame' fun x hx => hall x (List.mem_append_right _ hx),
      hsame fun x hx => hall x (List.mem_append_left _ hx)]

instance : IsPreorder Instance (Along P) where
  refl _ := Along.rfl
  trans _ _ _ := Along.trans

theorem Idle.along (h : Idle s s') : Along P s s' := by
  obtain ⟨_, _, _, notes, rfl, hnotes⟩ := h
  exact ⟨rfl, rfl, rfl, rfl, rfl, rfl, fun _ => Or.inl, notes, rfl,
    fun x hx => (hnotes x hx).isAlong, fun _ => rfl⟩

theorem along_openState {id : String} (h : P id) (s : Instance) : Along P s (openState id s) := by
  refine ⟨rfl, rfl, rfl, rfl, rfl, rfl, fun a ha => ?_, [_], rfl, fun x hx => ?_,
    fun hall => (hall _ List.mem_cons_self).elim⟩
  · rcases List.mem_append.mp ha with ha | ha
    · exact Or.inl ha
    · rw [List.mem_singleton.mp ha]
      exact Or.inr h
  · rw [List.mem_singleton.mp hx]
    exact h

theorem active_closeState (id : String) (s : Instance) :
    (closeState id s).active = s.active.erase id := by
  unfold closeState
  dsimp only
  split
  · rename_i n _
    obtain ⟨_, _, _, _, h, -⟩ := closeScope_frame n s
    rw [h]
  · rfl

theorem along_closeState (id : String) (s : Instance) : Along P s (closeState id s) := by
  have hactive := active_closeState id s
  obtain ⟨_, _, _, _, _, _, scope, h, -⟩ := closeState_frame id s
  rw [h] at hactive ⊢
  refine ⟨rfl, rfl, rfl, rfl, rfl, rfl, fun a ha => Or.inl ?_, [.left id scope], rfl, fun x hx => ?_,
    fun hall => (hall _ List.mem_cons_self).elim⟩
  · exact List.mem_of_mem_erase (hactive ▸ ha)
  · rw [List.mem_singleton.mp hx]
    trivial

theorem Arms.along {scope : Nat} {xs : List Errand} (h : Arms scope xs s s') : Along P s s' := by
  obtain ⟨_, _, _, _, rfl, -⟩ := h.frame
  refine ⟨rfl, rfl, rfl, rfl, rfl, rfl, fun _ => Or.inl, _, rfl, fun x hx => ?_, fun _ => rfl⟩
  obtain ⟨e, -, rfl⟩ := List.mem_map.mp hx
  trivial

theorem along_of_idle {α : Type} {x : Run α} (h : Moves Idle x) : Moves (Along P) x :=
  h.mono fun _ _ hs => hs.along

theorem bears_along : Bears (Along P) where
  quiet _ _ h := h.idle.along
  computed computed s := (idle_computed computed s).along

theorem along_leave (m : Machine) (e : Event) (id : String) : Moves (Along P) (leave m e id) :=
  moves_leave bears_along.quiet e (along_closeState id)

theorem along_enter (m : Machine) (e : Event) {id : String} (h : P id) :
    Moves (Along P) (enter m e id) :=
  bears_along.enter (fun _ _ _ _ harms => harms.along) e (along_openState h)

/-- A state is entered at least. -/
def Moved (s s' : Instance) : Prop :=
  ∃ notes c, s'.journal = s.journal ++ notes ∧ .entered c ∈ notes

theorem Along.moved (h : Along P s s₁) (h' : Moved s₁ s') : Moved s s' := by
  obtain ⟨notes, hjournal, -⟩ := h.noted
  obtain ⟨notes', c, hjournal', hc⟩ := h'
  exact ⟨notes ++ notes', c, by rw [hjournal', hjournal, List.append_assoc],
    List.mem_append_right _ hc⟩

theorem Moved.along (h : Moved s s₁) (h' : Along P s₁ s') : Moved s s' := by
  obtain ⟨notes, c, hjournal, hc⟩ := h
  obtain ⟨notes', hjournal', -⟩ := h'.noted
  exact ⟨notes ++ notes', c, by rw [hjournal', hjournal, List.append_assoc],
    List.mem_append_left _ hc⟩

theorem moved_enter (e : Event) {node : StateNode} (hnode : m.graph.state node.id = .ok node)
    (s : Instance) : Moved s ((enter m e node.id).exec s).2 := by
  have hopen : Moved s (openState node.id s) :=
    ⟨[.entered ⟨node.id, s.serial⟩], _, rfl, List.mem_cons_self⟩
  have hrest : Moves (Along fun _ => True)
      (do prepare m e node; watched .schedule (startWork m node s.serial e) : Run Unit) :=
    bears_along.opened (fun _ _ _ _ harms => harms.along) e node s.serial
  rw [exec_enter e hnode]
  exact hopen.along (hrest _)

/-- **States are entered down to a leaf**, which is put down if nothing fails on the way. -/
theorem comes_arrive (wf : m.graph.WellFormed) (e : Event) {node : StateNode} {path : List String}
    (hnode : node ∈ m.graph.states) (hpath : m.graph.pathTo node.id = .ok path) (hP : ∀ a ∈ path, P a)
    {depth : Nat} (hdepth : depth < path.length) :
    (arrive m e node.id depth).Comes s
      (fun _ s' => ∃ s₁, Along P s s₁ ∧ Moved s s₁ ∧ s' = settleAt node s₁)
      fun _ s' => Along P s s' := by
  have hsome : path.drop depth ≠ [] := by
    rw [Ne, List.drop_eq_nil_iff]
    omega
  have henter : ((path.drop depth).forM (enter m e)).Comes s
      (fun _ s' => Along P s s' ∧ (path.drop depth ≠ [] → Moved s s')) fun _ s' => Along P s s' := by
    refine Comes.forM (I := fun done s' => Along P s s' ∧ (done ≠ [] → Moved s s')) ?_
      ⟨Along.rfl, fun h => absurd rfl h⟩
    rintro done id rest s' hcut ⟨hdone, -⟩
    have hid : id ∈ path := by
      refine List.mem_of_mem_drop (i := depth) ?_
      simp [hcut]
    obtain ⟨n, -, rfl, hn⟩ := wf.exists_state (wf.pathTo_subset hpath hid)
    have hmoves : Moves (fun s₁ s₂ => Along P s₁ s₂ ∧ Moved s₁ s₂) (enter m e n.id) := fun s₁ =>
      ⟨along_enter m e (hP n.id hid) s₁, moved_enter e hn s₁⟩
    exact (Comes.of_moves hmoves s').mono (fun _ _ h => ⟨hdone.trans h.1, fun _ => hdone.moved h.2⟩)
      fun _ _ h => hdone.trans h.1
  refine Comes.seek_bind hpath <| Comes.bind henter fun _ s₁ hs₁ => ?_
  refine Comes.modify_bind <| Comes.seek_bind (wf.state_of_mem hnode) ?_
  refine Comes.of_ok (show _ = (Except.ok (), settleAt node s₁) from ?_)
    ⟨s₁, hs₁.1, hs₁.2 hsome, rfl⟩
  unfold settleAt
  split <;> rfl

/-! ## 2. Processing an event -/

/-- What comes of processing an event: states are left and entered on the way to a leaf that can
follow, if to any, and the leaf is put down in the end or not. -/
inductive Course (g : Graph) (s : Instance) : Instance → Prop
  | within {s' : Instance} : Along (g.Ahead s.state) s s' → Course g s s'
  | arrives {s₁ : Instance} {node : StateNode} : node ∈ g.states → node.kind ≠ .compound →
      g.Leads s.state node.id → Along (g.Ahead s.state) s s₁ → Moved s s₁ →
        Course g s (settleAt node s₁)

/-- What has come before does not matter, as long as the leaf has stayed. -/
theorem Course.of_along (h : Along (g.Ahead s.state) s s₁) (h' : Course g s₁ s') :
    Course g s s' := by
  have hstate := h.state
  cases h' with
  | within h' =>
    rw [hstate] at h'
    exact .within (h.trans h')
  | arrives hnode hkind hleads h' hmoved =>
    rw [hstate] at hleads h'
    exact .arrives hnode hkind hleads (h.trans h') (h.moved hmoved)

/-- A candidate that is offered is taken on the way to a leaf that can follow. -/
theorem course_take (wf : m.graph.WellFormed) (e : Event) (hs : s.state ∈ m.graph.ids)
    {c : Candidate} (hoffers : m.graph.Offers s.state c) : Course m.graph s ((take m e c).exec s).2 := by
  have hacts : Moves (Along (m.graph.Ahead s.state)) (runActions m e c.actions) :=
    along_of_idle (idle_runActions m e c.actions)
  unfold take
  split
  · exact .within (hacts s)
  · rename_i target htarget
    obtain ⟨node, hnode, hleaf, hkind, -, hplace⟩ :=
      wf.exists_leafFor (wf.target_mem hoffers htarget)
    obtain ⟨path, hpath⟩ := wf.exists_pathTo (List.mem_map.mpr ⟨node, hnode, rfl⟩)
    obtain ⟨old, hold⟩ := wf.exists_pathTo hs
    obtain ⟨depth, hdepth, hless, -⟩ := exists_keptDepth wf hold hpath (wf.source_mem hold hoffers)
      ((wf.mem_pathTo_iff hpath target).mpr hplace)
    have hleads : m.graph.Leads s.state node.id := ⟨c, hoffers, target, htarget, hleaf⟩
    have hahead : ∀ a ∈ path, m.graph.Ahead s.state a := fun a ha =>
      ⟨node.id, hleads, (wf.mem_pathTo_iff hpath a).mp ha⟩
    have hcomes : (do
          ((← get).active.drop depth).reverse.forM (leave m e)
          runActions m e c.actions
          arrive m e node.id depth : Run Unit).Comes s
        (fun _ s' => ∃ s₁, Along (m.graph.Ahead s.state) s s₁ ∧ Moved s s₁ ∧ s' = settleAt node s₁)
        fun _ s' => Along (m.graph.Ahead s.state) s s' := by
      refine Comes.get_bind <| Comes.bind
        (Comes.of_moves (Moves.forM fun id _ => along_leave m e id) s) fun _ s₁ hs₁ => ?_
      refine Comes.bind ((Comes.of_moves hacts s₁).mono (fun _ _ h => hs₁.trans h)
        fun _ _ h => hs₁.trans h) fun _ s₂ hs₂ => ?_
      refine (comes_arrive wf e hnode hpath hahead hless).mono ?_ fun _ _ h => hs₂.trans h
      exact fun _ s' ⟨s₃, hs₃, hmoved, hend⟩ => ⟨s₃, hs₂.trans hs₃, hs₂.moved hmoved, hend⟩
    rw [exec_bind_ok (a := node.id) (by rw [exec_seek, hleaf]),
      exec_bind_ok (a := depth) (by rw [exec_seek, hdepth])]
    rcases hcomes.cases with ⟨_, -, s₁, hs₁, hmoved, hend⟩ | ⟨_, -, hbroken⟩
    · rw [hend]
      exact .arrives hnode hkind hleads hs₁ hmoved
    · exact .within hbroken

/-- **Processing an event** goes on the way to a leaf that can follow, whether it arrives or not. -/
theorem course_process (wf : m.graph.WellFormed) (e : Event) (hs : s.state ∈ m.graph.ids) :
    Course m.graph { s with lastEvent := some e.type } ((process m e).exec s).2 := by
  rcases select_of_known (s := { s with lastEvent := some e.type }) wf e hs with
      ⟨c?, world, hselect, hoffers⟩ | ⟨f, world, hselect⟩
  · have hworld : Along (m.graph.Ahead s.state) { s with lastEvent := some e.type }
        { s with lastEvent := some e.type, world } := (idle_world _ world).along
    cases c? with
    | none =>
      refine .within (hworld.trans ?_)
      rw [process, exec_bind_ok (exec_modify _ s), exec_bind_ok hselect]
      dsimp only
      split
      · exact Moves.get_bind (fun s => Moves.bind (Moves.lift _)
          (fun _ => along_of_idle (idle_perform _)) s) _
      · exact Along.rfl
    | some c =>
      rw [process_of_selected hselect]
      exact .of_along hworld
        (course_take (s := { s with lastEvent := some e.type, world }) wf e hs (hoffers c rfl))
  · rw [process, exec_bind_ok (exec_modify _ s), exec_bind_error hselect]
    exact .within ((idle_world _ world).along.trans
      (idle_note (x := .raised .guard f) trivial _).along)

/-- The first leaf is entered, if nothing fails on the way. -/
theorem comes_enterFirst (wf : m.graph.WellFormed) (s : Instance) :
    ∃ node ∈ m.graph.states, m.graph.initialLeaf = .ok node.id ∧ node.kind ≠ .compound ∧
      (enterFirst m).Comes s
        (fun _ s' => ∃ s₁, Along (fun a => a = node.id ∨ m.graph.IsAround a node.id) s s₁ ∧
          Moved s s₁ ∧ s' = settleAt node s₁)
        fun _ s' => Along (fun a => a = node.id ∨ m.graph.IsAround a node.id) s s' := by
  obtain ⟨node, hnode, hleaf, hkind, -⟩ := wf.exists_leafFor wf.initial_mem
  obtain ⟨path, hpath⟩ := wf.exists_pathTo (List.mem_map.mpr ⟨node, hnode, rfl⟩)
  have hlength : 0 < path.length := List.length_pos_of_mem
    ((wf.mem_pathTo_iff hpath node.id).mpr (Or.inl rfl))
  exact ⟨node, hnode, hleaf, hkind, Comes.seek_bind hleaf
    (comes_arrive wf startEvent hnode hpath (fun a => (wf.mem_pathTo_iff hpath a).mp) hlength)⟩

/-! ## 3. Steps of other kinds -/

/-- No state is entered or left, and where an instance stands stays as it is; at most, the end
comes. -/
structure Keeps (s s' : Instance) : Prop where
  state : s'.state = s.state
  active : s'.active = s.active
  started : s'.started = s.started
  configuration : s'.configuration = s.configuration ∨ s'.status ≠ .active
  noted : ∃ notes, s'.journal = s.journal ++ notes ∧ ∀ x ∈ notes, x.KeepsScopes

/-- **A step keeps where an instance stands**, short of the first leaf and of processing an event. -/
theorem Step.keeps_or_moves (h : Step m s s') : Keeps s s' ∨
    s.started = false ∧ s' = ((enterFirst m).exec { s with started := true }).2 ∨
    s.started = true ∧ s.status = .active ∧ ∃ e, s' = ((process m e).exec s).2 := by
  have hquiet : ∀ s' : Instance, s'.configuration = s.configuration → s'.started = s.started →
      s'.journal = s.journal → Keeps s s' := by
    intro s' hsame hstarted hjournal
    exact ⟨congrArg Configuration.state hsame, congrArg Configuration.active hsame, hstarted,
      Or.inl hsame, [], by rw [hjournal, List.append_nil], by simp⟩
  have hnoted : ∀ (s' : Instance) x, s'.configuration = s.configuration →
      s'.started = s.started → s'.journal = s.journal ++ [x] → x.KeepsScopes → Keeps s s' := by
    intro s' x hsame hstarted hjournal hx
    exact ⟨congrArg Configuration.state hsame, congrArg Configuration.active hsame, hstarted,
      Or.inl hsame, [x], hjournal, fun y hy => (List.mem_singleton.mp hy) ▸ hx⟩
  have hreceived : ∀ scope e (t : Instance), t.configuration = s.configuration →
      t.started = s.started → t.journal = s.journal → Keeps s (t.received scope e) := by
    intro scope e t hsame hstarted hjournal
    rcases received_cases scope e t with h | h
    · rw [h]
      exact hquiet t hsame hstarted hjournal
    · rw [h]
      exact hnoted _ (.accepted ⟨e, some scope⟩) hsame hstarted (by simp [enqueue, note, hjournal])
        trivial
  cases h with
  | aside h =>
    cases h with
    | quiet => exact Or.inl (hquiet _ rfl rfl rfl)
    | told | missed => exact Or.inl (hnoted _ _ rfl rfl rfl trivial)
  | waited | resumed | vanished | cleared => exact Or.inl (hquiet _ rfl rfl rfl)
  | looked e =>
    obtain ⟨world, notes, h, hnotes⟩ := select_frame m e s
    rw [h]
    refine Or.inl ⟨rfl, rfl, rfl, Or.inl rfl, notes, rfl, fun x hx => ?_⟩
    rcases hnotes x hx with ⟨f, rfl⟩ | ⟨f, rfl⟩ <;> trivial
  | opened h => exact Or.inr (Or.inl ⟨h, rfl⟩)
  | accepted | dropped | begun | through => exact Or.inl (hnoted _ _ rfl rfl rfl trivial)
  | fired => exact Or.inl (hreceived _ _ _ rfl rfl rfl)
  | reported => exact Or.inl (hreceived _ _ _ rfl rfl rfl)
  | processed e hstarted hactive => exact Or.inr (Or.inr ⟨hstarted, hactive, e, rfl⟩)
  | stopped =>
    obtain ⟨_, _, _, _, hclose, -⟩ := closeAll_frame s
    rw [hclose]
    exact Or.inl ⟨rfl, rfl, rfl, Or.inr fun h => (by cases h), [.ended .stopped], rfl,
      fun x hx => (List.mem_singleton.mp hx) ▸ trivial⟩

/-! ## 4. Before the start -/

/-- Nothing has been entered, and the leaf is the first one. -/
structure Unopened (g : Graph) (s : Instance) : Prop extends s.Blank where
  first : g.initialLeaf = .ok s.state

theorem unopened_of_fresh (h : IsFresh m s) : Unopened m.graph s := by
  obtain ⟨world, listeners, s₀, h₀, rfl⟩ := h
  unfold ofGraph at h₀
  cases hleaf : m.graph.initialLeaf with
  | error f => simp [hleaf, bind, Except.bind] at h₀
  | ok leaf =>
    simp only [hleaf, bind, Except.bind, pure, Except.pure, Except.ok.injEq] at h₀
    subst h₀
    exact ⟨⟨rfl, rfl, rfl, rfl⟩, hleaf⟩

/-- **Before the start** an instance stands at the first leaf, and nothing has been entered. -/
theorem unopened_of_reached (h : Reached m s) (hs : s.started = false) : Unopened m.graph s := by
  obtain ⟨s₀, hfresh, hsteps⟩ := h
  induction hsteps with
  | refl => exact unopened_of_fresh hfresh
  | @tail s₁ s₂ hsteps hstep ih =>
    have hbefore : s₁.started = false := by
      by_contra hstarted
      exact absurd (hstep.started (by simpa using hstarted)) (by simp [hs])
    obtain ⟨hblank, hfirst⟩ := ih hbefore
    rcases hstep.keeps_or_moves with hkeeps | ⟨-, hopened⟩ | ⟨hstarted, -⟩
    · rcases hstep.blank hblank with hblank' | hopened
      · exact ⟨hblank', hkeeps.state ▸ hfirst⟩
      · have hstarted := (parts_enterFirst (m := m) { s₁ with started := true }).started_eq
        rw [← hopened, hs] at hstarted
        cases hstarted
    · have hstarted := (parts_enterFirst (m := m) { s₁ with started := true }).started_eq
      rw [← hopened, hs] at hstarted
      cases hstarted
    · exact absurd (hbefore.symm.trans hstarted) (by decide)

/-! ## 5. Known states -/

/-- The leaf on record and all active states are states of the graph. -/
structure Known (g : Graph) (s : Instance) : Prop where
  leaf : s.state ∈ g.ids
  active : ∀ a ∈ s.active, a ∈ g.ids

theorem Along.known (h : Along P s s') (hP : ∀ a, P a → a ∈ g.ids) (hs : Known g s) : Known g s' :=
  ⟨h.state ▸ hs.leaf, fun a ha => (h.active a ha).elim (hs.active a) (hP a)⟩

theorem Known.settleAt (hs : Known g s) {node : StateNode} (hnode : node ∈ g.states) :
    Known g (settleAt node s) := by
  obtain ⟨_, _, _, _, _, _, _, hframe, -⟩ := settleAt_frame node s
  rw [hframe]
  exact ⟨List.mem_map.mpr ⟨node, hnode, rfl⟩, hs.active⟩

/-- On the way to a leaf there are states of the graph only. -/
theorem mem_ids_of_way (wf : g.WellFormed) {leaf a : String} (hleaf : leaf ∈ g.ids)
    (h : a = leaf ∨ g.IsAround a leaf) : a ∈ g.ids := by
  obtain ⟨path, hpath⟩ := wf.exists_pathTo hleaf
  exact wf.pathTo_subset hpath ((wf.mem_pathTo_iff hpath a).mpr h)

theorem Course.known (wf : g.WellFormed) (h : Course g s s') (hs : Known g s) : Known g s' := by
  have hahead : ∀ a, g.Ahead s.state a → a ∈ g.ids := fun a ⟨_, hleads, ha⟩ =>
    mem_ids_of_way wf (wf.leads_mem hleads) ha
  cases h with
  | within h => exact h.known hahead hs
  | arrives hnode _ _ h _ => exact (h.known hahead hs).settleAt hnode

/-- **Only states of the graph are ever on record**, whatever raises. -/
theorem known_of_reached (wf : m.graph.WellFormed) (h : Reached m s) : Known m.graph s := by
  obtain ⟨s₀, hfresh, hsteps⟩ := h
  induction hsteps with
  | refl =>
    obtain ⟨⟨-, hnone, -, -⟩, hfirst⟩ := unopened_of_fresh hfresh
    obtain ⟨node, hnode, hleaf, -⟩ := wf.exists_leafFor wf.initial_mem
    have hstate : node.id = s₀.state := Except.ok.inj (hleaf.symm.trans hfirst)
    exact ⟨List.mem_map.mpr ⟨node, hnode, hstate⟩, by simp [hnone]⟩
  | @tail s₁ _ _ hstep ih =>
    rcases hstep.keeps_or_moves with hkeeps | ⟨-, rfl⟩ | ⟨-, -, e, rfl⟩
    · exact ⟨hkeeps.state ▸ ih.leaf, hkeeps.active ▸ ih.active⟩
    · obtain ⟨node, hnode, -, -, hfirst⟩ := comes_enterFirst wf { s₁ with started := true }
      have hway := fun a => mem_ids_of_way (a := a) wf (List.mem_map.mpr ⟨node, hnode, rfl⟩)
      rcases hfirst.cases with ⟨_, -, s₂, hs₂, -, hend⟩ | ⟨_, -, hbroken⟩
      · rw [hend]
        exact (hs₂.known hway ⟨ih.leaf, ih.active⟩).settleAt hnode
      · exact hbroken.known hway ⟨ih.leaf, ih.active⟩
    · exact (course_process wf e ih.leaf).known wf ⟨ih.leaf, ih.active⟩

/-! ## 6. Failures on record -/

/-- The last thing that has happened is that something has raised a certain failure. -/
def Broken (f : Fault) (s : Instance) : Prop := ∃ before o, s.journal = before ++ [.raised o f]

end Instance

namespace Run

variable {α β : Type}

/-- A step that fails leaves on record what has raised. -/
def OnRecord (x : Run α) : Prop := ∀ s, x.Comes s (fun _ _ => True) fun f s' => s'.Broken f

theorem OnRecord.pure (a : α) : OnRecord (pure a : Run α) := fun _ => Comes.pure trivial

theorem OnRecord.modify (k : Instance → Instance) : OnRecord (modify k : Run Unit) := fun s =>
  Comes.of_ok (exec_modify k s) trivial

theorem OnRecord.bind {x : Run α} {f : α → Run β} (hx : OnRecord x) (hf : ∀ a, OnRecord (f a)) :
    OnRecord (x >>= f) := fun s => Comes.bind (hx s) fun a s' _ => hf a s'

theorem OnRecord.get_bind {f : Instance → Run β} (hf : ∀ s, OnRecord (f s)) :
    OnRecord (get >>= f) := fun s => Comes.get_bind (hf s s)

theorem OnRecord.seek_bind {r : Except Fault α} {f : α → Run β} {a : α} (hr : r = .ok a)
    (hf : OnRecord (f a)) : OnRecord (seek r >>= f) := fun s => Comes.seek_bind hr (hf s)

theorem OnRecord.watched (o : Origin) (x : Run α) : OnRecord (watched o x) := by
  intro s
  rw [Comes, exec_watched]
  rcases x.exec s with ⟨r, s'⟩
  cases r with
  | error f => exact ⟨s'.journal, o, rfl⟩
  | ok a => trivial

theorem OnRecord.forM {f : α → Run Unit} {xs : List α} (h : ∀ x ∈ xs, OnRecord (f x)) :
    OnRecord (xs.forM f) := fun _ =>
  Comes.forM (I := fun _ _ => True) (fun _ x _ s hcut _ => h x (by simp [hcut]) s) trivial

end Run

/-- The failure of a call that can be written into no log. -/
def Event.IsUnshown (e : Event) : Prop :=
  e.type.startsWith "error.invoke." = true ∧ ∃ f, (e.value.getD "data").shown = .error f

namespace Instance

variable {m : Machine} {s s' s₁ : Instance}

open Run

theorem onRecord_act (m : Machine) (e : Event) (a : BoundAction) (context : Value) :
    (act m e a context).OnRecord :=
  OnRecord.bind (OnRecord.modify _) fun _ => OnRecord.watched _ _

theorem onRecord_runActions (m : Machine) (e : Event) (actions : List BoundAction) :
    (runActions m e actions).OnRecord :=
  OnRecord.forM fun a _ => OnRecord.get_bind fun s =>
    OnRecord.bind (onRecord_act m e a s.context) fun _ => OnRecord.modify _

theorem onRecord_entryContext (m : Machine) (node : StateNode) (e : Event) :
    (entryContext m node e).OnRecord := by
  refine OnRecord.get_bind fun s => OnRecord.bind (OnRecord.watched _ _) fun context =>
    OnRecord.bind (OnRecord.watched _ _) fun context' => ?_
  split
  · exact onRecord_act m e _ _
  · exact OnRecord.pure _

theorem onRecord_leave (e : Event) {id : String} {node : StateNode}
    (h : m.graph.state id = .ok node) : (leave m e id).OnRecord :=
  OnRecord.seek_bind h <| OnRecord.bind (OnRecord.modify _) fun _ => OnRecord.get_bind fun _ =>
    OnRecord.bind (OnRecord.watched _ _) fun _ => onRecord_runActions m e node.exit

theorem onRecord_enter (e : Event) {id : String} {node : StateNode}
    (h : m.graph.state id = .ok node) : (enter m e id).OnRecord := by
  refine OnRecord.seek_bind h <| OnRecord.get_bind fun s => OnRecord.bind (OnRecord.modify _) fun _ =>
    OnRecord.bind ?_ fun _ => OnRecord.watched _ _
  exact OnRecord.bind (onRecord_entryContext m node e) fun _ =>
    OnRecord.bind (OnRecord.modify _) fun _ => onRecord_runActions m e node.entry

theorem onRecord_arrive (wf : m.graph.WellFormed) (e : Event) {node : StateNode}
    (hnode : node ∈ m.graph.states) (depth : Nat) : (arrive m e node.id depth).OnRecord := by
  obtain ⟨path, hpath⟩ := wf.exists_pathTo (List.mem_map.mpr ⟨node, hnode, rfl⟩)
  refine OnRecord.seek_bind hpath <| OnRecord.bind (OnRecord.forM fun id hid => ?_) fun _ =>
    OnRecord.bind (OnRecord.modify _) fun _ => OnRecord.seek_bind (wf.state_of_mem hnode) ?_
  · obtain ⟨n, -, rfl, hn⟩ := wf.exists_state (wf.pathTo_subset hpath (List.mem_of_mem_drop hid))
    exact onRecord_enter e hn
  · split
    · exact OnRecord.modify _
    · exact OnRecord.pure ()

/-- Every state that a candidate needs is found. -/
theorem comes_take_recorded (wf : m.graph.WellFormed) (e : Event) (hs : Known m.graph s)
    {c : Candidate} (hoffers : m.graph.Offers s.state c) :
    (take m e c).Comes s (fun _ _ => True) fun f s' => s'.Broken f := by
  unfold take
  cases htarget : c.target with
  | none => exact onRecord_runActions m e c.actions s
  | some target =>
    obtain ⟨node, hnode, hleaf, -, -, hplace⟩ := wf.exists_leafFor (wf.target_mem hoffers htarget)
    obtain ⟨path, hpath⟩ := wf.exists_pathTo (List.mem_map.mpr ⟨node, hnode, rfl⟩)
    obtain ⟨old, hold⟩ := wf.exists_pathTo hs.leaf
    obtain ⟨depth, hdepth, -⟩ := exists_keptDepth wf hold hpath (wf.source_mem hold hoffers)
      ((wf.mem_pathTo_iff hpath target).mpr hplace)
    refine Comes.seek_bind hleaf <| Comes.seek_bind hdepth <| Comes.get_bind ?_
    refine OnRecord.bind (OnRecord.forM fun id hid => ?_) (fun _ =>
      OnRecord.bind (onRecord_runActions m e c.actions) fun _ => onRecord_arrive wf e hnode depth) s
    have hid' : id ∈ s.active := List.mem_of_mem_drop (List.mem_reverse.mp hid)
    obtain ⟨n, -, rfl, hn⟩ := wf.exists_state (hs.active id hid')
    exact onRecord_leave e hn

/-- **An event that is not processed to its end** leaves on record what has raised, short of the
failure of a call that nobody handles and that can be written into no log. -/
theorem comes_process_recorded (wf : m.graph.WellFormed) (e : Event) (hs : Known m.graph s) :
    (process m e).Comes s (fun _ _ => True) fun f s' =>
      s'.Broken f ∨ f ≠ .exhausted ∧ e.IsUnshown := by
  rcases select_of_known (s := { s with lastEvent := some e.type }) wf e hs.leaf with
      ⟨c?, world, hselect, hoffers⟩ | ⟨f, world, hselect⟩
  · cases c? with
    | some c =>
      refine Comes.of_exec (process_of_selected hselect) ?_
      exact (comes_take_recorded (s := { s with lastEvent := some e.type, world }) wf e
        ⟨hs.leaf, hs.active⟩ (hoffers c rfl)).mono (fun _ _ h => h) fun _ _ h => Or.inl h
    | none =>
      rw [Comes, process, exec_bind_ok (exec_modify _ s), exec_bind_ok hselect]
      dsimp only
      by_cases hfailure : e.type.startsWith "error.invoke." = true
      · rw [if_pos hfailure, exec_get_bind]
        cases hdata : (e.value.getD "data").shown with
        | ok text => trivial
        | error f => exact Or.inr ⟨by simp, hfailure, f, hdata⟩
      · rw [if_neg hfailure]
        trivial
  · rw [Comes, process, exec_bind_ok (exec_modify _ s), exec_bind_error hselect]
    exact Or.inl ⟨s.journal, .guard, rfl⟩

end Instance

end Statechart
