/-
# What transitions are made of

A transition leaves states, runs actions and enters states, and may break off anywhere in between.
Whatever it does, and however far it comes, it is a succession of a few kinds of parts: remarks that
concern nobody's work, the entry of a state, the exit of a state, and the end.

* `Instance.Quiet`, `Instance.Idle`, `Instance.Inert`: what leaves the work of all states alone;
* `Instance.Arms`: the work of a state is started, one errand after the other;
* `Instance.Bears`, `Instance.Transits`: what is done inside states and what transitions go through,
  for any relation that all of it keeps to;
* **`Instance.parts_process`**, `Instance.parts_enterFirst`: every transition is made of parts
  (`Instance.Part`), whether it comes to its end or not.
-/
import Statechart.Proofs.Run
import Statechart.Proofs.WellFormed

namespace Statechart

/-- The work that is started with a state: first its timers, then its calls. -/
def StateNode.errands (n : StateNode) : List Errand :=
  n.after.map (.timer ·.event) ++ n.invokes.map (.call ·.id)

/-- What is written down while a transition runs, apart from entries, exits and the start of work. -/
def Happening.IsRemark : Happening → Prop
  | .acted _ | .raised .. | .missed _ => True
  | _ => False

namespace Instance

/-! ## 1. What closing scopes leaves -/

/-- What is left when calls have been given up. -/
theorem dropCalls_eq (cs : List OpenCall) (s : Instance) :
    cs.foldl (fun s c => s.dropCall c) s =
      { s with
        alarms := s.alarms.filter fun a => cs.all fun c => !a.kind.isOfCall c.serial
        calls := s.calls.filter fun d => cs.all fun c => d.serial ≠ c.serial
        turns := s.turns ++ cs.map fun c => .abandon c.state } := by
  induction cs generalizing s with
  | nil => simp
  | cons c cs ih =>
    rw [List.foldl_cons, ih]
    simp [dropCall, dropAlarms, List.filter_filter, Bool.and_comm]

/-- What is left when scopes have been closed: nothing changes but what belongs to scopes, and there
is less work than before. -/
theorem closeScopes_frame (cs : List Scope) (s : Instance) :
    ∃ live alarms calls turns, cs.foldl (fun s c => s.closeScope c.serial) s =
        { s with live, alarms, calls, turns } ∧
      live.Sublist s.live ∧ alarms.Sublist s.alarms ∧ calls.Sublist s.calls ∧ s.turns <+: turns := by
  induction cs generalizing s with
  | nil =>
    exact ⟨s.live, s.alarms, s.calls, s.turns, rfl, .refl _, .refl _, .refl _, List.prefix_rfl⟩
  | cons c cs ih =>
    obtain ⟨live, alarms, calls, turns, h, hlive, halarms, hcalls, hturns⟩ :=
      ih (s.closeScope c.serial)
    rw [closeScope, dropCalls_eq] at hlive halarms hcalls hturns
    refine ⟨live, alarms, calls, turns, ?_, hlive.trans List.filter_sublist,
      (halarms.trans List.filter_sublist).trans List.filter_sublist,
      hcalls.trans List.filter_sublist, (List.prefix_append _ _).trans hturns⟩
    rw [List.foldl_cons, h, closeScope, dropCalls_eq]

theorem live_closeScopes (cs : List Scope) (s : Instance) :
    (cs.foldl (fun s c => s.closeScope c.serial) s).live =
      s.live.filter fun n => cs.all fun c => n ≠ c.serial := by
  induction cs generalizing s with
  | nil => simp
  | cons c cs ih => simp [ih, live_closeScope, List.filter_filter, Bool.and_comm]

/-! ## 2. What concerns nobody's work -/

/-- Nothing changes but the context, and remarks are made, though none of a guard that raises. -/
def Quiet (s s' : Instance) : Prop :=
  ∃ context world notes,
    s' = { s with context, world, journal := s.journal ++ notes } ∧
      ∀ x ∈ notes, x.IsRemark ∧ x.origin? ≠ some .guard

instance : IsPreorder Instance Quiet where
  refl s := ⟨s.context, s.world, [], by simp, by simp⟩
  trans s s₁ s₂ := by
    rintro ⟨_, _, notes, rfl, hn⟩ ⟨context, world, notes', rfl, hn'⟩
    refine ⟨context, world, notes ++ notes', by simp, fun x hx => ?_⟩
    exact (List.mem_append.mp hx).elim (hn x) (hn' x)

theorem quiet_note {x : Happening} (h : x.IsRemark) (hx : x.origin? ≠ some .guard) (s : Instance) :
    Quiet s (s.note x) := ⟨s.context, s.world, [x], rfl, by simpa using ⟨h, hx⟩⟩

theorem quiet_missed (f : Fault) (s : Instance) : Quiet s (s.note (.missed f)) :=
  quiet_note (x := .missed f) trivial (by simp [Happening.origin?]) s

theorem quiet_raised {o : Origin} (ho : o ≠ .guard) (f : Fault) (s : Instance) :
    Quiet s (s.note (.raised o f)) :=
  quiet_note (x := .raised o f) trivial (by simpa [Happening.origin?] using ho) s

theorem quiet_world (s : Instance) (world : World) : Quiet s { s with world } :=
  ⟨s.context, world, [], by simp, by simp⟩

theorem quiet_context (context : Value) (s : Instance) : Quiet s { s with context } :=
  ⟨context, s.world, [], by simp, by simp⟩

open Run

theorem quiet_seek {α : Type} (r : Except Fault α) : Moves Quiet (seek r) :=
  Moves.seek fun f _ s => quiet_missed f s

theorem quiet_perform {α : Type} (x : Act α) : Moves Quiet (perform x) :=
  Moves.perform quiet_world

theorem quiet_watched {α : Type} {o : Origin} (ho : o ≠ .guard) {x : Run α} (h : Moves Quiet x) :
    Moves Quiet (watched o x) := Moves.watched h (quiet_raised ho)

theorem quiet_act (m : Machine) (e : Event) (a : BoundAction) (context : Value) :
    Moves Quiet (act m e a context) :=
  Moves.bind (Moves.note (quiet_note (x := .acted a) trivial (by simp [Happening.origin?]))) fun _ =>
    quiet_watched (by decide) (quiet_perform _)

theorem quiet_runActions (m : Machine) (e : Event) (actions : List BoundAction) :
    Moves Quiet (runActions m e actions) :=
  Moves.forM fun a _ => Moves.get_bind fun s =>
    Moves.bind (quiet_act m e a s.context) (fun context => Moves.modify (quiet_context context)) s

/-- Nothing changes but the context and what belongs to it. -/
def Idle (s s' : Instance) : Prop :=
  ∃ context computed world notes,
    s' = { s with context, computed, world, journal := s.journal ++ notes } ∧
      ∀ x ∈ notes, x.IsRemark

instance : IsPreorder Instance Idle where
  refl s := ⟨s.context, s.computed, s.world, [], by simp, by simp⟩
  trans s s₁ s₂ := by
    rintro ⟨_, _, _, notes, rfl, hn⟩ ⟨context, computed, world, notes', rfl, hn'⟩
    refine ⟨context, computed, world, notes ++ notes', by simp, fun x hx => ?_⟩
    exact (List.mem_append.mp hx).elim (hn x) (hn' x)

theorem Quiet.idle {s s' : Instance} (h : Quiet s s') : Idle s s' := by
  obtain ⟨context, world, notes, rfl, hnotes⟩ := h
  exact ⟨context, s.computed, world, notes, rfl, fun x hx => (hnotes x hx).1⟩

theorem idle_of_quiet {α : Type} {x : Run α} (h : Moves Quiet x) : Moves Idle x :=
  h.mono fun _ _ h => h.idle

theorem idle_note {x : Happening} (h : x.IsRemark) (s : Instance) : Idle s (s.note x) :=
  ⟨s.context, s.computed, s.world, [x], rfl, by simpa using h⟩

theorem idle_world (s : Instance) (world : World) : Idle s { s with world } := (quiet_world s world).idle

theorem idle_computed (computed : List String) (s : Instance) : Idle s { s with computed } :=
  ⟨s.context, computed, s.world, [], by simp, by simp⟩

theorem idle_perform {α : Type} (x : Act α) : Moves Idle (perform x) := idle_of_quiet (quiet_perform x)

theorem idle_runActions (m : Machine) (e : Event) (actions : List BoundAction) :
    Moves Idle (runActions m e actions) := idle_of_quiet (quiet_runActions m e actions)

/-- Selecting a candidate changes nothing but the world, and takes note if it fails. -/
theorem select_frame (m : Machine) (e : Event) (s : Instance) :
    ∃ world notes, ((select m e).exec s).2 = { s with world, journal := s.journal ++ notes } ∧
      ∀ x ∈ notes, (∃ f, x = .missed f) ∨ ∃ f, x = .raised .guard f := by
  rw [select, exec_get_bind]
  cases hcs : candidatesFor m s.state e.type with
  | error f => exact ⟨s.world, [.missed f], rfl, by simp⟩
  | ok cs =>
    rw [exec_bind_ok (a := cs) (exec_seek (.ok cs) s), exec_watched]
    rcases hrun : (perform (firstEnabled s.context e.value cs)).exec s with ⟨r, s'⟩
    obtain rfl : ((perform (firstEnabled s.context e.value cs)).exec s).2 = s' :=
      congrArg Prod.snd hrun
    cases r with
    | error f => exact ⟨_, [.raised .guard f], rfl, by simp⟩
    | ok c? =>
      refine ⟨((perform (firstEnabled s.context e.value cs)).exec s).2.world, [], ?_, by simp⟩
      rw [List.append_nil]
      rfl

theorem idle_select (m : Machine) (e : Event) : Moves Idle (select m e) := by
  intro s
  obtain ⟨world, notes, h, hnotes⟩ := select_frame m e s
  refine ⟨s.context, s.computed, world, notes, h, fun x hx => ?_⟩
  rcases hnotes x hx with ⟨f, rfl⟩ | ⟨f, rfl⟩ <;> trivial

/-- Nothing changes but the context and the like, the leaf and the last event. -/
def Inert (s s' : Instance) : Prop :=
  ∃ context computed world lastEvent state notes,
    s' = { s with context, computed, world, lastEvent, state, journal := s.journal ++ notes } ∧
      ∀ x ∈ notes, x.IsRemark

theorem Idle.inert {s s' : Instance} (h : Idle s s') : Inert s s' := by
  obtain ⟨context, computed, world, notes, rfl, hnotes⟩ := h
  exact ⟨context, computed, world, s.lastEvent, s.state, notes, rfl, hnotes⟩

theorem inert_select (m : Machine) (e : Event) : Moves Inert (select m e) :=
  (idle_select m e).mono fun _ _ h => h.inert

theorem inert_state (state : String) (s : Instance) : Inert s { s with state } :=
  ⟨s.context, s.computed, s.world, s.lastEvent, state, [], by simp, by simp⟩

theorem inert_lastEvent (lastEvent : Option String) (s : Instance) : Inert s { s with lastEvent } :=
  ⟨s.context, s.computed, s.world, lastEvent, s.state, [], by simp, by simp⟩

/-! ## 3. Starting work -/

/-- An errand of a scope is on its way. -/
inductive Arm (scope : Nat) : Errand → Instance → Instance → Prop
  | timer (due : Int) (type : String) (s : Instance) :
      Arm scope (.timer type) s
        ({ s with alarms := s.alarms ++ [Alarm.mk due (.event scope type)] }.note
          (.armed scope (.timer type)))
  | call (e : Event) (i : Invocation) (s : Instance) :
      Arm scope (.call i.id) s (openCall scope e i s)

/-- Errands of a scope are on their way, one after the other. -/
inductive Arms (scope : Nat) : List Errand → Instance → Instance → Prop
  | nil (s : Instance) : Arms scope [] s s
  | cons {x : Errand} {xs : List Errand} {s s₁ s₂ : Instance} :
      Arm scope x s s₁ → Arms scope xs s₁ s₂ → Arms scope (x :: xs) s s₂

theorem Arms.append {scope : Nat} {xs ys : List Errand} {s s₁ s₂ : Instance}
    (h : Arms scope xs s s₁) (h' : Arms scope ys s₁ s₂) : Arms scope (xs ++ ys) s s₂ := by
  induction h with
  | nil => exact h'
  | cons hx _ ih => exact .cons hx (ih h')

/-- What comes of starting errands: all of them are on their way, or the first ones. -/
def Started (scope : Nat) (xs : List Errand) (s : Instance) (r : Except Fault Unit × Instance) :
    Prop :=
  ∃ done, done <+: xs ∧ Arms scope done s r.2 ∧ (∀ u, r.1 = .ok u → done = xs)

theorem Started.bind {scope : Nat} {x y : Run Unit} {xs ys : List Errand} {s : Instance}
    (hx : Started scope xs s (x.exec s)) (hy : ∀ s, Started scope ys s (y.exec s)) :
    Started scope (xs ++ ys) s ((x >>= fun _ => y).exec s) := by
  obtain ⟨done, hdone, harms, hall⟩ := hx
  rcases hrun : x.exec s with ⟨r, s'⟩
  rw [hrun] at harms hall
  cases r with
  | error e =>
    rw [exec_bind_error hrun]
    exact ⟨done, hdone.trans (List.prefix_append _ _), harms, fun u hu => by cases hu⟩
  | ok u =>
    rw [exec_bind_ok hrun]
    obtain ⟨more, hmore, harms', hall'⟩ := hy s'
    have hfull : done = xs := hall u rfl
    subst hfull
    refine ⟨done ++ more, (List.prefix_append_right_inj _).mpr hmore, harms.append harms', ?_⟩
    exact fun u hu => by rw [hall' u hu]

/-- A loop that starts an errand at each turn, or breaks off. -/
theorem started_forM {α : Type} {scope : Nat} {f : α → Run Unit} {errand : α → Errand}
    (h : ∀ x s, Started scope [errand x] s ((f x).exec s)) (xs : List α) (s : Instance) :
    Started scope (xs.map errand) s ((xs.forM f).exec s) := by
  induction xs generalizing s with
  | nil => exact ⟨[], List.nil_prefix, .nil s, fun _ _ => rfl⟩
  | cons x xs ih => exact Started.bind (h x s) ih

theorem started_timer (scope : Nat) (t : AfterTimer) (s : Instance) :
    Started scope [.timer t.event] s ((startTimer scope t).exec s) := by
  have hnone : ∀ f, (startTimer scope t).exec s = (.error f, s) →
      Started scope [.timer t.event] s ((startTimer scope t).exec s) := by
    intro f hf
    rw [hf]
    exact ⟨[], List.nil_prefix, .nil s, fun u hu => by cases hu⟩
  cases hseconds : liftData (Value.int t.delayMs).seconds with
  | error f => exact hnone f (by simp [startTimer, exec_bind, hseconds])
  | ok seconds =>
    cases hdue : liftData (do s.world.instant (← liftArith seconds.toFloat)) with
    | error f => exact hnone f (by simp [startTimer, setAlarm, exec_bind, hseconds, hdue])
    | ok due =>
      refine ⟨[.timer t.event], List.prefix_rfl, ?_, fun _ _ => rfl⟩
      have harm : Arms scope [.timer t.event] s _ := .cons (.timer due t.event s) (.nil _)
      simpa [startTimer, setAlarm, exec_bind, hseconds, hdue] using harm

/-- The work of a state is started errand by errand. -/
theorem started_startWork (m : Machine) (node : StateNode) (scope : Nat) (e : Event) (s : Instance) :
    Started scope node.errands s ((startWork m node scope e).exec s) := by
  unfold startWork
  split
  · rename_i hnone
    have hempty : node.errands = [] := by
      simpa [StateNode.errands, List.isEmpty_iff] using hnone
    exact hempty ▸ ⟨[], List.nil_prefix, .nil s, fun _ _ => rfl⟩
  · cases m.isTimed with
    | false => exact ⟨[], List.nil_prefix, .nil s, fun _ h => by cases h⟩
    | true =>
      exact Started.bind (started_forM (started_timer scope) node.after s) fun s' =>
        started_forM (fun i s => ⟨[.call i.id], List.prefix_rfl, .cons (.call e i s) (.nil _),
          fun _ _ => rfl⟩) node.invokes s'

/-! ## 4. What happens inside states -/

variable {m : Machine}

/-- A relation that everything keeps to that prepares the context of a state. -/
structure Bears (R : Instance → Instance → Prop) : Prop where
  quiet : ∀ s s', Quiet s s' → R s s'
  computed : ∀ computed s, R s { s with computed }

theorem moves_of_quiet {R : Instance → Instance → Prop} (h : ∀ s s', Quiet s s' → R s s') {α : Type}
    {x : Run α} (hx : Moves Quiet x) : Moves R x := hx.mono h

section Inside

variable {R : Instance → Instance → Prop} [IsPreorder Instance R]

/-- What follows when a state has been closed. -/
theorem moves_closed (h : ∀ s s', Quiet s s' → R s s') (e : Event) (node : StateNode) :
    Moves R (do
      watched .store (perform (Binding.applyOutputs node.outputs (← get).context))
      runActions m e node.exit : Run Unit) :=
  Moves.get_bind fun s => Moves.bind
    (moves_of_quiet h (quiet_watched (by decide) (quiet_perform _)))
    (fun _ => moves_of_quiet h (quiet_runActions m e node.exit)) s

theorem moves_leave (h : ∀ s s', Quiet s s' → R s s') (e : Event) {id : String}
    (hclosed : ∀ s, R s (closeState id s)) : Moves R (leave m e id) :=
  Moves.bind (moves_of_quiet h (quiet_seek _)) fun node =>
    Moves.bind (Moves.modify hclosed) fun _ => moves_closed h e node

namespace Bears

variable (h : Bears R)

include h

theorem computeField (node : StateNode) (e : Event) (context : Value) (c : ComputedField) :
    Moves R (computeField node e context c) := by
  unfold Instance.computeField
  refine Moves.get_bind fun s => ?_
  dsimp only
  split
  · exact Moves.pure context s
  · refine Moves.bind (moves_of_quiet h.quiet (quiet_perform _))
      (fun v => Moves.bind (Moves.lift _) fun context' => ?_) s
    split
    · exact Moves.bind (Moves.modify (f := fun s => { s with computed := _ }) fun s => h.computed _ s)
        fun _ => Moves.pure _
    · exact Moves.pure _

theorem entryContext (m : Machine) (node : StateNode) (e : Event) : Moves R (entryContext m node e) := by
  unfold Instance.entryContext
  refine Moves.get_bind fun s => Moves.bind
    (moves_of_quiet h.quiet (quiet_watched (by decide) (quiet_perform _))) (fun context => ?_) s
  refine Moves.bind (Moves.watched (Moves.foldlM (fun b c _ => h.computeField node e b c) _)
    fun f s => h.quiet _ _ (quiet_raised (by decide) f s)) fun context' => ?_
  split
  · exact moves_of_quiet h.quiet (quiet_act m e _ _)
  · exact Moves.pure _

theorem prepare (m : Machine) (e : Event) (node : StateNode) : Moves R (prepare m e node) :=
  Moves.bind (h.entryContext m node e) fun context =>
    Moves.bind (Moves.modify fun s => h.quiet _ _ (quiet_context context s)) fun _ =>
      moves_of_quiet h.quiet (quiet_runActions m e node.entry)

variable (harms : ∀ scope xs s s', Arms scope xs s s' → R s s')

include harms

/-- What follows when a state has been opened. -/
theorem opened (e : Event) (node : StateNode) (scope : Nat) :
    Moves R (do Instance.prepare m e node; watched .schedule (startWork m node scope e) : Run Unit) := by
  refine Moves.bind (h.prepare m e node) fun _ => Moves.watched (fun s => ?_) fun f s =>
    h.quiet _ _ (quiet_raised (by decide) f s)
  obtain ⟨_, -, hstarted, -⟩ := started_startWork m node scope e s
  exact harms _ _ _ _ hstarted

theorem enter (e : Event) {id : String} (hopened : ∀ s, R s (openState id s)) :
    Moves R (enter m e id) :=
  Moves.bind (moves_of_quiet h.quiet (quiet_seek _)) fun node => Moves.get_bind fun s =>
    Moves.bind (Moves.modify hopened) (fun _ => h.opened harms e node s.serial) s

end Bears

end Inside

theorem bears_idle : Bears Idle where
  quiet _ _ h := h.idle
  computed := idle_computed

theorem idle_prepare (m : Machine) (e : Event) (node : StateNode) : Moves Idle (prepare m e node) :=
  bears_idle.prepare m e node

/-- A state that is found is left once it is closed, -/
theorem exec_leave (e : Event) {id : String} {node : StateNode} (h : m.graph.state id = .ok node)
    (s : Instance) : (leave m e id).exec s = (do
      watched .store (perform (Binding.applyOutputs node.outputs (← get).context))
      runActions m e node.exit : Run Unit).exec (closeState id s) := by
  rw [leave, h]
  rfl

/-- and entered once it is open. -/
theorem exec_enter (e : Event) {id : String} {node : StateNode} (h : m.graph.state id = .ok node)
    (s : Instance) : (enter m e id).exec s =
      (do prepare m e node; watched .schedule (startWork m node s.serial e) : Run Unit).exec
        (openState id s) := by
  rw [enter, h]
  rfl

/-! ## 5. What transitions go through -/

/-- A relation that everything keeps to that a transition goes through once it is selected. -/
structure Transits (m : Machine) (R : Instance → Instance → Prop) : Prop where
  quiet : ∀ s s', Quiet s s' → R s s'
  state : ∀ state s, R s { s with state }
  lastEvent : ∀ lastEvent s, R s { s with lastEvent }
  closed : ∀ id s, R s (closeState id s)
  enter : ∀ e id, Moves R (enter m e id)
  finish : ∀ s, R s (finish s)

namespace Transits

variable {R : Instance → Instance → Prop} [IsPreorder Instance R] (h : Transits m R)

include h

theorem arrive (e : Event) (leaf : String) (depth : Nat) : Moves R (arrive m e leaf depth) := by
  refine Moves.bind (moves_of_quiet h.quiet (quiet_seek _)) fun path =>
    Moves.bind (Moves.forM fun id _ => h.enter e id) fun _ =>
      Moves.bind (Moves.modify (h.state leaf)) fun _ =>
        Moves.bind (moves_of_quiet h.quiet (quiet_seek _)) fun node => ?_
  split
  · exact Moves.modify h.finish
  · exact Moves.pure ()

theorem take (e : Event) (c : Candidate) : Moves R (take m e c) := by
  unfold Instance.take
  split
  · exact moves_of_quiet h.quiet (quiet_runActions m e c.actions)
  · refine Moves.bind (moves_of_quiet h.quiet (quiet_seek _)) fun leaf =>
      Moves.bind (moves_of_quiet h.quiet (quiet_seek _)) fun depth => Moves.get_bind fun s => ?_
    exact Moves.bind (Moves.forM fun id _ => moves_leave h.quiet e (h.closed id)) (fun _ =>
      Moves.bind (moves_of_quiet h.quiet (quiet_runActions m e c.actions)) fun _ =>
        h.arrive e leaf depth) s

/-- What follows when a candidate has been selected, or none. -/
theorem selected (e : Event) (c? : Option Candidate) : Moves R (do
    match c? with
    | some c => Instance.take m e c
    | none =>
      if e.type.startsWith "error.invoke." then
        let state := (← get).state
        let data ← Run.lift (liftData (e.value.getD "data").shown)
        Run.perform (Act.say .warning .runtime
          ("Unhandled invoke failure in '" ++ state ++ "': " ++ data)) : Run Unit) := by
  dsimp only
  split
  · exact h.take e _
  · split
    · exact Moves.get_bind fun s => Moves.bind (Moves.lift _) (fun data =>
        moves_of_quiet h.quiet (quiet_perform _)) s
    · exact Moves.pure ()

theorem process (hselect : ∀ e, Moves R (select m e)) (e : Event) : Moves R (process m e) :=
  Moves.bind (Moves.modify (h.lastEvent _)) fun _ => Moves.bind (hselect e) fun c? => h.selected e c?

theorem enterFirst : Moves R (enterFirst m) :=
  Moves.bind (moves_of_quiet h.quiet (quiet_seek _)) fun leaf => h.arrive startEvent leaf 0

end Transits

/-! ## 6. Parts -/

/-- What a transition is made of. -/
inductive Part (g : Graph) : Instance → Instance → Prop
  | remark {s s' : Instance} : Inert s s' → Part g s s'
  /-- A state is entered, and its work started at least in part. -/
  | entry {s s₁ s' : Instance} {node : StateNode} {done : List Errand} : node ∈ g.states →
      Inert (openState node.id s) s₁ → done <+: node.errands → Arms s.serial done s₁ s' →
        Part g s s'
  | exit (id : String) (s : Instance) : Part g s (closeState id s)
  | ending (s : Instance) : Part g s (finish s)

/-- A succession of parts. -/
def Parts (g : Graph) : Instance → Instance → Prop := Relation.ReflTransGen (Part g)

instance (g : Graph) : IsPreorder Instance (Parts g) where
  refl _ := .refl
  trans _ _ _ := .trans

/-- Entering a state opens it, prepares it, and starts its work; any of this may break off. -/
theorem parts_enter (e : Event) (id : String) : Moves (Parts m.graph) (enter m e id) := by
  intro s
  cases hnode : m.graph.state id with
  | error f =>
    rw [enter, hnode]
    exact .single (.remark (idle_note (x := .missed f) trivial s).inert)
  | ok node =>
    obtain rfl : node.id = id := Graph.state_id hnode
    have hmem := Graph.mem_of_state hnode
    rw [exec_enter e hnode]
    have hprepare := (idle_prepare m e node (openState node.id s)).inert
    rcases hrun : (prepare m e node).exec (openState node.id s) with ⟨r, s₁⟩
    rw [hrun] at hprepare
    cases r with
    | error f =>
      rw [exec_bind_error hrun]
      exact .single (.entry hmem hprepare List.nil_prefix (.nil s₁))
    | ok u =>
      rw [exec_bind_ok hrun, exec_watched]
      obtain ⟨done, hdone, harms, -⟩ := started_startWork m node s.serial e s₁
      rcases hwork : (startWork m node s.serial e).exec s₁ with ⟨r, s'⟩
      rw [hwork] at harms
      have hentry : Parts m.graph s s' := .single (.entry hmem hprepare hdone harms)
      cases r with
      | error f => exact hentry.tail (.remark (idle_note (x := .raised .schedule f) trivial s').inert)
      | ok u => exact hentry

theorem transits_parts : Transits m (Parts m.graph) where
  quiet _ _ hs := .single (.remark hs.idle.inert)
  state leaf s := .single (.remark (inert_state leaf s))
  lastEvent e s := .single (.remark (inert_lastEvent e s))
  closed id s := .single (.exit id s)
  enter := parts_enter
  finish s := .single (.ending s)

theorem parts_take (e : Event) (c : Candidate) : Moves (Parts m.graph) (take m e c) :=
  transits_parts.take e c

/-- **Processing an event is made of parts**, even if it breaks off. -/
theorem parts_process (e : Event) : Moves (Parts m.graph) (process m e) :=
  transits_parts.process (fun e => (idle_select m e).mono fun _ _ h => .single (.remark h.inert)) e

/-- **So is entering the first leaf.** -/
theorem parts_enterFirst : Moves (Parts m.graph) (enterFirst m) := transits_parts.enterFirst

end Instance

end Statechart
