/-
# What holds of every context

The context of an instance changes in three ways only: an action makes a new one, an input stores what
it has read, and a computed field stores its value.  A transition that breaks off leaves the context that
the last of them has made.  So what these three keep is kept by whatever an instance does:

* `Run.Holds`: a step that keeps what is said of the context;
* `Graph.Preserves`: the actions, the inputs and the computed fields of a graph keep it;
* **`Instance.holds_of_reached`**: then it holds in every run, whenever an event is looked at.
-/
import Statechart.Compile.Analysis
import Statechart.Proofs.Evaluation
import Statechart.Proofs.Serial
import Statechart.Proofs.Transition

namespace Statechart

/-! ## 1. Steps that keep what is said of the context -/

namespace Run

variable {α β : Type}

/-- A step keeps what is said of the context, and has a result as stated if it comes to its end. -/
def Holds (P : Value → Prop) (x : Run α) (Q : α → Prop) : Prop :=
  ∀ s, P s.context → x.Comes s (fun a s' => Q a ∧ P s'.context) fun _ s' => P s'.context

section Holds

variable {P : Value → Prop} {Q : α → Prop} {R : β → Prop}

/-- It is kept whether the step comes to its end or not. -/
theorem Holds.after {x : Run α} (h : Holds P x Q) {s : Instance} (hs : P s.context) :
    P (x.exec s).2.context :=
  Comes.after (P := fun s' => P s'.context) (Comes.mono (h s hs) (fun _ _ hq => hq.2) fun _ _ hf => hf)

theorem Holds.mono {x : Run α} {Q' : α → Prop} (h : Holds P x Q) (hQ : ∀ a, Q a → Q' a) :
    Holds P x Q' := fun s hs =>
  Comes.mono (h s hs) (fun a _ hq => ⟨hQ a hq.1, hq.2⟩) fun _ _ hf => hf

theorem Holds.pure {a : α} (h : Q a) : Holds P (Pure.pure a : Run α) Q := fun _ hs =>
  Comes.pure ⟨h, hs⟩

/-- **One step after another.** -/
theorem Holds.bind {x : Run α} {f : α → Run β} (hx : Holds P x Q) (hf : ∀ a, Q a → Holds P (f a) R) :
    Holds P (x >>= f) R := fun s hs =>
  Comes.bind (hx s hs) fun a s' h => hf a h.1 s' h.2

theorem Holds.get_bind {f : Instance → Run β} (h : ∀ s, P s.context → Holds P (f s) R) :
    Holds P (get >>= f) R := fun s hs => Comes.get_bind (h s hs s hs)

theorem Holds.modify {f : Instance → Instance} (h : ∀ s, P s.context → P (f s).context) :
    Holds P (modify f : Run Unit) fun _ => True := fun s hs => Comes.of_ok rfl ⟨trivial, h s hs⟩

theorem holds_note (x : Happening) : Holds P (note x) fun _ => True := Holds.modify fun _ hs => hs

theorem holds_lift (r : Except Fault α) : Holds P (lift r) fun a => r = .ok a := by
  intro s hs
  cases r with
  | error f => exact Comes.of_error rfl hs
  | ok a => exact Comes.of_ok rfl ⟨rfl, hs⟩

theorem holds_seek (r : Except Fault α) : Holds P (seek r) fun a => r = .ok a := by
  intro s hs
  cases r with
  | error f => exact Comes.of_error rfl hs
  | ok a => exact Comes.of_ok rfl ⟨rfl, hs⟩

/-- A step that leaves the context alone. -/
theorem Holds.of_same {x : Run α} (h : ∀ s, (x.exec s).2.context = s.context) :
    Holds P x fun _ => True := by
  intro s hs
  have hafter := Comes.of_after (P := fun s' => P s'.context) (x := x) ((h s).symm ▸ hs)
  exact Comes.mono hafter (fun _ _ h => ⟨trivial, h⟩) fun _ _ h => h

/-- What is known of the result of a step with effects is known here. -/
theorem Holds.perform {x : Act α} (h : x.Results Q) : Holds P (perform x) Q := by
  intro s hs
  rcases hrun : x.exec s.world.effects with ⟨r, effects⟩
  have hexec : (Run.perform x).exec s = (r, { s with world := { s.world with effects } }) := by
    simp only [exec, Run.perform, World.perform, StateT.run, hrun]
  cases r with
  | error f => exact Comes.of_error hexec hs
  | ok a => exact Comes.of_ok hexec ⟨h _ a _ hrun, hs⟩

theorem Holds.watched {o : Origin} {x : Run α} (h : Holds P x Q) : Holds P (watched o x) Q := by
  intro s hs
  have hx := h s hs
  unfold Comes at hx ⊢
  rw [exec_watched]
  rcases hrun : x.exec s with ⟨r, s'⟩
  rw [hrun] at hx
  cases r <;> exact hx

theorem Holds.forM {f : α → Run Unit} {xs : List α} (h : ∀ x ∈ xs, Holds P (f x) fun _ => True) :
    Holds P (xs.forM f) fun _ => True := by
  induction xs with
  | nil => exact Holds.pure trivial
  | cons x xs ih =>
    exact Holds.bind (h x (by simp)) fun _ _ => ih fun y hy => h y (by simp [hy])

theorem Holds.foldlM {f : β → α → Run β} {xs : List α} (h : ∀ b, ∀ x ∈ xs, R b → Holds P (f b x) R)
    {b : β} (hb : R b) : Holds P (xs.foldlM f b) R := by
  induction xs generalizing b with
  | nil => exact Holds.pure hb
  | cons x xs ih =>
    rw [List.foldlM_cons]
    exact Holds.bind (h b x (by simp) hb) fun b' hb' => ih (fun b y hy => h b y (by simp [hy])) hb'

end Holds

end Run

/-! ## 2. What a graph keeps -/

/-- An action makes contexts as stated of contexts as stated. -/
def BoundAction.Preserves (r : Renderer) (P : Value → Prop) (a : BoundAction) : Prop :=
  ∀ context event, P context → (a.apply r context event).Results P

/-- All actions of a state: those of its transitions, and that which applies its rules. -/
def StateNode.allActions (n : StateNode) : List BoundAction :=
  Analysis.actionsOf n ++ n.validations.toList

/-- What changes contexts in a graph keeps what is said of them. -/
structure Graph.Preserves (g : Graph) (r : Renderer) (P : Value → Prop) : Prop where
  action : ∀ n ∈ g.states, ∀ a ∈ n.allActions, a.Preserves r P
  input : ∀ n ∈ g.states, ∀ b ∈ n.inputs, ∀ context, P context → (b.applyInput context).Results P
  computed : ∀ n ∈ g.states, ∀ c ∈ n.computed, ∀ context v context', P context →
    context.stored c.field v = .ok context' → P context'

namespace Instance

open Run

variable {m : Machine} {P : Value → Prop}

theorem holds_act {a : BoundAction} (ha : a.Preserves m.renderer P) (e : Event) {context : Value}
    (hcontext : P context) : Holds P (act m e a context) P :=
  (holds_note _).bind fun _ _ => (Holds.perform (ha context e.value hcontext)).watched

theorem holds_runActions {actions : List BoundAction} (h : ∀ a ∈ actions, a.Preserves m.renderer P)
    (e : Event) : Holds P (runActions m e actions) fun _ => True :=
  Holds.forM fun a ha => Holds.get_bind fun _ hs =>
    (holds_act (h a ha) e hs).bind fun _ hcontext => Holds.modify fun _ _ => hcontext

theorem holds_computeField {c : ComputedField} (node : StateNode) (e : Event)
    (hc : ∀ context v context', P context → context.stored c.field v = .ok context' → P context')
    {context : Value} (hcontext : P context) : Holds P (computeField node e context c) P := by
  unfold computeField
  refine Holds.get_bind fun s _ => ?_
  dsimp only
  split
  · exact Holds.pure hcontext
  · refine (Holds.perform (Act.results_any _)).bind fun v _ => (holds_lift _).bind fun context' hstored => ?_
    have hcontext' := hc context v context' hcontext hstored
    split
    · exact (Holds.modify fun _ hs => hs).bind fun _ _ => Holds.pure hcontext'
    · exact Holds.pure hcontext'

variable {n : StateNode}

theorem holds_entryContext (h : m.graph.Preserves m.renderer P) (hn : n ∈ m.graph.states) (e : Event) :
    Holds P (entryContext m n e) P := by
  unfold entryContext
  refine Holds.get_bind fun s hs => ?_
  have hinputs : (Binding.applyInputs n.inputs s.context).Results P :=
    Act.Results.foldlM (fun context b hb => h.input n hn b hb context) hs
  refine (Holds.perform hinputs).watched.bind fun context hcontext => ?_
  refine (Holds.foldlM (fun context c hc => holds_computeField n e (h.computed n hn c hc))
    hcontext).watched.bind fun context' hcontext' => ?_
  split
  · rename_i a ha
    have hmem : a ∈ n.allActions := List.mem_append_right _ (by simp [ha])
    exact holds_act (h.action n hn a hmem) e hcontext'
  · exact Holds.pure hcontext'

theorem Arms.context_eq {scope : Nat} {xs : List Errand} {s s' : Instance} (h : Arms scope xs s s') :
    s'.context = s.context := by
  induction h with
  | nil => rfl
  | cons harm _ ih => cases harm <;> exact ih

theorem holds_startWork (node : StateNode) (scope : Nat) (e : Event) :
    Holds P (startWork m node scope e) fun _ => True :=
  Holds.of_same fun s => by
    obtain ⟨_, _, harms, _⟩ := started_startWork m node scope e s
    exact harms.context_eq

theorem context_closeState (id : String) (s : Instance) : (closeState id s).context = s.context := by
  obtain ⟨_, _, _, _, _, _, _, h, -⟩ := closeState_frame id s
  rw [h]

theorem context_closeAll (s : Instance) : s.closeAll.context = s.context := by
  obtain ⟨_, _, _, _, h, -⟩ := closeAll_frame s
  rw [h]

theorem holds_prepare (h : m.graph.Preserves m.renderer P) (hn : n ∈ m.graph.states) (e : Event) :
    Holds P (prepare m e n) fun _ => True := by
  have hentry : ∀ a ∈ n.entry, a.Preserves m.renderer P := fun a ha =>
    h.action n hn a (by simp [StateNode.allActions, Analysis.actionsOf, ha])
  exact (holds_entryContext h hn e).bind fun context hcontext =>
    (Holds.modify fun _ _ => hcontext).bind fun _ _ => holds_runActions hentry e

theorem holds_enter (h : m.graph.Preserves m.renderer P) (e : Event) (id : String) :
    Holds P (enter m e id) fun _ => True :=
  (holds_seek _).bind fun node hnode => Holds.get_bind fun s _ =>
    (Holds.modify (f := openState id) fun _ hs => hs).bind fun _ _ =>
      (holds_prepare h (Graph.mem_of_state hnode) e).bind fun _ _ =>
        (holds_startWork node s.serial e).watched

theorem holds_leave (h : m.graph.Preserves m.renderer P) (e : Event) (id : String) :
    Holds P (leave m e id) fun _ => True := by
  refine (holds_seek _).bind fun node hnode => ?_
  have hexit : ∀ a ∈ node.exit, a.Preserves m.renderer P := fun a ha =>
    h.action node (Graph.mem_of_state hnode) a (by simp [StateNode.allActions, Analysis.actionsOf, ha])
  refine (Holds.modify fun s hs => (context_closeState id s).symm ▸ hs).bind fun _ _ => ?_
  exact Holds.get_bind fun s _ => (Holds.perform (Act.results_any _)).watched.bind fun _ _ =>
    holds_runActions hexit e

theorem holds_arrive (h : m.graph.Preserves m.renderer P) (e : Event) (leaf : String) (depth : Nat) :
    Holds P (arrive m e leaf depth) fun _ => True := by
  refine (holds_seek _).bind fun path _ => (Holds.forM fun id _ => holds_enter h e id).bind fun _ _ =>
    (Holds.modify (f := fun s => { s with state := leaf }) fun _ hs => hs).bind fun _ _ =>
      (holds_seek _).bind fun node _ => ?_
  split
  · exact Holds.modify fun s hs => (context_closeAll s).symm ▸ hs
  · exact Holds.pure trivial

/-- A candidate that is selected is one of a state of the graph. -/
theorem holds_select (e : Event) : Holds P (select m e) fun c? =>
    ∀ c, c? = some c → ∃ n ∈ m.graph.states, c ∈ n.candidates := by
  refine Holds.get_bind fun s _ => (holds_seek _).bind fun cs hcs => Holds.watched
    (Holds.perform ((firstEnabled_results _ _ cs).mono fun c? hfirst c hc => ?_))
  obtain ⟨ancestors, -, hcs⟩ := bind_eq_ok.mp hcs
  obtain ⟨nodes, hnodes, hcs⟩ := bind_eq_ok.mp hcs
  cases hcs
  obtain ⟨node, hnode, hc⟩ := List.mem_flatMap.mp (hfirst c hc)
  obtain ⟨id, -, hid⟩ := (mem_of_mapM hnodes node).mp hnode
  exact ⟨node, Graph.mem_of_state hid, node.mem_candidates hc⟩

theorem holds_take (h : m.graph.Preserves m.renderer P) (e : Event) {c : Candidate}
    (hn : n ∈ m.graph.states) (hc : c ∈ n.candidates) : Holds P (take m e c) fun _ => True := by
  have hactions : ∀ a ∈ c.actions, a.Preserves m.renderer P := fun a ha =>
    h.action n hn a (List.mem_append_left _ (List.mem_append_right _
      (List.mem_flatMap.mpr ⟨c, hc, ha⟩)))
  unfold take
  split
  · exact holds_runActions hactions e
  · refine (holds_seek _).bind fun leaf _ => (holds_seek _).bind fun depth _ => Holds.get_bind fun s _ => ?_
    exact (Holds.forM fun id _ => holds_leave h e id).bind fun _ _ =>
      (holds_runActions hactions e).bind fun _ _ => holds_arrive h e leaf depth

/-- **Processing an event keeps what is said of the context**, even if it breaks off. -/
theorem holds_process (h : m.graph.Preserves m.renderer P) (e : Event) :
    Holds P (process m e) fun _ => True := by
  refine (Holds.modify (f := fun s => { s with lastEvent := some e.type }) fun _ hs => hs).bind
    fun _ _ => (holds_select e).bind fun c? hc? => ?_
  dsimp only
  split
  · obtain ⟨n, hn, hc⟩ := hc? _ rfl
    exact holds_take h e hn hc
  · split
    · exact Holds.get_bind fun s _ => (holds_lift _).bind fun data _ =>
        Holds.perform (Act.results_any _)
    · exact Holds.pure trivial

theorem holds_enterFirst (h : m.graph.Preserves m.renderer P) :
    Holds P (enterFirst m) fun _ => True :=
  (holds_seek _).bind fun leaf _ => holds_arrive h startEvent leaf 0

/-! ## 3. Runs -/

/-- **A step** keeps what is said of the context. -/
theorem Step.holds (h : m.graph.Preserves m.renderer P) {s s' : Instance} (hstep : Step m s s')
    (hs : P s.context) : P s'.context := by
  cases hstep with
  | aside haside => cases haside <;> exact hs
  | looked e => exact (holds_select e).after hs
  | opened _ => exact (holds_enterFirst h).after (s := { s with started := true }) hs
  | processed e => exact (holds_process h e).after hs
  | fired | reported =>
    obtain ⟨_, _, hreceived, -⟩ := received_frame _ _ _
    rw [hreceived]
    exact hs
  | stopped =>
    have hclosed := context_closeAll s
    simp only [note]
    exact hclosed.symm ▸ hs
  | _ => exact hs

theorem context_of_fresh {s : Instance} (h : IsFresh m s) : s.context = m.graph.context := by
  obtain ⟨world, listeners, s₀, h₀, rfl⟩ := h
  obtain ⟨leaf, -, h₀⟩ := bind_eq_ok.mp h₀
  cases h₀
  rfl

/-- **What holds of the first context holds in every run** if actions, inputs and computed fields keep
it: in every instance that is reached, those in which the guards of an event are looked at among them. -/
theorem holds_of_reached (h : m.graph.Preserves m.renderer P) (hfirst : P m.graph.context)
    {s : Instance} (hs : Reached m s) : P s.context := by
  obtain ⟨s₀, hfresh, hsteps⟩ := hs
  induction hsteps with
  | refl => exact (context_of_fresh hfresh).symm ▸ hfirst
  | tail _ hstep ih => exact hstep.holds h ih

end Instance

end Statechart
