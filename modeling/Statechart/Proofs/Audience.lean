/-
# What listeners are told

A snapshot is told to one listener after the other, and each of them may make requests in the middle of
it.  A request to stop is carried out at once, and so is a request to send that is made at the start:
what comes of them is published, and told to everyone, before the rest of the listeners have been told
the snapshot that prompted them.  So every listener is told every snapshot, but it is told them in the
order of publication only if those ahead of it wait until their turn is over.

* `Listener.IsPatient`: such a listener;
* `Instance.Relays`: what operations go through tells a listener all that is published, and leaves the
  last snapshot in agreement with the instance;
* **`Instance.comes_publish`**: so does publishing, whatever the listeners ask for;
* **`Instance.spans_relays`**, `Instance.relays_start`, `Instance.relays_send`: so does every operation;
* **`Definition.told_of_run`**: all this for runs of definitions;
* `Definition.overtaken_at_start`: a listener that is told the present before the past.
-/
import Statechart.Proofs.Sequence

namespace Statechart

/-- A listener that waits until its turn is over, as long as the instance runs: it does not stop it, and
sends nothing at the start, when no event has been processed yet. -/
def Listener.IsPatient (l : Listener) : Prop :=
  ∀ shown : Snapshot, shown.status = .active →
    .stop ∉ (l.respond shown).requests ∧ (shown.event = none → (l.respond shown).requests = [])

namespace Instance

variable {m : Machine} {s s' s₁ s₂ : Instance}

open Run

/-! ## 1. Transitions tell nobody anything -/

/-- Nothing is published, and nobody is told anything. -/
structure Unobserved (s s' : Instance) : Prop where
  listeners : s'.listeners = s.listeners
  published : s'.published = s.published
  heard : s'.heard = s.heard

theorem Unobserved.trans (h : Unobserved s s₁) (h' : Unobserved s₁ s') : Unobserved s s' :=
  ⟨h'.listeners.trans h.listeners, h'.published.trans h.published, h'.heard.trans h.heard⟩

theorem Inert.unobserved (h : Inert s s') : Unobserved s s' := by
  obtain ⟨_, _, _, _, _, _, rfl, _⟩ := h
  exact ⟨rfl, rfl, rfl⟩

theorem Arms.unobserved {scope : Nat} {xs : List Errand} (h : Arms scope xs s s') :
    Unobserved s s' := by
  induction h with
  | nil => exact ⟨rfl, rfl, rfl⟩
  | cons harm _ ih =>
    cases harm with
    | timer => exact ⟨ih.listeners, ih.published, ih.heard⟩
    | call => exact ⟨ih.listeners, ih.published, ih.heard⟩

theorem unobserved_closeAll (s : Instance) : Unobserved s s.closeAll := by
  obtain ⟨_, _, _, _, h, -⟩ := closeAll_frame s
  rw [h]
  exact ⟨rfl, rfl, rfl⟩

theorem unobserved_closeState (id : String) (s : Instance) : Unobserved s (closeState id s) := by
  unfold closeState
  dsimp only
  split
  · rw [closeScope, dropCalls_eq]
    exact ⟨rfl, rfl, rfl⟩
  · exact ⟨rfl, rfl, rfl⟩

theorem Part.unobserved {g : Graph} (h : Part g s s') : Unobserved s s' := by
  cases h with
  | remark h => exact h.unobserved
  | @entry _ _ _ node _ _ h _ h' =>
    have hopened : Unobserved s (openState node.id s) := ⟨rfl, rfl, rfl⟩
    exact (hopened.trans h.unobserved).trans h'.unobserved
  | exit id => exact unobserved_closeState id s
  | ending =>
    obtain ⟨hlisteners, hpublished, hheard⟩ := unobserved_closeAll s
    exact ⟨hlisteners, hpublished, hheard⟩

/-- **A transition tells nobody anything**, however far it comes. -/
theorem Parts.unobserved {g : Graph} (h : Parts g s s') : Unobserved s s' := by
  induction h with
  | refl => exact ⟨rfl, rfl, rfl⟩
  | tail _ hp ih => exact ih.trans hp.unobserved

/-! ## 2. What a listener is told -/

/-- What a listener has been told so far. -/
def heardBy (k : Nat) (s : Instance) : List Snapshot := (s.heard.filter (·.1 = k)).map (·.2)

/-- All that is published is told to a listener; on a condition, in the same order. -/
def Relayed (inOrder : Prop) (k : Nat) (s s' : Instance) : Prop :=
  ∃ news told, s'.published = s.published ++ news ∧ s'.heardBy k = s.heardBy k ++ told ∧
    told.Perm news ∧ (inOrder → told = news)

variable {inOrder : Prop} {k : Nat}

theorem relayed_of_same (hpublished : s'.published = s.published) (hheard : s'.heard = s.heard) :
    Relayed inOrder k s s' :=
  ⟨[], [], by simp [hpublished], by simp [heardBy, hheard], .refl [], fun _ => rfl⟩

theorem Relayed.trans (h : Relayed inOrder k s s₁) (h' : Relayed inOrder k s₁ s') :
    Relayed inOrder k s s' := by
  obtain ⟨news, told, hpublished, hheard, hperm, horder⟩ := h
  obtain ⟨news', told', hpublished', hheard', hperm', horder'⟩ := h'
  refine ⟨news ++ news', told ++ told', ?_, ?_, hperm.append hperm', fun hp => ?_⟩
  · rw [hpublished', hpublished, List.append_assoc]
  · rw [hheard', hheard, List.append_assoc]
  · rw [horder hp, horder' hp]

/-- A snapshot has been published. -/
def posted (shown : Snapshot) (s : Instance) : Instance :=
  { s with published := s.published ++ [shown] }

/-- A listener has been told a snapshot. -/
def hears (l : Listener) (shown : Snapshot) (s : Instance) : Instance :=
  { s with heard := s.heard ++ [(l.id, shown)] }.note (.told l.id s.configuration)

theorem heardBy_hears_self (l : Listener) (shown : Snapshot) (s : Instance) :
    (s.hears l shown).heardBy l.id = s.heardBy l.id ++ [shown] := by
  simp [hears, note, heardBy, List.filter_append]

theorem heardBy_hears_of_ne {l : Listener} (h : l.id ≠ k) (shown : Snapshot) (s : Instance) :
    (s.hears l shown).heardBy k = s.heardBy k := by
  simp [hears, note, heardBy, List.filter_append, h]

/-- **A listener is told a snapshot between others**: what is published before its turn has come is told
to it first. -/
theorem relayed_around {l : Listener} {shown : Snapshot}
    (hbefore : Relayed inOrder l.id (s.posted shown) s₁)
    (hquiet : inOrder → s₁.published = s.published ++ [shown])
    (hafter : Relayed inOrder l.id (s₁.hears l shown) s') : Relayed inOrder l.id s s' := by
  obtain ⟨news, told, hpublished, hheard, hperm, horder⟩ := hbefore
  obtain ⟨news', told', hpublished', hheard', hperm', horder'⟩ := hafter
  rw [heardBy_hears_self, hheard] at hheard'
  have hpublished'' : s'.published = s.published ++ (shown :: news ++ news') := by
    rw [hpublished']
    change s₁.published ++ news' = _
    rw [hpublished]
    simp [posted]
  refine ⟨shown :: news ++ news', told ++ shown :: told', hpublished'', ?_, ?_, fun hp => ?_⟩
  · rw [hheard']
    simp [heardBy, posted]
  · exact List.perm_middle.trans ((hperm.append hperm').cons shown)
  · have hnone : news = [] := List.append_right_eq_self.mp (hpublished.symm.trans (hquiet hp))
    rw [horder hp, horder' hp, hnone]
    rfl

/-- Of what has been published after the first `n` snapshots, the last is what the instance shows. -/
def UpToDate (m : Machine) (n : Nat) (s : Instance) : Prop :=
  n < s.published.length →
    ∃ node, m.graph.state s.state = .ok node ∧ s.published.getLast? = some (s.shownIn node)

/-- A budget has not run out from one instance to a later one. -/
structure InBudget (budget : Nat) (s s' : Instance) : Prop where
  taken : (taken s'.journal).length < (taken s.journal).length + budget
  unspent : ∀ o, .raised o .exhausted ∉ s'.journal

/-- What operations go through leaves the last snapshot in agreement with the instance, unless something
raises. -/
structure Passes (m : Machine) (n : Nat) (s s' : Instance) : Prop where
  steps : Steps m s s'
  listeners : s'.listeners = s.listeners
  early : s'.started = false → s'.lastEvent = s.lastEvent
  current : Undisturbed s'.journal → s'.Calm → UpToDate m n s → UpToDate m n s'

/-- It tells a listener all that is published, unless the budget runs out. -/
structure Relays (m : Machine) (n : Nat) (inOrder : Prop) (k : Nat) (s s' : Instance) : Prop
    extends Passes m n s s' where
  relayed : InBudget m.budget s s' → Relayed inOrder k s s'

theorem InBudget.of_steps (h : Steps m s s₁) (h' : Steps m s₁ s') (hb : InBudget m.budget s s') :
    InBudget m.budget s s₁ ∧ InBudget m.budget s₁ s' := by
  have hgrown := length_taken_le h.grown
  have hgrown' := length_taken_le h'.grown
  have htaken := hb.taken
  refine ⟨⟨by omega, fun o ho => hb.unspent o ?_⟩, ⟨by omega, hb.unspent⟩⟩
  exact h'.grown.subset ho

theorem not_started_of_steps (h : Steps m s s') (hs : s'.started = false) : s.started = false := by
  cases hbefore : s.started with
  | false => rfl
  | true => exact absurd (h.started hbefore) (by simp [hs])

variable {n : Nat}

theorem Passes.trans (h : Passes m n s s₁) (h' : Passes m n s₁ s') : Passes m n s s' := by
  refine ⟨h.steps.trans h'.steps, h'.listeners.trans h.listeners, fun hs => ?_,
    fun hund hcalm hs => ?_⟩
  · rw [h'.early hs, h.early (not_started_of_steps h'.steps hs)]
  · exact h'.current hund hcalm (h.current (hund.of_grown h'.steps.grown)
      (hcalm.of_grown h'.steps.grown) hs)

theorem Relays.rfl : Relays m n inOrder k s s :=
  ⟨⟨.refl, Eq.refl _, fun _ => Eq.refl _, fun _ _ h => h⟩,
    fun _ => relayed_of_same (Eq.refl _) (Eq.refl _)⟩

theorem Relays.trans (h : Relays m n inOrder k s s₁) (h' : Relays m n inOrder k s₁ s') :
    Relays m n inOrder k s s' := by
  refine ⟨h.toPasses.trans h'.toPasses, fun hb => ?_⟩
  obtain ⟨hb₁, hb₂⟩ := hb.of_steps h.steps h'.steps
  exact (h.relayed hb₁).trans (h'.relayed hb₂)

instance : IsPreorder Instance (Relays m n inOrder k) where
  refl _ := .rfl
  trans _ _ _ := .trans

/-- Steps that change nothing that shows. -/
theorem relays_of_same (h : Steps m s s') (hunobserved : Unobserved s s')
    (hlast : s'.lastEvent = s.lastEvent) (hstate : s'.state = s.state)
    (hcontext : s'.context = s.context) (hstatus : s'.status = s.status) :
    Relays m n inOrder k s s' := by
  refine ⟨⟨h, hunobserved.listeners, fun _ => hlast, fun _ _ hs => ?_⟩,
    fun _ => relayed_of_same hunobserved.published hunobserved.heard⟩
  unfold UpToDate shownIn at hs ⊢
  rwa [hunobserved.published, hlast, hstate, hcontext, hstatus]

/-- Steps that are cut short by an error before anything is told. -/
theorem relays_of_disturbed (h : Steps m s s') (hunobserved : Unobserved s s')
    (hstarted : s'.started = true) (hdisturbed : ¬ Undisturbed s'.journal) :
    Relays m n inOrder k s s' := by
  refine ⟨⟨h, hunobserved.listeners, fun hnot => ?_, fun hund => absurd hund hdisturbed⟩,
    fun _ => relayed_of_same hunobserved.published hunobserved.heard⟩
  cases hnot.symm.trans hstarted

theorem Unheard.relays (h : Unheard m s s') : Relays m n inOrder k s s' := by
  have hstep : Steps m s s' := .single (.aside h.beside.aside)
  cases h with
  | quiet => exact relays_of_same hstep ⟨rfl, rfl, rfl⟩ rfl rfl rfl rfl
  | missed => exact relays_of_same hstep ⟨rfl, rfl, rfl⟩ rfl rfl rfl rfl

theorem relays_enqueue {e : Event} (hs : s.started = true) :
    Relays m n inOrder k s (enqueue ⟨e, none⟩ s) :=
  relays_of_same (.single (.accepted e hs)) ⟨rfl, rfl, rfl⟩ rfl rfl rfl rfl

/-- A snapshot has been published, and told, and the last one agrees with the instance. -/
structure Renews (m : Machine) (n : Nat) (inOrder : Prop) (k : Nat) (s s' : Instance) : Prop
    extends Relays m n inOrder k s s' where
  renewed : Undisturbed s'.journal → s'.Calm → UpToDate m n s'

/-- What has been changed before is told with the snapshot. -/
theorem Renews.after (h : Renews m n inOrder k s₁ s') (hsteps : Steps m s s₁)
    (hunobserved : Unobserved s s₁) (hearly : s₁.started = false → s₁.lastEvent = s.lastEvent) :
    Renews m n inOrder k s s' := by
  refine ⟨⟨⟨hsteps.trans h.steps, h.listeners.trans hunobserved.listeners, fun hs => ?_,
    fun hund hcalm _ => h.renewed hund hcalm⟩, fun hb => ?_⟩, h.renewed⟩
  · rw [h.early hs, hearly (not_started_of_steps h.steps hs)]
  · exact (relayed_of_same hunobserved.published hunobserved.heard).trans
      (h.relayed (hb.of_steps hsteps h.steps).2)

theorem Renews.trans (h : Renews m n inOrder k s s₁) (h' : Relays m n inOrder k s₁ s') :
    Renews m n inOrder k s s' :=
  ⟨h.toRelays.trans h', fun hund hcalm =>
    h'.current hund hcalm (h.renewed (hund.of_grown h'.steps.grown)
      (hcalm.of_grown h'.steps.grown))⟩

/-! ## 3. Telling a snapshot -/

/-- An instance in the course of some run, to which a listener listens behind certain others.  Nobody
else has its number. -/
structure Listening (m : Machine) (ahead : List Listener) (l : Listener) (s : Instance) : Prop where
  reached : Reached m s
  fresh : s.started = false → s.lastEvent = none
  placed : ∃ behind, s.listeners = ahead ++ l :: behind ∧ ∀ x ∈ ahead ++ behind, x.id ≠ l.id

section Telling

variable {ahead : List Listener} {l : Listener}

theorem Listening.of_steps (h : Listening m ahead l s) (hsteps : Steps m s s')
    (hlisteners : s'.listeners = s.listeners)
    (hearly : s'.started = false → s'.lastEvent = s.lastEvent) : Listening m ahead l s' := by
  refine ⟨h.reached.steps hsteps, fun hs => ?_, ?_⟩
  · rw [hearly hs]
    exact h.fresh (not_started_of_steps hsteps hs)
  · rw [hlisteners]
    exact h.placed

theorem Listening.relays (h : Listening m ahead l s) (hrelays : Relays m n inOrder k s s') :
    Listening m ahead l s' :=
  h.of_steps hrelays.steps hrelays.listeners hrelays.early

instance : IsPreorder Instance (Given (Listening m ahead l) (Relays m n inOrder l.id)) :=
  isPreorder_given fun _ _ hs h => hs.relays h

/-- A request that is accepted is accepted after the start. -/
def Accepting (s : Instance) : Prop := s.status = .active → s.started = true

theorem Accepting.steps (hs : s.Accepting) (h : Steps m s s') : s'.Accepting := by
  intro hactive
  by_cases hbefore : s.status = .active
  · exact h.started (hs hbefore)
  · exact absurd hactive (h.ended hbefore)

/-- What comes of a request is told, unless the budget runs out. -/
def Answers (m : Machine) (n : Nat) (inOrder : Prop) (ahead : List Listener) (l : Listener)
    (x : Run Unit) : Prop :=
  ∀ s, Listening m ahead l s → s.Accepting → x.Comes s (fun _ s' => Relays m n inOrder l.id s s')
    fun f s' => Relays m n inOrder l.id s s' ∧ (f = .exhausted → ¬ InBudget m.budget s s')

theorem steps_hears (x : Listener) (shown : Snapshot) (s : Instance) : Steps m s (s.hears x shown) :=
  (Relation.ReflTransGen.single (.aside (.quiet s s.lastEvent s.listeners s.turns s.watch s.published
    (s.heard ++ [(x.id, shown)]) s.failures s.world))).tail (.aside (.told x.id _))

theorem passes_hears (x : Listener) (shown : Snapshot) (s : Instance) :
    Passes m n s (s.hears x shown) :=
  ⟨steps_hears x shown s, rfl, fun _ => rfl, fun _ _ h => h⟩

theorem Listening.hears (h : Listening m ahead l s) (x : Listener) (shown : Snapshot) :
    Listening m ahead l (s.hears x shown) :=
  h.of_steps (steps_hears x shown s) rfl fun _ => rfl

/-- Somebody else is told a snapshot. -/
theorem relays_hears {x : Listener} (hx : x.id ≠ l.id) (shown : Snapshot) (s : Instance) :
    Relays m n inOrder l.id s (s.hears x shown) := by
  refine ⟨passes_hears x shown s, fun _ => ⟨[], [], ?_, ?_, .refl [], fun _ => rfl⟩⟩
  · simp [Instance.hears, note]
  · simp [heardBy_hears_of_ne hx]

/-- **A listener is told a snapshot** and makes its requests. -/
theorem comes_notify {respond : Request → Run Unit}
    (hanswers : ∀ q, Answers m n inOrder ahead l (respond q)) (x : Listener) (shown : Snapshot)
    (hs : Listening m ahead l s) (hopen : s.Accepting) :
    (notify respond shown x).Comes s (fun _ s' => Relays m n inOrder l.id (s.hears x shown) s')
      fun _ s' => Relays m n inOrder l.id (s.hears x shown) s' ∧
        ¬ InBudget m.budget (s.hears x shown) s' := by
  have hheard := hs.hears x shown
  have hopened : (s.hears x shown).Accepting := hopen
  refine Comes.modify_bind ?_
  change Comes _ (s.hears x shown) _ _
  generalize s.hears x shown = t at hheard hopened ⊢
  have hrequests : ((x.respond shown).requests.forM respond).Comes t
      (fun _ s' => Relays m n inOrder l.id t s')
      fun f s' => Relays m n inOrder l.id t s' ∧ (f = .exhausted → ¬ InBudget m.budget t s') := by
    refine Comes.forM (I := fun _ s' => Relays m n inOrder l.id t s') (fun _ q _ s₁ _ h => ?_)
      .rfl
    refine (hanswers q s₁ (hheard.relays h) (hopened.steps h.steps)).mono (fun _ s' h' => ?_)
      fun f s' h' => ⟨?_, fun hf hb => ?_⟩
    · exact h.trans h'
    · exact h.trans h'.1
    · exact h'.2 hf (hb.of_steps h.steps h'.1.steps).2
  refine Comes.bind ((Comes.outcome_or hrequests).mono (fun _ _ h => h)
    fun _ _ h => ⟨h.2.1, h.2.2 h.1⟩) fun r s₁ h => ?_
  have hrelays : Relays m n inOrder l.id t s₁ := h.elim id fun ⟨_, h⟩ => h.1
  have hlog : ∀ failed : Bool, (if failed = true then
      perform (Act.say .error .runtime
        ("Listener " ++ x.name ++ " failed on snapshot for '" ++ shown.state ++ "'"))
      else Pure.pure () : Run Unit).Comes s₁ (fun _ s' => Relays m n inOrder l.id t s')
        fun _ s' => Relays m n inOrder l.id t s' ∧ ¬ InBudget m.budget t s' := by
    intro failed
    cases failed with
    | false => exact hrelays
    | true => exact hrelays.trans (unheard_world _ s₁).relays
  cases r <;> exact Comes.bind (Comes.pure (Q := fun _ s' => s' = s₁) rfl) fun _ _ h => h ▸ hlog _

/-- Nothing is published, and the instance does not end. -/
structure Hush (s s' : Instance) : Prop where
  published : s'.published = s.published
  status : s'.status = s.status

/-- Nothing is published as long as the instance is in a certain status, in which it stays. -/
def HushIn (status : Status) (s s' : Instance) : Prop := s.status = status → Hush s s'

instance (status : Status) : IsPreorder Instance (HushIn status) where
  refl _ _ := ⟨rfl, rfl⟩
  trans _ _ _ h h' hs := by
    have hfirst := h hs
    have hrest := h' (hfirst.status.trans hs)
    exact ⟨hrest.published.trans hfirst.published, hrest.status.trans hfirst.status⟩

theorem Beside.hush (h : Beside m s s') : Hush s s' := by
  cases h <;> exact ⟨rfl, rfl⟩

/-- What a listener asks for when it is told a snapshot has to wait. -/
def Waits (respond : Request → Run Unit) (shown : Snapshot) (x : Listener) : Prop :=
  ∀ q ∈ (x.respond shown).requests, Moves (HushIn shown.status) (respond q)

theorem hush_notify (m : Machine) {respond : Request → Run Unit} {shown : Snapshot} {x : Listener}
    (h : Waits respond shown x) : Moves (HushIn shown.status) (notify respond shown x) :=
  moves_notify (m := m) (R := HushIn shown.status) (fun _ _ h _ _ => h.hush) h

section Publish

variable {respond : Request → Run Unit}

/-- Others are told a snapshot. -/
theorem comes_others (hanswers : ∀ q, Answers m n inOrder ahead l (respond q)) (shown : Snapshot)
    {xs : List Listener} (hxs : ∀ x ∈ xs, x.id ≠ l.id) (hs : Listening m ahead l s)
    (hopen : s.Accepting) :
    (xs.forM (notify respond shown)).Comes s (fun _ s' => Relays m n inOrder l.id s s')
      fun _ s' => Relays m n inOrder l.id s s' ∧ ¬ InBudget m.budget s s' := by
  refine Comes.forM (I := fun _ s' => Relays m n inOrder l.id s s') ?_
    .rfl
  rintro _ x _ s₁ rfl h
  have hheard : Relays m n inOrder l.id s (s₁.hears x shown) :=
    h.trans (relays_hears (hxs x (by simp)) shown s₁)
  refine (comes_notify hanswers x shown (hs.relays h) (hopen.steps h.steps)).mono
    (fun _ s' h' => ?_) fun _ s' h' => ⟨?_, fun hb => ?_⟩
  · exact hheard.trans h'
  · exact hheard.trans h'.1
  · exact h'.2 (hb.of_steps hheard.steps h'.1.steps).2

theorem steps_posted (m : Machine) (shown : Snapshot) (s : Instance) : Steps m s (s.posted shown) :=
  .single (.aside (.quiet s s.lastEvent s.listeners s.turns s.watch (s.published ++ [shown]) s.heard
    s.failures s.world))

/-- What comes after a snapshot has been published. -/
theorem renews_of_passes {node : StateNode} (hnode : m.graph.state s.state = .ok node)
    (h : Passes m n (s.posted (s.shownIn node)) s')
    (hrelayed : InBudget m.budget s s' → Relayed inOrder k s s') : Renews m n inOrder k s s' := by
  have hcurrent : UpToDate m n (s.posted (s.shownIn node)) :=
    fun _ => ⟨node, hnode, by simp [posted, shownIn]⟩
  exact ⟨⟨⟨(steps_posted m _ s).trans h.steps, h.listeners, h.early, fun hund hcalm _ =>
    h.current hund hcalm hcurrent⟩, hrelayed⟩, fun hund hcalm => h.current hund hcalm hcurrent⟩

/-- What comes before and after a listener has been told a snapshot that has been published. -/
theorem renews_around {node : StateNode} (hnode : m.graph.state s.state = .ok node)
    (hbefore : Relays m n inOrder l.id (s.posted (s.shownIn node)) s₁)
    (hquiet : inOrder → s₁.published = s.published ++ [s.shownIn node])
    (hafter : Relays m n inOrder l.id (s₁.hears l (s.shownIn node)) s') :
    Renews m n inOrder l.id s s' := by
  have hheard : Passes m n s₁ (s₁.hears l (s.shownIn node)) := passes_hears l _ s₁
  have hrest : Passes m n s₁ s' := hheard.trans hafter.toPasses
  refine renews_of_passes hnode (hbefore.toPasses.trans hrest) fun hb => ?_
  have hb' : InBudget m.budget (s.posted (s.shownIn node)) s' := ⟨hb.taken, hb.unspent⟩
  obtain ⟨hb₁, hb₂⟩ := hb'.of_steps hbefore.steps hrest.steps
  exact relayed_around (hbefore.relayed hb₁) hquiet
    (hafter.relayed (hb₂.of_steps hheard.steps hafter.steps).2)

/-- **Publishing a snapshot** tells it to a listener, and all that comes of it. -/
theorem comes_publish (hanswers : ∀ q, Answers m n inOrder ahead l (respond q))
    (hs : Listening m ahead l s) (hopen : s.Accepting) {node : StateNode}
    (hnode : m.graph.state s.state = .ok node)
    (hwaits : inOrder → ∀ x ∈ ahead, Waits respond (s.shownIn node) x) :
    (publish m respond).Comes s (fun _ s' => Renews m n inOrder l.id s s')
      fun _ s' => Renews m n inOrder l.id s s' := by
  have hlistening : Listening m ahead l (s.posted (s.shownIn node)) :=
    hs.of_steps (steps_posted m _ s) rfl fun _ => rfl
  have hopened : (s.posted (s.shownIn node)).Accepting := hopen
  obtain ⟨behind, hplaced, hothers⟩ := hlistening.placed
  have hquiet : inOrder → ((ahead.forM (notify respond (s.shownIn node))).exec
      (s.posted (s.shownIn node))).2.published = s.published ++ [s.shownIn node] := fun hp =>
    (Moves.forM (R := HushIn s.status) (fun x hx => hush_notify m (hwaits hp x hx))
      (s.posted (s.shownIn node)) rfl).published
  refine Comes.of_exec (t := s.posted (s.shownIn node)) (exec_publish hnode respond)
    (Comes.get_bind ?_)
  rw [hplaced]
  refine Comes.bind (Comes.forM_around
    (I := fun s₁ => Relays m n inOrder l.id (s.posted (s.shownIn node)) s₁ ∧
      (inOrder → s₁.published = s.published ++ [s.shownIn node]))
    (J := Renews m n inOrder l.id s) (K := Renews m n inOrder l.id s) ?_ ?_ ?_) ?_
  · have hothers' : ∀ x ∈ ahead, x.id ≠ l.id := fun x hx => hothers x (List.mem_append_left _ hx)
    refine ((comes_others hanswers (s.shownIn node) hothers' hlistening hopened).and
      (Comes.of_after hquiet)).mono (fun _ _ h => h) fun _ s₁ h => ?_
    exact renews_of_passes hnode h.1.1.toPasses fun hb => absurd ⟨hb.taken, hb.unspent⟩ h.1.2
  · rintro s₁ ⟨hbefore, hquiet⟩
    exact (comes_notify hanswers l (s.shownIn node) (hlistening.relays hbefore)
      (hopened.steps hbefore.steps)).mono (fun _ s₂ h => renews_around hnode hbefore hquiet h)
        fun _ s₂ h => renews_around hnode hbefore hquiet h.1
  · intro s₂ hrenews
    have hothers' : ∀ x ∈ behind, x.id ≠ l.id := fun x hx => hothers x (List.mem_append_right _ hx)
    exact (comes_others hanswers (s.shownIn node) hothers' (hs.relays hrenews.toRelays)
      (hopen.steps hrenews.steps)).mono (fun _ _ h => hrenews.trans h) fun _ _ h => hrenews.trans h.1
  · intro _ s₃ hrenews
    refine Comes.of_after (P := Renews m n inOrder l.id s) (hrenews.trans ?_)
    change Relays m n inOrder l.id s₃ (if s₃.watch = .asleep then _ else s₃)
    split
    · exact Unheard.relays (.quiet s₃ _ _ s₃.failures s₃.world)
    · exact .rfl

end Publish

/-! ## 4. Requests of listeners -/

theorem answers_accept (event : Value) : Answers m n inOrder ahead l (accept m event) := by
  intro s hs hopen
  rcases accept_cases (m := m) event s with ⟨f, hf, h⟩ | ⟨e, hactive, h⟩
  · exact Comes.of_error h ⟨.rfl, fun hf' => absurd hf' hf⟩
  · exact Comes.of_ok h (relays_enqueue (hopen hactive))

theorem answers_refuse (q : Request) : Answers m n inOrder ahead l (refuse m q) := by
  cases q with
  | send event => exact answers_accept event
  | stop =>
    intro s _ _
    exact Comes.pure .rfl

/-- After the end nothing comes of what listeners ask for. -/
theorem waits_refuse {shown : Snapshot} (h : shown.status ≠ .active) (x : Listener) :
    Waits (refuse m) shown x := by
  intro q _ s hs
  cases q with
  | send event =>
    rw [refuse, accept_of_ended event (hs ▸ h)]
    exact ⟨rfl, rfl⟩
  | stop => exact ⟨rfl, rfl⟩

theorem exists_shown (wf : m.graph.WellFormed) (hs : Listening m ahead l s) :
    ∃ node, m.graph.state s.state = .ok node := by
  obtain ⟨node, -, -, hnode⟩ := wf.exists_state (known_of_reached wf hs.reached).leaf
  exact ⟨node, hnode⟩

/-- **A stop is told** before anything else. -/
theorem relays_stop (wf : m.graph.WellFormed) (hs : Listening m ahead l s) :
    Relays m n inOrder l.id s ((stop m).exec s).2 := by
  by_cases hactive : s.status = .active
  · set t := { s.closeAll with status := .stopped, queue := [] }.note (.ended .stopped) with ht
    have hstop : (stop m).exec s = (publish m (refuse m)).exec t := by
      rw [stop, exec_get_bind, if_pos hactive]
      rfl
    have hsteps : Steps m s t := .single (.stopped hactive)
    have hclosed := unobserved_closeAll s
    have hunobserved : Unobserved s t := ⟨hclosed.listeners, hclosed.published, hclosed.heard⟩
    have hlast : t.lastEvent = s.lastEvent := by
      obtain ⟨_, _, _, _, h, -⟩ := closeAll_frame s
      rw [ht, h]
      rfl
    have hended : t.status ≠ .active := by simp [ht, note]
    have hlistening : Listening m ahead l t := hs.of_steps hsteps hunobserved.listeners fun _ => hlast
    obtain ⟨node, hnode⟩ := exists_shown wf hlistening
    have hpublished : Renews m n inOrder l.id t ((publish m (refuse m)).exec t).2 :=
      (comes_publish answers_refuse hlistening (fun h => absurd h hended) hnode
        fun _ x _ => waits_refuse hended x).after
    rw [hstop]
    exact (hpublished.after hsteps hunobserved fun _ => hlast).toRelays
  · rw [stop_of_ended hactive]
    exact .rfl

theorem answers_stop (wf : m.graph.WellFormed) : Answers m n inOrder ahead l (stop m) := by
  intro s hs _
  exact ((Comes.of_after (relays_stop wf hs)).and (lasts_stop s)).mono (fun _ _ h => h.1)
    fun _ _ h => ⟨h.1, fun hf => absurd hf h.2⟩

theorem answers_respondLater (wf : m.graph.WellFormed) (q : Request) :
    Answers m n inOrder ahead l (respondLater m q) := by
  cases q with
  | send event => exact answers_accept event
  | stop => exact answers_stop wf

/-- While an event is processed, what patient listeners ask for has to wait. -/
theorem waits_respondLater {x : Listener} (hx : x.IsPatient) (shown : Snapshot) :
    Waits (respondLater m) shown x := by
  intro q hq s hs
  cases q with
  | send event =>
    rw [respondLater]
    rcases accept_cases (m := m) event s with ⟨f, -, h⟩ | ⟨e, -, h⟩
    · rw [h]
      exact ⟨rfl, rfl⟩
    · rw [h]
      exact ⟨rfl, rfl⟩
  | stop =>
    have hended : s.status ≠ .active := fun hactive => (hx shown (hs ▸ hactive)).1 hq
    rw [respondLater, stop_of_ended hended]
    exact ⟨rfl, rfl⟩

/-! ## 5. The queue -/

/-- Carrying out an event that has left the queue is not observed, also where it fails. -/
theorem comes_process_unobserved (wf : m.graph.WellFormed) (hs : Reached m s) {q : Queued}
    {rest : List Queued} (hqueue : s.queue = q :: rest) (hactive : s.status = .active)
    (hlive : q.scope.all s.isLive = true) :
    (process m q.event).Comes ({ s with queue := rest }.note (.begun q))
      (fun _ s₁ => Steps m s (s₁.note (.processed q)) ∧ Unobserved s s₁ ∧
        taken (s₁.note (.processed q)).journal = taken s.journal ++ [q])
      fun f s₁ => (Steps m s s₁ ∧ Unobserved s s₁) ∧ ¬ Undisturbed s₁.journal ∧
        (f = .exhausted → ∃ o, .raised o .exhausted ∈ s₁.journal) := by
  have hstarted := started_of_queued hs (hqueue ▸ List.mem_cons_self)
  have hbegun : Unobserved s ({ s with queue := rest }.note (.begun q)) := ⟨rfl, rfl, rfl⟩
  refine ((comes_event (fun _ => True) wf hs hqueue hactive hlive).and <|
    Comes.of_after (P := fun s₁ => Steps m s s₁ ∧ Unobserved s s₁)
      ⟨(Relation.ReflTransGen.single (.begun hqueue hactive hlive)).tail
        (.processed q.event hstarted hactive),
        hbegun.trans (parts_process q.event _).unobserved⟩).mono (fun _ s₁ h => ?_) fun _ _ h => ?_
  · obtain ⟨⟨node, -, -, htaken⟩, hsteps, hunobserved⟩ := h
    exact ⟨hsteps.tail (.through q s₁), hunobserved, htaken⟩
  · exact ⟨h.2, h.1.2⟩

variable (hpatient : inOrder → ∀ x ∈ ahead, x.IsPatient)

include hpatient

/-- While the queue is worked off, listeners are told a snapshot. -/
theorem comes_publish_event (wf : m.graph.WellFormed) (hs : Listening m ahead l s)
    (hopen : s.Accepting) :
    (publish m (respondLater m)).Comes s (fun _ s' => Renews m n inOrder l.id s s')
      fun _ _ => False := by
  obtain ⟨node, hnode⟩ := exists_shown wf hs
  have hpublish := comes_publish (answers_respondLater wf) hs hopen hnode (n := n)
    fun hp x hx => waits_respondLater (hpatient hp x hx) (s.shownIn node)
  have hsure : (publish m (respondLater m)).Comes s (fun _ _ => True) fun _ _ => False :=
    Comes.of_exec (exec_publish hnode _) (sure_tell lasts_respondLater (s.shownIn node) _)
  exact (hpublish.and hsure).mono (fun _ _ h => h.1) fun _ _ h => h.2

/-- The snapshot that is told of an event which has been carried out tells all that came of it. -/
theorem comes_publish_processed (wf : m.graph.WellFormed) (hs : Listening m ahead l s)
    (hsteps : Steps m s s₁) (hunobserved : Unobserved s s₁) (hstarted : s₁.started = true) :
    (publish m (respondLater m)).Comes s₁
      (fun _ s₂ => Relays m n inOrder l.id s s₂ ∧ Steps m s₁ s₂) fun _ _ => False := by
  have hearly : s₁.started = false → s₁.lastEvent = s.lastEvent :=
    fun hnot => by cases hnot.symm.trans hstarted
  have hs₁ := hs.of_steps hsteps hunobserved.listeners hearly
  refine (comes_publish_event (n := n) hpatient wf hs₁ fun _ => hstarted).mono
    (fun _ s₂ hrenews => ?_) fun _ _ h => h
  exact ⟨(hrenews.after hsteps hunobserved hearly).toRelays, hrenews.steps⟩

/-- **Working off the queue** tells a listener all that comes of it. -/
theorem comes_drainFor_told (wf : m.graph.WellFormed) (fuel : Nat) (hs : Listening m ahead l s) :
    (drainFor m fuel).Comes s (fun _ s' => Relays m n inOrder l.id s s')
      fun f s' => Relays m n inOrder l.id s s' ∧ (f = .exhausted → ¬ InBudget fuel s s') := by
  induction fuel generalizing s with
  | zero =>
    exact Comes.of_error (exec_fail _ s) ⟨.rfl, fun _ hb =>
      absurd hb.taken (Nat.lt_irrefl _)⟩
  | succ fuel ih =>
    -- what is left of the queue, once an event has left it
    have hrest {s₁ : Instance} (htold : Relays m n inOrder l.id s s₁)
        (hless : (taken s.journal).length < (taken s₁.journal).length) :
        (drainFor m fuel).Comes s₁ (fun _ s' => Relays m n inOrder l.id s s')
          fun f s' => Relays m n inOrder l.id s s' ∧
            (f = .exhausted → ¬ InBudget (fuel + 1) s s') := by
      refine (ih (hs.relays htold)).mono (fun _ s' h => htold.trans h) fun f s' h => ?_
      refine ⟨htold.trans h.1, fun hf hb => h.2 hf ⟨?_, hb.unspent⟩⟩
      have htaken := hb.taken
      omega
    by_cases hactive : s.status = .active
    · cases hqueue : s.queue with
      | nil =>
        refine Comes.of_ok (exec_drainFor_nil fuel (Or.inl hqueue)) ?_
        rw [← hqueue]
        exact .rfl
      | cons q rest =>
        by_cases hlive : q.scope.all s.isLive = true
        · have hstarted := started_of_queued hs.reached (hqueue ▸ List.mem_cons_self)
          refine Comes.of_exec (exec_drainFor_live fuel hqueue hactive hlive) <| Comes.bind
            ((comes_process_unobserved wf hs.reached hqueue hactive hlive).mono (fun _ _ h => h)
              fun f s₁ h => ?_) ?_
          · obtain ⟨⟨hsteps, hunobserved⟩, hdisturbed, hexhausted⟩ := h
            refine ⟨relays_of_disturbed hsteps hunobserved (hsteps.started hstarted) hdisturbed,
              fun hf hb => ?_⟩
            obtain ⟨o, ho⟩ := hexhausted hf
            exact hb.unspent o ho
          · rintro - s₁ ⟨hthrough, hunobserved, htaken⟩
            have hunobserved' : Unobserved s (s₁.note (.processed q)) :=
              ⟨hunobserved.listeners, hunobserved.published, hunobserved.heard⟩
            refine Comes.modify_bind (Comes.bind ((comes_publish_processed (n := n) hpatient wf hs
              hthrough hunobserved' (hthrough.started hstarted)).mono (fun _ _ h => h)
              fun _ _ h => h.elim) ?_)
            rintro - s₂ ⟨htold, hsteps⟩
            refine hrest htold ?_
            have hgrown := length_taken_le hsteps.grown
            rw [htaken, List.length_append, List.length_singleton] at hgrown
            omega
        · have hdropped : Relays m n inOrder l.id s ({ s with queue := rest }.note (.dropped q)) :=
            relays_of_same (.single (.dropped hqueue hactive)) ⟨rfl, rfl, rfl⟩ rfl rfl rfl rfl
          refine Comes.of_exec (exec_drainFor_closed fuel hqueue hactive hlive) (hrest hdropped ?_)
          simp only [note, taken_concat, Happening.taken?, Option.toList_some, List.length_append,
            List.length_singleton]
          omega
    · exact Comes.of_ok (exec_drainFor_nil fuel (Or.inr hactive))
        (relays_of_same (.single (.cleared hactive)) ⟨rfl, rfl, rfl⟩ rfl rfl rfl rfl)

/-- So does working off events that have just joined the queue. -/
theorem relays_drain (wf : m.graph.WellFormed) (hs : Listening m ahead l s)
    (h : Relays m n inOrder l.id s s₁) : Relays m n inOrder l.id s ((drain m).exec s₁).2 := by
  have hdrained : Relays m n inOrder l.id s₁ ((drain m).exec s₁).2 :=
    ((comes_drainFor_told hpatient wf m.budget (hs.relays h)).mono (fun _ _ h => h)
      fun _ _ h => h.1).after
  exact h.trans hdrained

theorem answers_respondNow (wf : m.graph.WellFormed) (q : Request) :
    Answers m n inOrder ahead l (respondNow m q) := by
  cases q with
  | stop => exact answers_stop wf
  | send event =>
    intro s hs hopen
    refine Comes.bind (answers_accept event s hs hopen) fun _ s₁ h => ?_
    refine (comes_drainFor_told (n := n) hpatient wf m.budget (hs.relays h)).mono (fun _ s' h' => ?_)
      fun f s' h' => ⟨?_, fun hf hb => ?_⟩
    · exact h.trans h'
    · exact h.trans h'.1
    · exact h'.2 hf (hb.of_steps h.steps h'.1.steps).2

omit hpatient in
/-- At the start patient listeners ask for nothing, unless the instance has ended with it. -/
theorem waits_respondNow {x : Listener} (hx : x.IsPatient) {shown : Snapshot}
    (h : shown.event = none) : Waits (respondNow m) shown x := by
  intro q hq s hs
  have hended : s.status ≠ .active := by
    intro hactive
    rw [(hx shown (hs ▸ hactive)).2 h] at hq
    exact List.not_mem_nil hq
  cases q with
  | stop =>
    rw [respondNow, stop_of_ended hended]
    exact ⟨rfl, rfl⟩
  | send event =>
    rcases accept_cases (m := m) event s with ⟨f, -, h⟩ | ⟨_, hactive, -⟩
    · rw [respondNow, exec_bind_error h]
      exact ⟨rfl, rfl⟩
    · exact absurd hactive hended

/-! ## 6. Operations -/

/-- Where the first leaf has been entered. -/
structure Opening (m : Machine) (s s' : Instance) : Prop where
  steps : Steps m s s'
  unobserved : Unobserved s s'
  started : s'.started = true
  lastEvent : s'.lastEvent = s.lastEvent

omit hpatient in
theorem comes_opening (wf : m.graph.WellFormed) (hs : Reached m s) (hstarted : s.started = false) :
    (enterFirst m).Comes { s with started := true } (fun _ s₁ => Opening m s s₁)
      fun _ s₁ => Opening m s s₁ ∧ ¬ s₁.Calm := by
  obtain ⟨node, -, -, -, hcomes⟩ := comes_enterFirst wf { s with started := true }
  obtain ⟨_, -, -, _, -, hends⟩ := ends_enterFirst wf (unopened_of_reached hs hstarted).toBlank
  have hparts := parts_enterFirst (m := m) { s with started := true }
  have hopened : Unobserved s { s with started := true } := ⟨rfl, rfl, rfl⟩
  refine ((hcomes.and hends).and (Comes.of_after (P := fun s₁ => Steps m s s₁ ∧
    Unobserved s s₁ ∧ s₁.started = true) ⟨.single (.opened hstarted), hopened.trans hparts.unobserved,
      hparts.started_eq⟩)).mono ?_ ?_
  · rintro - _ ⟨⟨⟨s₁, hs₁, -, rfl⟩, -⟩, hsteps, hunobserved, hstarted₁⟩
    exact ⟨hsteps, hunobserved, hstarted₁, (hs₁.apart_settleAt node).lastEvent⟩
  · rintro f s₁ ⟨⟨hs₁, hraised⟩, hsteps, hunobserved, hstarted₁⟩
    exact ⟨⟨hsteps, hunobserved, hstarted₁, hs₁.lastEvent⟩, hraised⟩

/-- **The start** tells a listener its snapshot, and all that listeners make of it. -/
theorem relays_start (wf : m.graph.WellFormed) (hs : Listening m ahead l s) :
    Relays m n inOrder l.id s ((start m).exec s).2 := by
  cases hstarted : s.started with
  | true =>
    rw [start_of_started m hstarted]
    exact .rfl
  | false =>
    rw [start_of_unstarted hstarted]
    refine (Comes.bind ((comes_opening wf hs.reached hstarted).mono (fun _ _ h => h)
      fun _ s₁ h => ?_) fun _ s₁ hopening => ?_).after
    · obtain ⟨⟨hsteps, hunobserved, -, hlast⟩, hraised⟩ := h
      exact ⟨⟨hsteps, hunobserved.listeners, fun _ => hlast, fun _ hcalm => absurd hcalm hraised⟩,
        fun _ => relayed_of_same hunobserved.published hunobserved.heard⟩
    · obtain ⟨hsteps, hunobserved, hstarted₁, hlast⟩ := hopening
      have hs₁ := hs.of_steps hsteps hunobserved.listeners fun _ => hlast
      obtain ⟨node, hnode⟩ := exists_shown wf hs₁
      have hnone : (s₁.shownIn node).event = none := hlast.trans (hs.fresh hstarted)
      have hpublish := comes_publish (n := n) (answers_respondNow hpatient wf) hs₁
        (fun _ => hstarted₁) hnode fun hp x hx => waits_respondNow (hpatient hp x hx) hnone
      refine Comes.bind (hpublish.mono (fun _ _ h => h) fun _ _ h =>
        (h.after hsteps hunobserved fun _ => hlast).toRelays) fun _ s₂ hrenews => Comes.of_after ?_
      exact relays_drain hpatient wf hs (hrenews.after hsteps hunobserved fun _ => hlast).toRelays

theorem relays_send (wf : m.graph.WellFormed) (hs : Listening m ahead l s) (event : Value) :
    Relays m n inOrder l.id s ((send m event).exec s).2 := by
  cases he : Event.ofValue event with
  | error f =>
    rw [send_of_malformed he]
    exact .rfl
  | ok e =>
    by_cases hactive : s.status = .active
    · cases hstarted : s.started with
      | true =>
        rw [send_of_started hactive hstarted he]
        exact relays_drain hpatient wf hs (relays_enqueue hstarted)
      | false =>
        rw [send_of_unstarted hactive hstarted he]
        have hstart : Relays m n inOrder l.id s ((start m).exec s).2 :=
          relays_start hpatient wf hs
        refine (Comes.bind (Comes.of_after (P := fun s₁ => Relays m n inOrder l.id s s₁ ∧
          s₁.started = true) ⟨hstart, started_of_start s⟩ |>.mono (fun _ _ h => h)
            fun _ _ h => h.1) fun _ s₁ h => Comes.modify_bind (Comes.of_after ?_)).after
        exact relays_drain hpatient wf hs (h.1.trans (relays_enqueue h.2))
    · rw [send_of_ended hactive he]
      exact .rfl

/-- The event of a timer or a call is received and worked off, unless its scope is closed. -/
theorem relays_deliver (wf : m.graph.WellFormed) (hs : Listening m ahead l s) {t : Instance}
    {scope : Nat} {e : Event} (hstep : Step m s (t.received scope e)) (hunobserved : Unobserved s t)
    (hlast : t.lastEvent = s.lastEvent) (hstate : t.state = s.state)
    (hcontext : t.context = s.context) (hstatus : t.status = s.status) :
    Relays m n inOrder l.id s ((deliver m scope e).exec t).2 := by
  have hreceived : Relays m n inOrder l.id s (t.received scope e) := by
    obtain ⟨queue, journal, h, -⟩ := received_frame scope e t
    rw [h] at hstep ⊢
    exact relays_of_same (.single hstep)
      ⟨hunobserved.listeners, hunobserved.published, hunobserved.heard⟩ hlast hstate hcontext hstatus
  unfold received at hreceived
  rw [deliver, exec_get_bind]
  split at hreceived
  · rename_i hlive
    rw [if_pos hlive]
    exact relays_drain hpatient wf hs hreceived
  · rename_i hclosed
    rw [if_neg hclosed]
    exact hreceived

/-- **Whatever operations go through tells a listener all that is published.** -/
theorem spans_relays (wf : m.graph.WellFormed) :
    Spans m (Given (Listening m ahead l) (Relays m n inOrder l.id)) where
  unheard h _ := h.relays
  waited alarms h _ := relays_of_same (.single (.waited alarms h)) ⟨rfl, rfl, rfl⟩ rfl rfl rfl rfl
  resumed state hc _ :=
    relays_of_same (.single (.resumed state hc)) ⟨rfl, rfl, rfl⟩ rfl rfl rfl rfl
  looked e s _ := by
    have hlooked : Steps m s ((select m e).exec s).2 := .single (.looked e s)
    obtain ⟨world, notes, h, -⟩ := select_frame m e s
    rw [h] at hlooked ⊢
    exact relays_of_same hlooked ⟨rfl, rfl, rfl⟩ rfl rfl rfl rfl
  vanished hc _ := relays_of_same (.single (.vanished hc)) ⟨rfl, rfl, rfl⟩ rfl rfl rfl rfl
  fired ha hkind hs :=
    relays_deliver hpatient wf hs (.fired ha hkind) ⟨rfl, rfl, rfl⟩ rfl rfl rfl rfl
  reported hc he hs :=
    relays_deliver hpatient wf hs (.reported hc he) ⟨rfl, rfl, rfl⟩ rfl rfl rfl rfl
  stopped _ hs := relays_stop wf hs

end Telling

/-! ## 7. Runs -/

/-- An operation that does not concern the listener of a number. -/
def Operation.Spares (k : Nat) : Operation → Prop
  | subscribe x => x.id ≠ k
  | unsubscribe id => id ≠ k
  | _ => True

section Run

variable {ahead : List Listener} {l : Listener}

/-- Others come and go behind a listener, -/
theorem Listening.subscribe (h : Listening m ahead l s) {x : Listener} (hx : x.id ≠ l.id) :
    Listening m ahead l (s.subscribe x) := by
  obtain ⟨behind, hplaced, hothers⟩ := h.placed
  refine ⟨h.reached.steps (.single (.aside (beside_listeners _ s).aside)), h.fresh,
    behind ++ [x], ?_, fun y hy => ?_⟩
  · simp [Instance.subscribe, hplaced]
  · rw [← List.append_assoc, List.mem_append, List.mem_singleton] at hy
    rcases hy with hy | rfl
    · exact hothers y hy
    · exact hx

/-- and go ahead of it. -/
theorem Listening.unsubscribe (h : Listening m ahead l s) {id : Nat} (hid : id ≠ l.id) :
    ∃ ahead' : List Listener, ahead'.Sublist ahead ∧ Listening m ahead' l (s.unsubscribe id) := by
  obtain ⟨behind, hplaced, hothers⟩ := h.placed
  have hsteps : Reached m (s.unsubscribe id) :=
    h.reached.steps (.single (.aside (beside_listeners _ s).aside))
  have hl : ¬ decide (l.id = id) = true := by
    intro heq
    exact hid (of_decide_eq_true heq).symm
  have hleft : (s.unsubscribe id).listeners = (ahead ++ l :: behind).eraseP (·.id = id) :=
    congrArg (List.eraseP _) hplaced
  by_cases hany : ahead.any (·.id = id) = true
  · obtain ⟨x, hx, hxid⟩ := List.any_eq_true.mp hany
    refine ⟨ahead.eraseP (·.id = id), List.eraseP_sublist, hsteps, h.fresh, behind,
      hleft.trans (List.eraseP_append_left (p := fun x : Listener => x.id = id) hxid _ hx),
      fun y hy => hothers y ?_⟩
    · rcases List.mem_append.mp hy with hy | hy
      · exact List.mem_append_left _ (List.mem_of_mem_eraseP hy)
      · exact List.mem_append_right _ hy
  · have hnone : ∀ x ∈ ahead, ¬ decide (x.id = id) = true := fun x hx hxid =>
      hany (List.any_eq_true.mpr ⟨x, hx, hxid⟩)
    have hrest : (ahead ++ l :: behind).eraseP (·.id = id) =
        ahead ++ l :: behind.eraseP (·.id = id) := by
      rw [List.eraseP_append_right _ hnone]
      exact congrArg (ahead ++ ·) (List.eraseP_cons_of_neg (p := fun x : Listener => x.id = id) hl)
    refine ⟨ahead, .refl _, hsteps, h.fresh, behind.eraseP (·.id = id), hleft.trans hrest,
      fun y hy => hothers y ?_⟩
    · rcases List.mem_append.mp hy with hy | hy
      · exact List.mem_append_left _ hy
      · exact List.mem_append_right _ (List.mem_of_mem_eraseP hy)

/-- What a listener has been told from one instance of a run to a later one, and whether it is up to
date. -/
structure Kept (m : Machine) (n : Nat) (inOrder : Prop) (k : Nat) (s s' : Instance) : Prop where
  relayed : Relayed inOrder k s s'
  current : Undisturbed s'.journal → s'.Calm → UpToDate m n s → UpToDate m n s'

/-- **One operation.** -/
theorem kept_afterOne (wf : m.graph.WellFormed) (hs : Listening m ahead l s)
    (hpatient : inOrder → ∀ x ∈ ahead, x.IsPatient) {o : Operation} (hspares : o.Spares l.id)
    (hb : InBudget m.budget s (afterOne m s o)) :
    Kept m n inOrder l.id s (afterOne m s o) ∧
      ∃ ahead' : List Listener, ahead'.Sublist ahead ∧ Listening m ahead' l (afterOne m s o) := by
  by_cases hplain : (∃ x, o = .subscribe x) ∨ ∃ id, o = .unsubscribe id
  · rcases hplain with ⟨x, rfl⟩ | ⟨id, rfl⟩
    · exact ⟨⟨relayed_of_same rfl rfl, fun _ _ h => h⟩, ahead, .refl _, hs.subscribe hspares⟩
    · exact ⟨⟨relayed_of_same rfl rfl, fun _ _ h => h⟩, hs.unsubscribe hspares⟩
  · have hrelays : Relays m n inOrder l.id s (afterOne m s o) :=
      (spans_relays hpatient wf).run o (fun _ _ hs => relays_start hpatient wf hs)
        (fun event _ _ hs => relays_send hpatient wf hs event)
        (fun x ho => absurd (Or.inl ⟨x, ho⟩) hplain) (fun id ho => absurd (Or.inr ⟨id, ho⟩) hplain) s hs
    exact ⟨⟨hrelays.relayed hb, hrelays.current⟩, ahead, .refl _, hs.relays hrelays⟩

theorem withinBudget_cons {o : Operation} {os : List Operation} (h : WithinBudget m (o :: os) s) :
    (taken (afterOne m s o).journal).length < (taken s.journal).length + m.budget ∧
      WithinBudget m os (afterOne m s o) :=
  ⟨h [] o os rfl, fun pre x post hcut => h (o :: pre) x post (by rw [hcut]; rfl)⟩

/-- **A run** tells a listener all that is published while it listens. -/
theorem kept_after (wf : m.graph.WellFormed) {os : List Operation} (hs : Listening m ahead l s)
    (hpatient : inOrder → ∀ x ∈ ahead, x.IsPatient) (hspares : ∀ o ∈ os, o.Spares l.id)
    (hbudget : WithinBudget m os s)
    (hunspent : ∀ o, .raised o .exhausted ∉ (after m os s).journal) :
    Kept m n inOrder l.id s (after m os s) := by
  induction os generalizing s ahead with
  | nil => exact ⟨relayed_of_same rfl rfl, fun _ _ h => h⟩
  | cons o os ih =>
    obtain ⟨htaken, hrest⟩ := withinBudget_cons hbudget
    have hone : Steps m s (afterOne m s o) := steps_after [o] (orderly_of_reached hs.reached)
    have hmore : Steps m (afterOne m s o) (after m (o :: os) s) :=
      steps_after os (hone.orderly (orderly_of_reached hs.reached))
    obtain ⟨hkept, ahead', hsub, hlistening⟩ := kept_afterOne (n := n) wf hs hpatient
      (hspares o List.mem_cons_self) ⟨htaken, fun x hx => hunspent x (hmore.grown.subset hx)⟩
    have hlater := ih hlistening (fun hp x hx => hpatient hp x (hsub.subset hx))
      (fun x hx => hspares x (List.mem_cons_of_mem _ hx)) hrest hunspent
    refine ⟨hkept.relayed.trans hlater.relayed, fun hund hcalm hs => hlater.current hund hcalm ?_⟩
    exact hkept.current (hund.of_grown hmore.grown) (hcalm.of_grown hmore.grown) hs

/-- Before the start no event has been begun. -/
theorem unbegun_of_reached (h : Reached m s) (hs : s.started = false) (q : Queued) :
    .begun q ∉ s.journal := by
  obtain ⟨s₀, hfresh, hsteps⟩ := h
  induction hsteps with
  | refl =>
    obtain ⟨_, _, _, _, rfl⟩ := eq_of_fresh hfresh
    exact List.not_mem_nil
  | @tail s₁ s₂ hsteps hstep ih =>
    have hbefore : s₁.started = false := not_started_of_steps (.single hstep) hs
    have hqueue := (orderly_of_reached ⟨s₀, hfresh, hsteps⟩ hbefore).1
    rcases hstep.notes with ⟨_, -, hq, -⟩ | ⟨notes, hjournal, hnotes⟩
    · rw [hqueue] at hq
      exact absurd hq List.not_mem_nil
    · rw [hjournal, List.mem_append]
      exact fun hq => hq.elim (ih hbefore) (hnotes q)

theorem inProgress_of_unbegun {journal : List Happening} (h : ∀ q, .begun q ∉ journal) :
    inProgress journal = none := by
  induction journal using List.reverseRecOn with
  | nil => rfl
  | append_singleton journal x ih =>
    rw [inProgress_concat, ih fun q hq => h q (List.mem_append_left _ hq)]
    cases x with
    | begun q => exact absurd (List.mem_append_right _ (List.mem_singleton.mpr rfl)) (h q)
    | _ => rfl

theorem lastEvent_of_unstarted (wf : m.graph.WellFormed) {s₀ : Instance} (hs : IsFresh m s₀)
    (os : List Operation) (hstart : (after m os s₀).started = false) :
    (after m os s₀).lastEvent = none := by
  have hunbegun := unbegun_of_reached (reached_after os hs) hstart
  have hund : Undisturbed (after m os s₀).journal := by
    refine ⟨fun before o f rest hcut => inProgress_of_unbegun fun q hq => hunbegun q ?_,
      fun q hq => absurd hq (hunbegun q)⟩
    rw [hcut]
    exact List.mem_append_left _ hq
  have hsequenced : Sequenced (fun _ => True) (after m os s₀) :=
    (sequenced_after wf hs (fun _ _ => trivial) hund).1
  exact (hsequenced.fresh hstart).2

/-- A listener that has just been added listens behind all others. -/
theorem listening_subscribe (wf : m.graph.WellFormed) {s₀ : Instance} (hs : IsFresh m s₀)
    (os : List Operation) (hnew : ∀ x ∈ (after m os s₀).listeners, x.id ≠ l.id) :
    Listening m (after m os s₀).listeners l ((after m os s₀).subscribe l) := by
  refine ⟨(reached_after os hs).steps (.single (.aside (beside_listeners _ _).aside)),
    lastEvent_of_unstarted wf hs os, [], rfl, fun x hx => hnew x ?_⟩
  rwa [List.append_nil] at hx

end Run

end Instance

namespace Definition

open Instance

variable {registry : Registry} {config : Config} {source : FlowSource} {c : Compiled} {m : Machine}

/-! ## 8. Runs of definitions -/

/-- **Every listener is told every snapshot that is published while it listens, once**, whoever else
listens and whatever they ask for in the middle of it, for every definition that compiles.  It is told
them in the order of publication if all that have begun to listen before it are patient; if nothing raises
besides, the last one it is told is what the instance shows. -/
theorem told_of_run (h : compileSource registry config source = .ok c) (hm : m.graph = c.graph)
    {s₀ : Instance} (hs : IsFresh m s₀) (pre post : List Operation) (l : Listener)
    (hnew : ∀ x ∈ (after m pre s₀).listeners, x.id ≠ l.id) (hspares : ∀ o ∈ post, o.Spares l.id)
    (hbudget : WithinBudget m (pre ++ .subscribe l :: post) s₀)
    (hunspent : ∀ o, .raised o .exhausted ∉ (after m (pre ++ .subscribe l :: post) s₀).journal) :
    ∃ news told,
      (after m (pre ++ .subscribe l :: post) s₀).published = (after m pre s₀).published ++ news ∧
      (after m (pre ++ .subscribe l :: post) s₀).heardBy l.id =
        (after m pre s₀).heardBy l.id ++ told ∧
      told.Perm news ∧
      ((∀ x ∈ (after m pre s₀).listeners, x.IsPatient) → told = news ∧
        (Undisturbed (after m (pre ++ .subscribe l :: post) s₀).journal →
          (after m (pre ++ .subscribe l :: post) s₀).Calm → told ≠ [] →
          ∃ shown, told.getLast? = some shown ∧
            ((snapshot m).exec (after m (pre ++ .subscribe l :: post) s₀)).1 = .ok shown)) := by
  have wf : m.graph.WellFormed := hm ▸ wellFormed_graph h
  have hcut : ∀ os, after m (pre ++ .subscribe l :: os) s₀ =
      after m os ((after m pre s₀).subscribe l) := fun os => after_append pre (.subscribe l :: os) s₀
  have hpost : WithinBudget m post ((after m pre s₀).subscribe l) := by
    intro before o rest hrest
    have hthere := hbudget (pre ++ .subscribe l :: before) o rest (by simp [hrest])
    rwa [List.append_assoc, List.cons_append, hcut, hcut] at hthere
  have hkept := kept_after (n := (after m pre s₀).published.length) wf
    (listening_subscribe wf hs pre hnew) (fun hp => hp) hspares hpost (hcut post ▸ hunspent)
  obtain ⟨news, told, hpublished, hheard, hperm, horder⟩ := hkept.relayed
  rw [hcut]
  refine ⟨news, told, hpublished, hheard, hperm, fun hp => ⟨horder hp, fun hund hcalm htold => ?_⟩⟩
  have hlonger : (after m pre s₀).published.length <
      (after m post ((after m pre s₀).subscribe l)).published.length := by
    rw [hpublished, List.length_append]
    have hpos : 0 < news.length := List.length_pos_iff.mpr (horder hp ▸ htold)
    have hsame : ((after m pre s₀).subscribe l).published = (after m pre s₀).published := rfl
    rw [hsame]
    omega
  obtain ⟨node, hnode, hlast⟩ := hkept.current hund hcalm
    (fun hless => absurd hless (Nat.lt_irrefl _)) hlonger
  refine ⟨_, ?_, congrArg Prod.fst (exec_snapshot hnode)⟩
  rw [← hlast, hpublished, horder hp, List.getLast?_append_of_ne_nil _ (horder hp ▸ htold)]

/-- A listener that sends an event as soon as the instance has started. -/
def eager (id : Nat) (event : String) : Listener :=
  { id, name := "eager"
    respond := fun shown =>
      if shown.event = none then { requests := [.send (.text event)] } else {} }

theorem isPatient_answering (event first second : String) :
    (answering event first second).IsPatient := by
  intro shown _
  simp only [answering]
  split
  · rename_i hevent
    constructor
    · simp
    · intro hnone
      simp [hnone] at hevent
  · constructor
    · exact List.not_mem_nil
    · intro _
      rfl

/-- A listener that sends an event at the start listens behind one that sends two others when it is told
of that event. -/
theorem told_of_run_eager : ∃ c m s₀,
    compileSource (.bare {}) {} (.ofValue nestedFlow) = .ok c ∧ m.graph = c.graph ∧ IsFresh m s₀ ∧
      (∀ x ∈ (after m [.subscribe (answering "GO" "OUT" "LATE")] s₀).listeners,
        x.id ≠ (eager 2 "GO").id) ∧
      (∀ o ∈ [Operation.start], o.Spares (eager 2 "GO").id) ∧
      WithinBudget m [.subscribe (answering "GO" "OUT" "LATE"), .subscribe (eager 2 "GO"), .start] s₀ ∧
      (∀ o, .raised o .exhausted ∉ (after m [.subscribe (answering "GO" "OUT" "LATE"),
        .subscribe (eager 2 "GO"), .start] s₀).journal) ∧
      ((after m [.subscribe (answering "GO" "OUT" "LATE"), .subscribe (eager 2 "GO"), .start]
        s₀).heardBy 2).map (fun x => (x.state, x.event)) =
          [("a.b", none), ("a.d", some "GO"), ("e", some "OUT")] ∧
      ∃ news told,
        (after m [.subscribe (answering "GO" "OUT" "LATE"), .subscribe (eager 2 "GO"), .start]
          s₀).published = (after m [.subscribe (answering "GO" "OUT" "LATE")] s₀).published ++ news ∧
        (after m [.subscribe (answering "GO" "OUT" "LATE"), .subscribe (eager 2 "GO"), .start]
          s₀).heardBy 2 =
            (after m [.subscribe (answering "GO" "OUT" "LATE")] s₀).heardBy 2 ++ told ∧
        told.Perm news ∧ told = news := by
  obtain ⟨c, m, s₀, hc, hm, hs, hrun⟩ := exists_played (.bare {}) {} (.ofValue nestedFlow) []
    (fun m s => s.listeners.isEmpty &&
      ((fun t : Instance => (t.journal.all fun x => x.origin?.isNone) &&
        (taken t.journal).length < m.budget &&
        (t.heardBy 2).map (fun x => (x.state, x.event)) =
          [("a.b", none), ("a.d", some "GO"), ("e", some "OUT")])
        (after m [.subscribe (answering "GO" "OUT" "LATE"), .subscribe (eager 2 "GO"), .start] s)))
    (by decide +kernel)
  simp only [Bool.and_eq_true, decide_eq_true_eq, List.isEmpty_iff, List.all_eq_true,
    Option.isNone_iff_eq_none] at hrun
  obtain ⟨hnobody, ⟨hsilent, hless⟩, hheard⟩ := hrun
  have hfirst : (after m [.subscribe (answering "GO" "OUT" "LATE")] s₀).listeners =
      [answering "GO" "OUT" "LATE"] := by
    change s₀.listeners ++ _ = _
    exact congrArg (· ++ [answering "GO" "OUT" "LATE"]) hnobody
  have hnew : ∀ x ∈ (after m [.subscribe (answering "GO" "OUT" "LATE")] s₀).listeners,
      x.id ≠ (eager 2 "GO").id := by
    intro x hx
    rw [hfirst, List.mem_singleton] at hx
    subst hx
    decide
  have hspares : ∀ o ∈ [Operation.start], o.Spares (eager 2 "GO").id := by
    intro o ho
    rw [List.mem_singleton] at ho
    subst ho
    trivial
  have hbudget := withinBudget_of_length hs hless
  have hunspent : ∀ o, .raised o .exhausted ∉ (after m [.subscribe (answering "GO" "OUT" "LATE"),
      .subscribe (eager 2 "GO"), .start] s₀).journal := by
    intro o ho
    cases hsilent _ ho
  obtain ⟨news, told, hpublished, hheard', hperm, horder⟩ := told_of_run hc hm hs
    [.subscribe (answering "GO" "OUT" "LATE")] [.start] (eager 2 "GO") hnew hspares hbudget hunspent
  refine ⟨c, m, s₀, hc, hm, hs, hnew, hspares, hbudget, hunspent, hheard, news, told, hpublished,
    hheard', hperm, (horder fun x hx => ?_).1⟩
  rw [hfirst, List.mem_singleton] at hx
  subst hx
  exact isPatient_answering "GO" "OUT" "LATE"

/-- A listener that asks for nothing. -/
def silent (id : Nat) : Listener := { id, name := "silent", respond := fun _ => {} }

/-- What the first of two listeners sends at the start is worked off before the second one has been told
of the start: the second one is told the present before the past, and is left with the past. -/
theorem overtaken_at_start : ∃ c m s₀,
    compileSource (.bare {}) {} (.ofValue nestedFlow) = .ok c ∧ m.graph = c.graph ∧ IsFresh m s₀ ∧
      Undisturbed (after m [.subscribe (eager 1 "GO"), .subscribe (silent 2), .start] s₀).journal ∧
      (after m [.subscribe (eager 1 "GO"), .subscribe (silent 2), .start] s₀).Calm ∧
      (after m [.subscribe (eager 1 "GO"), .subscribe (silent 2), .start] s₀).published.map
        (fun x => (x.state, x.event)) = [("a.b", none), ("a.d", some "GO")] ∧
      ((after m [.subscribe (eager 1 "GO"), .subscribe (silent 2), .start] s₀).heardBy 2).map
        (fun x => (x.state, x.event)) = [("a.d", some "GO"), ("a.b", none)] ∧
      (after m [.subscribe (eager 1 "GO"), .subscribe (silent 2), .start] s₀).state = "a.d" := by
  obtain ⟨c, m, s₀, hc, hm, hs, hrun⟩ := exists_played (.bare {}) {} (.ofValue nestedFlow)
    [.subscribe (eager 1 "GO"), .subscribe (silent 2), .start]
    (fun _ s => (s.journal.all fun x => x.origin?.isNone && x.begun?.all fun q =>
        (q.event.value.getD "data").shown.toOption.isSome) && s.Calm &&
      s.published.map (fun x => (x.state, x.event)) = [("a.b", none), ("a.d", some "GO")] &&
      (s.heardBy 2).map (fun x => (x.state, x.event)) = [("a.d", some "GO"), ("a.b", none)] &&
      s.state = "a.d") (by decide +kernel)
  rw [Bool.and_eq_true, Bool.and_eq_true, Bool.and_eq_true, Bool.and_eq_true, decide_eq_true_eq,
    decide_eq_true_eq, decide_eq_true_eq, decide_eq_true_eq] at hrun
  obtain ⟨⟨⟨⟨hsilent, hcalm⟩, hpublished⟩, hheard⟩, hstate⟩ := hrun
  exact ⟨c, m, s₀, hc, hm, hs, undisturbed_of_silent hsilent, hcalm, hpublished, hheard, hstate⟩

end Definition

end Statechart
