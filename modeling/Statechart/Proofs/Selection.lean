/-
# Which candidate is taken

The candidates for an event are tried in order until one is open: its guard passes, or it has none.
What is known of guards (`Proofs/Verdict.lean`) and of where they come from (`Proofs/Written.lean`)
says what that search comes to in a compiled graph: a candidate that is open while all before it are
shut, none if all are shut, or, and this is the only way it fails, a guard that overflows.

* `Instance.Tries`, `Instance.tries_firstEnabled`: the search, for guards that decide;
* `Instance.Selects`: the search in an instance; `Definition.selects_of_compileSource`: it holds in
  every compiled graph;
* `View.flagsDecide`: flags of views, which are guards too;
* **`Definition.decides_of_compileSource`**: all uses of guards, in one statement;
* **`Definition.guarded_of_compileSource`**: a condition that is written for a transition is kept, and
  the transition is taken only if it holds.
-/
import Statechart.Proofs.Written
import Statechart.Proofs.Verdict
import Statechart.Proofs.Course
import Statechart.View

namespace Statechart

/-! ## 1. Open and shut candidates -/

namespace Candidate

/-- The guard of a candidate passes, if it has one. -/
def Open (context event : Value) (k : Candidate) : Prop :=
  ∀ g, k.guard = some g → g.test context event = .ok true

/-- The guard of a candidate does not pass: it fails the test or cannot be evaluated. -/
def Shut (context event : Value) (k : Candidate) : Prop :=
  ∃ g, k.guard = some g ∧ ¬ g.Overflows context event ∧ g.test context event ≠ .ok true

/-- The guard of a candidate has no verdict. -/
def Stuck (context event : Value) (k : Candidate) (f : DataFault) : Prop :=
  ∃ g, k.guard = some g ∧ g.Overflows context event ∧ f = g.overflow

end Candidate

namespace Instance

/-- What trying candidates in order comes to. -/
inductive Tries (context event : Value) (cs : List Candidate) : Except Fault (Option Candidate) → Prop
  /-- The first open one is taken. -/
  | taken {before after : List Candidate} {k : Candidate} (split : cs = before ++ k :: after)
      (shut : ∀ d ∈ before, d.Shut context event) (isOpen : k.Open context event) :
      Tries context event cs (.ok (some k))
  | none (shut : ∀ d ∈ cs, d.Shut context event) : Tries context event cs (.ok none)
  /-- A guard overflows before an open one is found. -/
  | stuck {before after : List Candidate} {k : Candidate} {f : DataFault}
      (split : cs = before ++ k :: after) (shut : ∀ d ∈ before, d.Shut context event)
      (stuck : k.Stuck context event f) : Tries context event cs (.error (.data f))

/-- A shut candidate in front is passed over. -/
theorem Tries.cons {context event : Value} {d : Candidate} {cs : List Candidate}
    {r : Except Fault (Option Candidate)} (hd : d.Shut context event)
    (h : Tries context event cs r) : Tries context event (d :: cs) r := by
  cases h with
  | taken split shut isOpen =>
    exact .taken (by rw [split, List.cons_append]) (List.forall_mem_cons.mpr ⟨hd, shut⟩) isOpen
  | none shut => exact .none (List.forall_mem_cons.mpr ⟨hd, shut⟩)
  | stuck split shut stuck =>
    exact .stuck (by rw [split, List.cons_append]) (List.forall_mem_cons.mpr ⟨hd, shut⟩) stuck

/-- The first candidate is taken if it is enabled, and passed over otherwise. -/
theorem exec_firstEnabled_cons (context event : Value) (d : Candidate) (cs : List Candidate)
    (fx : Effects) :
    (firstEnabled context event (d :: cs)).exec fx =
      match d.guard with
      | none => (.ok (some d), fx)
      | some g =>
        match (g.check context event).exec fx with
        | (.ok true, fx) => (.ok (some d), fx)
        | (.ok false, fx) => (firstEnabled context event cs).exec fx
        | (.error f, fx) => (.error f, fx) := by
  rw [firstEnabled]
  cases d.guard with
  | none => rfl
  | some g =>
    simp only [Act.exec, bind, ExceptT.bind, ExceptT.mk, StateT.bind]
    rcases g.check context event fx with ⟨_ | b, fx'⟩
    · rfl
    · cases b <;> rfl

/-- **Candidates whose guards decide are tried in order**; those that come after the first open one, or
after one without a verdict, do not matter. -/
theorem tries_firstEnabled {cs : List Candidate}
    (h : ∀ k ∈ cs, ∀ g, k.guard = some g → g.Decides) (context event : Value) (fx : Effects) :
    Tries context event cs ((firstEnabled context event cs).exec fx).1 := by
  induction cs generalizing fx with
  | nil => exact .none (by simp)
  | cons d cs ih =>
    have hrest := ih fun k hk => h k (List.mem_cons_of_mem _ hk)
    rw [exec_firstEnabled_cons]
    cases hguard : d.guard with
    | none =>
      exact .taken (List.nil_append _).symm (by simp) fun g hg => by rw [hguard] at hg; cases hg
    | some g =>
      rcases h d List.mem_cons_self g hguard context event fx with
        ⟨hno, ⟨b, hb, hcheck⟩ | ⟨e, he, hcheck⟩⟩ | ⟨hyes, hcheck⟩
      · simp only [hcheck]
        cases b with
        | true =>
          exact .taken (List.nil_append _).symm (by simp) fun g' hg' => by
            rw [hguard] at hg'; cases hg'; exact hb
        | false => exact (hrest fx).cons ⟨g, hguard, hno, by simp [hb]⟩
      · simp only [hcheck]
        exact (hrest _).cons ⟨g, hguard, hno, by simp [he]⟩
      · simp only [hcheck]
        exact .stuck (List.nil_append _).symm (by simp) ⟨g, hguard, hyes, rfl⟩

/-! ## 2. Selecting -/

variable {m : Machine}

/-- What selecting a candidate for an event comes to: those that the active leaf and the states around
it have for it are tried in order, and nothing but the log and, after a failure, the journal is any
different afterwards. -/
def Selects (m : Machine) (s : Instance) (e : Event) : Prop :=
  ∃ cs r fx, candidatesFor m s.state e.type = .ok cs ∧ Tries s.context e.value cs r ∧
    (select m e).exec s = (r, match r with
      | .ok _ => { s with world := { s.world with effects := fx } }
      | .error f => { s with
          world := { s.world with effects := fx }, journal := s.journal ++ [.raised .guard f] })

/-- Where the candidates for an event are found, and the guards of the graph decide, selecting comes to
trying them. -/
theorem selects_of_decides (wf : m.graph.WellFormed)
    (hguards : ∀ n ∈ m.graph.states, ∀ event, ∀ k ∈ n.candidatesFor event, ∀ g, k.guard = some g →
      g.Decides) {s : Instance} (hs : s.state ∈ m.graph.ids) (e : Event) : Selects m s e := by
  obtain ⟨ancestors, nodes, hancestors, hnodes, hmem⟩ := wf.exists_surrounding hs
  have hcs : candidatesFor m s.state e.type = .ok (nodes.flatMap (·.candidatesFor e.type)) := by
    simp [candidatesFor, hancestors, hnodes, bind, Except.bind, pure, Except.pure]
  have hdecide : ∀ k ∈ nodes.flatMap (·.candidatesFor e.type), ∀ g, k.guard = some g → g.Decides := by
    intro k hk
    obtain ⟨n, hn, hk⟩ := List.mem_flatMap.mp hk
    exact hguards n ((hmem n).mp hn).1 e.type k hk
  have htries := tries_firstEnabled hdecide s.context e.value s.world.effects
  cases hrun : (firstEnabled s.context e.value (nodes.flatMap (·.candidatesFor e.type))).exec
    s.world.effects with
  | mk r fx =>
    rw [hrun] at htries
    refine ⟨_, r, fx, hcs, htries, ?_⟩
    rw [exec_select hcs, hrun]
    cases r <;> rfl

/-! ## 3. What guards raise -/

/-- Guards have raised nothing new. -/
def Unraised (s s' : Instance) : Prop :=
  ∀ f, .raised .guard f ∈ s'.journal → .raised .guard f ∈ s.journal

instance : IsPreorder Instance Unraised where
  refl _ _ := id
  trans _ _ _ h h' f hf := h f (h' f hf)

theorem unraised_of_notes {s s' : Instance} (notes : List Happening)
    (hjournal : s'.journal = s.journal ++ notes) (h : ∀ x ∈ notes, x.origin? ≠ some .guard) :
    Unraised s s' := by
  intro f hf
  rw [hjournal] at hf
  exact (List.mem_append.mp hf).resolve_right fun hmem => h _ hmem rfl

theorem unraised_note {x : Happening} (h : x.origin? ≠ some .guard) (s : Instance) :
    Unraised s (s.note x) := unraised_of_notes [x] rfl fun _ hy => (List.mem_singleton.mp hy) ▸ h

theorem unraised_of_same {s s' : Instance} (h : s'.journal = s.journal) : Unraised s s' :=
  unraised_of_notes [] (by simp [h]) (by simp)

open Run

theorem Quiet.unraised {s s' : Instance} (h : Quiet s s') : Unraised s s' := by
  obtain ⟨_, _, notes, rfl, hnotes⟩ := h
  exact unraised_of_notes notes rfl fun x hx => (hnotes x hx).2

theorem Arms.unraised {scope : Nat} {xs : List Errand} {s s' : Instance} (h : Arms scope xs s s') :
    Unraised s s' := by
  obtain ⟨_, _, _, _, rfl, -⟩ := h.frame
  refine unraised_of_notes _ rfl fun x hx => ?_
  obtain ⟨_, -, rfl⟩ := List.mem_map.mp hx
  simp [Happening.origin?]

theorem bears_unraised : Bears Unraised where
  quiet _ _ h := h.unraised
  computed _ _ := unraised_of_same rfl

theorem transits_unraised : Transits m Unraised where
  quiet _ _ h := h.unraised
  state _ _ := unraised_of_same rfl
  lastEvent _ _ := unraised_of_same rfl
  closed id s := by
    obtain ⟨_, _, _, _, _, _, scope, h, -⟩ := closeState_frame id s
    exact unraised_of_notes [.left id scope] (by rw [h]) (by simp [Happening.origin?])
  enter e id := bears_unraised.enter (fun _ _ _ _ harms => harms.unraised) e fun s =>
    unraised_of_notes [.entered ⟨id, s.serial⟩] rfl (by simp [Happening.origin?])
  finish s := by
    obtain ⟨_, _, _, _, h, -⟩ := closeAll_frame s
    exact unraised_of_notes [.ended .done] (by rw [finish, h]; rfl) (by simp [Happening.origin?])

/-- Nothing but selecting asks a guard while an event is processed. -/
theorem unraised_process (e : Event) (s : Instance) :
    Unraised ((select m e).exec { s with lastEvent := some e.type }).2 ((process m e).exec s).2 := by
  rw [process, exec_bind_ok (exec_modify _ s)]
  rcases hselect : (select m e).exec { s with lastEvent := some e.type } with ⟨_ | c?, s₁⟩
  · rw [exec_bind_error hselect]
    exact refl_of Unraised s₁
  · rw [exec_bind_ok hselect]
    exact transits_unraised.selected e c? s₁

/-- What has raised from selecting has raised before, or is an overflow. -/
theorem Selects.raised {s : Instance} {e : Event} (h : Selects m s e) {f : Fault}
    (hf : .raised .guard f ∈ ((select m e).exec s).2.journal) :
    .raised .guard f ∈ s.journal ∨ ∃ k : Guard, f = .data k.overflow := by
  obtain ⟨cs, r, fx, -, htries, hrun⟩ := h
  rw [hrun] at hf
  cases htries with
  | taken | none => exact .inl hf
  | stuck _ _ hstuck =>
    obtain ⟨g, -, -, rfl⟩ := hstuck
    rcases List.mem_append.mp hf with hf | hf
    · exact .inl hf
    · cases List.mem_singleton.mp hf
      exact .inr ⟨g, rfl⟩

/-- One step lets guards raise nothing but overflows. -/
theorem Step.raised {s s' : Instance} (h : Step m s s')
    (hselects : ∀ e (t : Instance), t.state = s.state → Selects m t e) {f : Fault}
    (hf : .raised .guard f ∈ s'.journal) :
    .raised .guard f ∈ s.journal ∨ ∃ g : Guard, f = .data g.overflow := by
  have hreceived : ∀ scope e (t : Instance), t.journal = s.journal →
      Unraised s (t.received scope e) := fun scope e t ht => by
    unfold received
    split
    · exact unraised_of_notes [.accepted ⟨e, some scope⟩]
        (by rw [enqueue, note, ht]) (by simp [Happening.origin?])
    · exact unraised_of_same ht
  have hnote : ∀ (t : Instance) x, t.journal = s.journal → x.origin? ≠ some .guard →
      Unraised s (t.note x) := fun t x ht hx =>
    trans_of Unraised (unraised_of_same ht) (unraised_note hx t)
  cases h with
  | aside h =>
    cases h with
    | quiet => exact .inl hf
    | told | missed => exact .inl (hnote _ _ rfl (by simp [Happening.origin?]) f hf)
  | waited | resumed | vanished | cleared => exact .inl hf
  | looked e => exact (hselects e s rfl).raised hf
  | opened =>
    exact .inl (transits_unraised.enterFirst { s with started := true } f hf)
  | accepted | dropped | begun | through =>
    exact .inl (hnote _ _ rfl (by simp [Happening.origin?]) f hf)
  | @fired _ a =>
    exact .inl (hreceived _ _ { s with alarms := s.alarms.erase a } rfl f hf)
  | @reported _ c =>
    exact .inl (hreceived _ _ { s with calls := s.calls.filter (·.serial ≠ c.serial) } rfl f hf)
  | processed e =>
    exact (hselects e { s with lastEvent := some e.type } rfl).raised (unraised_process e s f hf)
  | stopped =>
    obtain ⟨_, _, _, _, hclose, -⟩ := closeAll_frame s
    rw [hclose] at hf
    exact .inl (hnote { s with journal := s.journal } (.ended .stopped) rfl
      (by simp [Happening.origin?]) f hf)

/-- Asking whether an event would be handled fails only if selecting does. -/
theorem explain_fails {event : Value} {s : Instance} {f : Fault}
    (h : ((explain m event).exec s).1 = .error f) :
    Event.ofValue event = .error f ∨
      ∃ e, Event.ofValue event = .ok e ∧ ((select m e).exec s).1 = .error f := by
  cases he : Event.ofValue event with
  | error f' =>
    rw [explain, he, exec_bind_error (exec_lift _ s)] at h
    cases h
    exact .inl rfl
  | ok e =>
    refine .inr ⟨e, rfl, ?_⟩
    rw [explain, he, exec_bind_ok (exec_lift _ s), exec_get_bind] at h
    rcases hselect : (select m e).exec s with ⟨_ | c?, s'⟩
    · split at h
      · rw [exec_bind_error hselect] at h
        cases h
        rfl
      · cases h
    · split at h
      · rw [exec_bind_ok hselect] at h
        dsimp only at h
        split at h <;> cases h
      · cases h

end Instance

/-! ## 4. Flags of views -/

namespace View

/-- What becomes of the flags that are guards: shorthand is checked like any other guard, or is no
guard and false, with a warning; an operation has a truth value unless it cannot be quoted. -/
structure FlagsDecide (r : Renderer) (context event : Value) : Prop where
  shorthand : ∀ s, isShorthand s = true →
    (∃ g, Guard.ofShorthand s = .ok g ∧ g.Decides ∧
      condition r context event (.text s) = g.check context event) ∨
    ∃ e, Guard.ofShorthand s = .error e ∧ ∀ fx, (condition r context event (.text s)).exec fx =
      (.ok false, { fx with log := fx.log ++ [⟨.warning, .view,
        "UI condition '" ++ s ++ "' is not a valid guard: " ++ e.message⟩] })
  operation : ∀ v, v.isOperation = true → ∀ fx,
    (∃ b fx', (condition r context event v).exec fx = (.ok b, fx')) ∨
      (v.writable = false ∧
        (condition r context event v).exec fx = (.error (.data .textTooLong), fx))

/-- **Flags of views decide**, in any context. -/
theorem flagsDecide (r : Renderer) (context event : Value) : FlagsDecide r context event where
  shorthand s hs := by
    cases hg : Guard.ofShorthand s with
    | ok g =>
      refine .inl ⟨g, rfl, Guard.decides_of_ready (Guard.ready_of_ofShorthand hg), ?_⟩
      rw [condition, if_pos hs, hg]
    | error e =>
      refine .inr ⟨e, rfl, fun fx => ?_⟩
      rw [condition, if_pos hs, hg]
      rfl
  operation v hv fx := by
    have hcondition : condition r context event v =
        Act.catchEval (Act.lift (evaluateBool v context event)) fun e => do
          unless v.writable do Act.fail (.data .textTooLong)
          Act.say .warning .view
            ("UI condition " ++ v.literal ++ " failed to evaluate, treating as false: " ++ e.message)
          return false := by
      cases v with
      | bool | text => cases hv
      | _ => rw [condition, if_pos hv] <;> simp
    rw [hcondition]
    cases he : evaluate v context event with
    | ok w => exact .inl ⟨w.holds, fx, Act.catchEval_of_ok (by simp [evaluateBool, he])⟩
    | error f =>
      rcases evaluate_failsOnly v context event f he with ⟨e, rfl⟩ | ⟨rfl, hlong⟩
      · have hfails : (Act.lift (evaluateBool v context event)).exec fx =
            (.error (.evaluation e), fx) := by
          rw [evaluateBool, he, Act.exec_lift]
          rfl
        rw [Act.catchEval_of_eval hfails]
        cases hw : v.writable with
        | true => exact .inl ⟨false, _, rfl⟩
        | false => exact .inr ⟨rfl, rfl⟩
      · exact .inr ⟨hlong, by simp [Act.catchEval, Act.exec, Act.lift, evaluateBool, he]⟩

end View

namespace Definition

open Instance

variable {registry : Registry} {config : Config} {source : FlowSource} {c : Compiled} {m : Machine}

/-! ## 5. Guards of definitions -/

/-- In a graph that comes of a definition, selecting comes to trying candidates, -/
theorem selects_of_compileSource (h : compileSource registry config source = .ok c)
    (hm : m.graph = c.graph) {s : Instance} (hs : s.state ∈ m.graph.ids) (e : Event) :
    Selects m s e :=
  selects_of_decides (hm ▸ wellFormed_graph h) (fun _ hn _ _ hk _ hg =>
    (resolved_of_compileSource h (hm ▸ hn) hk hg).elim fun _ => Guard.decides_of_resolve) hs e

/-- and guards have raised nothing but overflows, whatever has happened. -/
theorem overflow_of_raised (h : compileSource registry config source = .ok c)
    (hm : m.graph = c.graph) {s : Instance} (hs : Reached m s) {f : Fault}
    (hf : .raised .guard f ∈ s.journal) : ∃ g : Guard, f = .data g.overflow := by
  obtain ⟨s₀, hfresh, hsteps⟩ := hs
  induction hsteps with
  | refl =>
    obtain ⟨_, _, _, _, rfl⟩ := eq_of_fresh hfresh
    cases hf
  | tail hsteps hstep ih =>
    have hknown := known_of_reached (hm ▸ wellFormed_graph h) ⟨s₀, hfresh, hsteps⟩
    exact (hstep.raised (fun e t ht => selects_of_compileSource h hm (ht ▸ hknown.leaf) e) hf).elim
      ih id

/-- **Guards decide wherever they are used**: a guard that comes of a reference gives a truth value in
every context for every event, unless it overflows; so that, in every run of a definition, selecting
a transition and asking whether there is one fail only of an overflow, no guard has raised anything
else, and flags of views fail no other way. -/
theorem decides_of_compileSource (h : compileSource registry config source = .ok c)
    (hm : m.graph = c.graph) {s : Instance} (hs : Reached m s) :
    (∀ flow host ref g, Guard.resolve flow host ref = .ok g → g.Decides) ∧
      (∀ e, Selects m s e) ∧
      (∀ event f, ((explain m event).exec s).1 = .error f → Event.ofValue event = .error f ∨
        ∃ e, Event.ofValue event = .ok e ∧ ((select m e).exec s).1 = .error f) ∧
      (∀ f, .raised .guard f ∈ s.journal → ∃ g : Guard, f = .data g.overflow) ∧
      ∀ r context event, View.FlagsDecide r context event :=
  ⟨fun _ _ _ _ => Guard.decides_of_resolve,
    fun e => selects_of_compileSource h hm (known_of_reached (hm ▸ wellFormed_graph h) hs).leaf e,
    fun _ _ => explain_fails, fun _ => overflow_of_raised h hm hs, View.flagsDecide⟩

/-- A transition and a flag on condition that a field exceeds an amount; the field has no double. -/
def oversizedFlow : Value :=
  .record [("initial", .text "a"), ("context", .record [("n", .int (Int.pow 10 400))]),
    ("states", .record [
      ("a", .record [("ui", .record [("visible", .text "greaterThan:context.n:5")]),
        ("on", .record [("GO", .record [("target", .text "b"),
          ("guard", .text "greaterThan:context.n:5")])])]),
      ("b", .record [])])]

/-- A run in which a guard overflows. -/
theorem decides_of_compileSource_oversized : ∃ c m s,
    compileSource (.bare {}) {} (.ofValue oversizedFlow) = .ok c ∧ m.graph = c.graph ∧ Reached m s ∧
      (∃ f, .raised .guard f ∈ s.journal) ∧
      ((∀ flow host ref g, Guard.resolve flow host ref = .ok g → g.Decides) ∧
        (∀ e, Selects m s e) ∧
        (∀ event f, ((explain m event).exec s).1 = .error f → Event.ofValue event = .error f ∨
          ∃ e, Event.ofValue event = .ok e ∧ ((select m e).exec s).1 = .error f) ∧
        (∀ f, .raised .guard f ∈ s.journal → ∃ g : Guard, f = .data g.overflow) ∧
        ∀ r context event, View.FlagsDecide r context event) := by
  obtain ⟨c, m, s₀, hc, hm, hs, hrun⟩ := exists_played (.bare {}) {} (.ofValue oversizedFlow)
    [.start, .send (.text "GO")] (fun _ s => s.journal.any (·.origin? = some .guard))
    (by decide +kernel)
  obtain ⟨x, hx, horigin⟩ := List.any_eq_true.mp hrun
  have hraised : ∃ f, x = .raised .guard f := by
    cases x <;> simp_all [Happening.origin?]
  obtain ⟨f, rfl⟩ := hraised
  have hreached := reached_after (m := m) [.start, .send (.text "GO")] hs
  exact ⟨c, m, _, hc, hm, hreached, ⟨f, hx⟩, decides_of_compileSource hc hm hreached⟩

/-- Whether a step fails of an integer without a double. -/
def isTooLarge {α : Type} : Except Fault α → Bool
  | .error (.data (.arith .intTooLarge)) => true
  | _ => false

theorem eq_of_isTooLarge {α : Type} {r : Except Fault α} (h : isTooLarge r = true) :
    r = .error (.data (.arith .intTooLarge)) := by
  unfold isTooLarge at h
  split at h
  · rfl
  · cases h

/-- A guard that is well formed raises on an integer that has no double, and with it raise a request
to send, the question whether there is a transition, and a view. -/
theorem raised_by_guard : ∃ c m s g,
    compileSource (.bare {}) {} (.ofValue oversizedFlow) = .ok c ∧ m.graph = c.graph ∧ Reached m s ∧
      Guard.resolve [] (fun _ => none) (.text "greaterThan:context.n:5") = .ok g ∧
      ((g.check s.context .null).exec {}).1 = .error (.data (.arith .intTooLarge)) ∧
      ((send m (.text "GO")).exec s).1 = .error (.data (.arith .intTooLarge)) ∧
      ((explain m (.text "GO")).exec s).1 = .error (.data (.arith .intTooLarge)) ∧
      ((view m).exec s).1 = .error (.data (.arith .intTooLarge)) := by
  obtain ⟨c, m, s₀, hc, hm, hs, hrun⟩ := exists_played (.bare {}) {} (.ofValue oversizedFlow)
    [.start] (fun m s =>
      isTooLarge ((send m (.text "GO")).exec s).1 && isTooLarge ((explain m (.text "GO")).exec s).1 &&
      isTooLarge ((view m).exec s).1 &&
      (Guard.resolve [] (fun _ => none) (.text "greaterThan:context.n:5")).toOption.any
        fun g => isTooLarge ((g.check s.context .null).exec {}).1) (by decide +kernel)
  rw [Bool.and_eq_true, Bool.and_eq_true, Bool.and_eq_true] at hrun
  obtain ⟨⟨⟨hsend, hexplain⟩, hview⟩, hguard⟩ := hrun
  cases hg : Guard.resolve [] (fun _ => none) (.text "greaterThan:context.n:5") with
  | error e => simp [hg, Except.toOption] at hguard
  | ok g =>
    rw [hg] at hguard
    exact ⟨c, m, _, g, hc, hm, reached_after _ hs, rfl, eq_of_isTooLarge hguard,
      eq_of_isTooLarge hsend, eq_of_isTooLarge hexplain, eq_of_isTooLarge hview⟩

/-! ## 6. Conditions that are written -/

/-- **A condition that is written for a transition is kept, and asked**: the candidates of each state
for each event are those of what is written there, one by one, with the guards that are written; and
a candidate is selected, in any run, only if the guard it has passes. -/
theorem guarded_of_compileSource (h : compileSource registry config source = .ok c)
    (hm : m.graph = c.graph) :
    List.Forall₂ (Keeps (guards source.definition) registry.guard?) (Nest.positions source.states)
        c.graph.states ∧
      (∀ flow host id event v k, Compile.Realizes flow host id event (.item v) k →
        (k.guard.isSome = true ↔ Compile.guardRef v ≠ .null)) ∧
      ∀ s, Reached m s → ∀ e k s', (select m e).exec s = (.ok (some k), s') →
        k.Open s.context e.value := by
  refine ⟨keeps_of_compileSource h, fun _ _ _ _ _ _ hk => hk.guard_isSome_iff,
    fun s hs e k s' hselect => ?_⟩
  have hleaf := (known_of_reached (hm ▸ wellFormed_graph h) hs).leaf
  obtain ⟨cs, r, fx, -, htries, hrun⟩ := selects_of_compileSource h hm hleaf e
  rw [hselect] at hrun
  obtain rfl : Except.ok (some k) = r := congrArg Prod.fst hrun
  cases htries with
  | taken _ _ isOpen => exact isOpen

/-- A transition with a condition that is met. -/
def conditionalFlow : Value :=
  .record [("initial", .text "a"), ("context", .record [("x", .int 1)]), ("states", .record [
    ("a", .record [("on", .record [("GO", .record [("target", .text "b"),
      ("cond", .text "isNotNull:context.x")])])]),
    ("b", .record [])])]

/-- A condition is kept and met. -/
theorem guarded_of_compileSource_conditional : ∃ c m s k s',
    compileSource (.bare {}) {} (.ofValue conditionalFlow) = .ok c ∧ m.graph = c.graph ∧
      Reached m s ∧ (select m (.ofType "GO")).exec s = (.ok (some k), s') ∧
      k.guard.isSome = true ∧ k.Open s.context (Event.ofType "GO").value ∧
      List.Forall₂ (Keeps (guards conditionalFlow) (Registry.bare {}).guard?)
        (Nest.positions (FlowSource.ofValue conditionalFlow).states) c.graph.states := by
  obtain ⟨c, m, s₀, hc, hm, hs, hrun⟩ := exists_played (.bare {}) {} (.ofValue conditionalFlow)
    [.start] (fun m s => ((select m (.ofType "GO")).exec s).1.toOption.join.any (·.guard.isSome))
    (by decide +kernel)
  have hguarded := guarded_of_compileSource hc hm
  have hreached := reached_after (m := m) [.start] hs
  rcases hselect : (select m (.ofType "GO")).exec (after m [.start] s₀) with ⟨f | _ | k, s'⟩
  · rw [hselect] at hrun
    cases hrun
  · rw [hselect] at hrun
    cases hrun
  · rw [hselect] at hrun
    exact ⟨c, m, _, k, s', hc, hm, hreached, hselect, hrun,
      hguarded.2.2 _ hreached _ _ _ hselect, hguarded.1⟩

/-- A transition with a condition, and with a null in the place that is looked at first. -/
def nullGuardFlow : Value :=
  .record [("initial", .text "a"), ("states", .record [
    ("a", .record [("on", .record [("GO", .record [("target", .text "b"), ("guard", .null),
      ("cond", .text "isNotNull:context.x")])])]),
    ("b", .record [])])]

/-- A condition next to a null is dropped: its candidate has no guard, and is taken although the
condition is not met. -/
theorem unguarded_of_null_guard : ∃ c m s₀,
    compileSource (.bare {}) {} (.ofValue nullGuardFlow) = .ok c ∧ m.graph = c.graph ∧
      IsFresh m s₀ ∧ (∃ n ∈ c.graph.states, ∃ k ∈ n.candidatesFor "GO", k.guard = none) ∧
      s₀.context.get? "x" = none ∧ (after m [.start, .send (.text "GO")] s₀).state = "b" := by
  obtain ⟨c, m, s₀, hc, hm, hs, hrun⟩ := exists_played (.bare {}) {} (.ofValue nullGuardFlow)
    [.start, .send (.text "GO")] (fun m s => s.state = "b" && (m.graph.context.get? "x").isNone &&
      m.graph.states.any fun n => (n.candidatesFor "GO").any (·.guard.isNone)) (by decide +kernel)
  simp only [Bool.and_eq_true, decide_eq_true_eq, List.any_eq_true, Option.isNone_iff_eq_none]
    at hrun
  obtain ⟨⟨hstate, hcontext⟩, n, hn, k, hk, hnone⟩ := hrun
  have hfirst : s₀.context = m.graph.context := by
    obtain ⟨_, _, _, h₀, rfl⟩ := hs
    unfold ofGraph at h₀
    cases hleaf : m.graph.initialLeaf <;> simp_all [bind, Except.bind, pure, Except.pure]
    rw [← h₀]
  exact ⟨c, m, s₀, hc, hm, hs, ⟨n, hm ▸ hn, k, hk, hnone⟩, hfirst ▸ hcontext, hstate⟩

end Definition

end Statechart
