/-
# Registrations

To subscribe is to hand in a listener and to receive a function that ends the subscription.  What is kept
is the listener alone, and the function looks for it again: it removes the first one that is the same.
So a function that is called once more, after the subscription it belongs to has ended, ends another
subscription of the same listener.

* `Instance.spans_sameAudience`: nothing but subscribing and ending subscriptions changes who listens;
* `Roster`: an instance, and the tickets that its subscribers hold;
* `Roster.afterOne_cases`: what one step does to the registrations of a listener and to its tickets;
* **`Roster.live_of_steps`**: there are never more registrations of a listener than unused tickets, and
  always as many of them exactly if no ticket is used again while the listener is registered;
* `Roster.live_lt_held`: a ticket that is used twice.
-/
import Statechart.Proofs.Audience

namespace Statechart

/-! ## 1. Who listens -/

namespace Instance

/-- Whether an operation is about who listens. -/
def Operation.enrols : Operation → Bool
  | .subscribe _ | .unsubscribe _ => true
  | _ => false

variable {m : Machine}

open Run

/-- The same listeners are there. -/
def SameAudience (s s' : Instance) : Prop := s'.listeners = s.listeners

instance : IsPreorder Instance SameAudience where
  refl _ := rfl
  trans _ _ _ h h' := Eq.trans h' h

/-- Publishing a snapshot changes who listens no more than requests of listeners do. -/
theorem sameAudience_publish {respond : Request → Run Unit}
    (hrespond : ∀ q, Moves SameAudience (respond q)) : Moves SameAudience (publish m respond) :=
  moves_publish (fun _ _ _ h => h) hrespond

theorem sameAudience_stop : Moves SameAudience (stop m) := by
  refine Moves.get_bind fun s => ?_
  split
  · refine Moves.bind (Moves.modify fun s => (unobserved_closeAll s).listeners) (fun _ => ?_) s
    exact sameAudience_publish (moves_refuse fun _ _ => rfl)
  · exact refl_of SameAudience s

theorem sameAudience_respondLater (q : Request) : Moves SameAudience (respondLater m q) := by
  cases q with
  | send event => exact moves_accept (fun _ _ => rfl) event
  | stop => exact sameAudience_stop

theorem sameAudience_drainFor (fuel : Nat) : Moves SameAudience (drainFor m fuel) := by
  induction fuel with
  | zero => exact Moves.fail _
  | succ fuel ih =>
    intro s
    by_cases hidle : s.queue = [] ∨ s.status ≠ .active
    · rw [exec_drainFor_nil fuel hidle]
      rfl
    · obtain ⟨hqueue, hactive⟩ := not_or.mp hidle
      obtain ⟨q, rest, hqueue⟩ := List.exists_cons_of_ne_nil hqueue
      have hactive := not_not.mp hactive
      by_cases hlive : q.scope.all s.isLive = true
      · rw [exec_drainFor_live fuel hqueue hactive hlive]
        refine trans_of SameAudience (b := { s with queue := rest }.note (.begun q)) rfl ?_
        have hprocess : Moves SameAudience (process m q.event) :=
          fun s => (parts_process q.event s).unobserved.listeners
        exact Moves.bind hprocess (fun _ => Moves.bind (Moves.note (R := SameAudience) fun _ => rfl)
          fun _ => Moves.bind (sameAudience_publish sameAudience_respondLater) fun _ => ih) _
      · rw [exec_drainFor_closed fuel hqueue hactive hlive]
        exact ih _

theorem sameAudience_drain : Moves SameAudience (drain m) := sameAudience_drainFor m.budget

theorem sameAudience_enqueue (q : Queued) :
    Moves SameAudience (do modify (enqueue q); drain m : Run Unit) :=
  Moves.bind (Moves.modify fun _ => rfl) fun _ => sameAudience_drain

theorem sameAudience_start : Moves SameAudience (start m) := by
  intro s
  cases hstarted : s.started with
  | true =>
    rw [start_of_started m hstarted]
    rfl
  | false =>
    rw [start_of_unstarted hstarted]
    refine trans_of SameAudience (b := { s with started := true }) rfl ?_
    have hfirst : Moves SameAudience (enterFirst m) :=
      fun s => (parts_enterFirst s).unobserved.listeners
    refine Moves.bind hfirst (fun _ =>
      Moves.bind (sameAudience_publish fun q => ?_) fun _ => sameAudience_drain) _
    cases q with
    | send event => exact Moves.bind (moves_accept (fun _ _ => rfl) event) fun _ => sameAudience_drain
    | stop => exact sameAudience_stop

theorem sameAudience_send (event : Value) : Moves SameAudience (send m event) := by
  intro s
  cases he : Event.ofValue event with
  | error f =>
    rw [send_of_malformed he]
    rfl
  | ok e =>
    by_cases hactive : s.status = .active
    · cases hstarted : s.started with
      | true =>
        rw [send_of_started hactive hstarted he]
        exact sameAudience_enqueue _ s
      | false =>
        rw [send_of_unstarted hactive hstarted he]
        exact Moves.bind sameAudience_start (fun _ => sameAudience_enqueue _) s
    · rw [send_of_ended hactive he]
      rfl

theorem sameAudience_deliver (scope : Nat) (e : Event) : Moves SameAudience (deliver m scope e) := by
  refine Moves.get_bind fun s => ?_
  split
  · exact sameAudience_enqueue _ s
  · exact refl_of SameAudience s

/-- **Nothing that happens to an instance changes who listens**, -/
theorem spans_sameAudience : Spans m SameAudience where
  unheard h := h.listeners
  waited _ _ := rfl
  resumed _ _ := rfl
  looked e s := by
    obtain ⟨_, _, h, -⟩ := select_frame m e s
    rw [h]
    rfl
  vanished _ := rfl
  fired _ _ := sameAudience_deliver _ _ _
  reported _ _ := sameAudience_deliver _ _ _
  stopped := sameAudience_stop

/-- apart from subscribing and ending a subscription. -/
theorem listeners_afterOne {o : Operation} (ho : o.enrols = false) (s : Instance) :
    (afterOne m s o).listeners = s.listeners := by
  refine spans_sameAudience.run o (fun _ => sameAudience_start) (fun event _ => sameAudience_send event)
    (fun l h => ?_) (fun id h => ?_) s
  · subst h
    cases ho
  · subst h
    cases ho

end Instance

/-! ## 2. Tickets -/

/-- What a subscriber has in hand: the function that ends the subscription of a listener, and whether it
has been called. -/
structure Ticket where
  listener : Listener
  used : Bool

/-- An instance, and the tickets that have been handed out, in their order. -/
structure Roster where
  instance' : Instance
  tickets : List Ticket := []

namespace Roster

/-- What is done about an instance. -/
inductive Step
  | subscribe (l : Listener)
  /-- The function that a subscription has returned is called. -/
  | unsubscribe (ticket : ℕ)
  /-- Anything else happens. -/
  | meanwhile (o : Instance.Operation) (other : o.enrols = false)

/-- Whose subscription a step is. -/
def Step.subscriber? : Step → Option Listener
  | .subscribe l => some l
  | _ => none

/-- A roster after a step; the function of a ticket removes a listener whenever it is called. -/
def afterOne (m : Machine) (r : Roster) : Step → Roster
  | .subscribe l => ⟨r.instance'.subscribe l, r.tickets ++ [⟨l, false⟩]⟩
  | .unsubscribe n =>
    match r.tickets[n]? with
    | some t => ⟨r.instance'.unsubscribe t.listener.id, r.tickets.set n { t with used := true }⟩
    | none => r
  | .meanwhile o _ => { r with instance' := Instance.afterOne m r.instance' o }

/-- A roster after steps, one after the other. -/
def after (m : Machine) (xs : List Step) (r : Roster) : Roster := xs.foldl (afterOne m) r

/-- How often a listener is registered. -/
def live (k : ℕ) (r : Roster) : ℕ := r.instance'.listeners.countP (·.id = k)

/-- How many tickets there are for a listener that have, or have not, been used. -/
def held (k : ℕ) (used : Bool) (r : Roster) : ℕ :=
  r.tickets.countP fun t => t.listener.id = k ∧ t.used = used

/-- A ticket is used again, while its listener is registered. -/
def Strays (k : ℕ) (r : Roster) : Step → Prop
  | .unsubscribe n =>
    ∃ t, r.tickets[n]? = some t ∧ t.listener.id = k ∧ t.used = true ∧ 0 < r.live k
  | _ => False

open Instance

variable {m : Machine} {r : Roster} {k n : ℕ} {t : Ticket} {x : Step} {xs : List Step}

theorem after_concat (xs : List Step) (x : Step) (r : Roster) :
    after m (xs ++ [x]) r = afterOne m (after m xs r) x :=
  List.foldl_concat (afterOne m) r x xs

/-- One listener fewer, if there is one. -/
theorem live_unsubscribe (k id : ℕ) (s : Instance) (tickets : List Ticket) :
    live k ⟨s.unsubscribe id, tickets⟩ = live k ⟨s, tickets⟩ - if id = k then 1 else 0 := by
  unfold live Instance.unsubscribe
  induction s.listeners with
  | nil => simp
  | cons l ls ih =>
    by_cases hid : l.id = id
    · rw [List.eraseP_cons_of_pos (by simpa using hid), List.countP_cons]
      by_cases hk : id = k <;> simp [hid, hk]
    · rw [List.eraseP_cons_of_neg (by simpa using hid), List.countP_cons, List.countP_cons, ih]
      by_cases hk : id = k
      · subst hk
        simp [hid]
      · simp [hk]

/-- A ticket that is used is one of the used ones from then on. -/
theorem held_set (ht : r.tickets[n]? = some t) (s : Instance) :
    held k false ⟨s, r.tickets.set n { t with used := true }⟩ =
      r.held k false - if t.listener.id = k ∧ t.used = false then 1 else 0 := by
  obtain ⟨hn, hget⟩ := List.getElem?_eq_some_iff.mp ht
  unfold held
  rw [List.countP_set hn, hget]
  simp

theorem held_pos {used : Bool} (ht : r.tickets[n]? = some t) (hk : t.listener.id = k)
    (hused : t.used = used) : 0 < r.held k used :=
  List.countP_pos_iff.mpr ⟨t, List.mem_of_getElem? ht, by simp [hk, hused]⟩

/-- Every ticket has been used, or not. -/
theorem held_add (k : ℕ) (r : Roster) :
    r.held k true + r.held k false = (r.tickets.map (·.listener)).countP (·.id = k) := by
  rw [List.countP_map, List.countP_eq_countP_filter_add _ _ (·.used), List.countP_filter,
    List.countP_filter, held, held]
  simp

/-- **What a step does to the registrations of a listener and to its unused tickets.**  A stray one takes a
registration away; a ticket that is used when no registration is left is used in vain; apart from that
both go up and down together. -/
theorem afterOne_cases (m : Machine) (k : ℕ) (r : Roster) (x : Step) :
    (r.Strays k x ∧ (afterOne m r x).live k + 1 = r.live k ∧
        (afterOne m r x).held k false = r.held k false) ∨
      (¬ r.Strays k x ∧ r.live k = 0 ∧ (afterOne m r x).live k = 0 ∧
        (afterOne m r x).held k false + 1 = r.held k false) ∨
      (¬ r.Strays k x ∧
        (afterOne m r x).live k + r.held k false = r.live k + (afterOne m r x).held k false) := by
  cases x with
  | subscribe l =>
    refine .inr (.inr ⟨id, ?_⟩)
    simp only [afterOne, live, held, Instance.subscribe, List.countP_append, List.countP_singleton]
    by_cases hk : l.id = k
    · simp only [hk, decide_true, and_self, if_true]
      omega
    · simp [hk]
  | meanwhile o other =>
    refine .inr (.inr ⟨id, ?_⟩)
    simp only [afterOne, live, Instance.listeners_afterOne other, held]
  | unsubscribe n =>
    cases ht : r.tickets[n]? with
    | none =>
      refine .inr (.inr ⟨?_, by simp only [afterOne, ht]⟩)
      rintro ⟨t, ht', -⟩
      simp [ht] at ht'
    | some t =>
      have hlive : (afterOne m r (.unsubscribe n)).live k =
          r.live k - if t.listener.id = k then 1 else 0 := by
        simp only [afterOne, ht]
        exact live_unsubscribe k _ _ _
      have hheld : (afterOne m r (.unsubscribe n)).held k false =
          r.held k false - if t.listener.id = k ∧ t.used = false then 1 else 0 := by
        simp only [afterOne, ht]
        exact held_set ht _
      have hstrays : r.Strays k (.unsubscribe n) ↔
          t.listener.id = k ∧ t.used = true ∧ 0 < r.live k := by
        simp [Strays, ht]
      rw [hlive, hheld, hstrays]
      by_cases hk : t.listener.id = k
      · cases hused : t.used with
        | true => simp [hk]; omega
        | false =>
          have hpos := held_pos ht hk hused
          simp [hk]
          omega
      · simp [hk]

/-! ## 3. Histories -/

theorem live_le_held (h : r.live k ≤ r.held k false) (xs : List Step) :
    (after m xs r).live k ≤ (after m xs r).held k false := by
  induction xs using List.reverseRecOn with
  | nil => exact h
  | append_singleton xs x ih =>
    rw [after_concat]
    rcases afterOne_cases m k (after m xs r) x with ⟨-, hlive, hheld⟩ | ⟨-, -, hlive, -⟩ | ⟨-, hsum⟩ <;>
      omega

/-- The two numbers stay equal as long as no ticket strays, and no longer. -/
theorem live_eq_held_iff (h : r.live k = r.held k false) (xs : List Step) :
    (∀ before, before <+: xs → (after m before r).live k = (after m before r).held k false) ↔
      ∀ before x, before ++ [x] <+: xs → ¬ (after m before r).Strays k x := by
  constructor
  · intro heq before x hbefore hstrays
    have hnow := heq before ((List.prefix_append _ _).trans hbefore)
    have hthen := heq _ hbefore
    rw [after_concat] at hthen
    rcases afterOne_cases m k (after m before r) x with ⟨-, hlive, hheld⟩ | ⟨hnot, -⟩ | ⟨hnot, -⟩
    · omega
    · exact hnot hstrays
    · exact hnot hstrays
  · intro hnone before
    induction before using List.reverseRecOn with
    | nil => exact fun _ => h
    | append_singleton before x ih =>
      intro hbefore
      have hnow := ih ((List.prefix_append _ _).trans hbefore)
      rw [after_concat]
      rcases afterOne_cases m k (after m before r) x with ⟨hstrays, -⟩ | ⟨-, hzero, -, hheld⟩ | ⟨-, hsum⟩
      · exact absurd hstrays (hnone before x hbefore)
      · omega
      · omega

/-- The tickets are those of the subscriptions. -/
theorem listeners_after (m : Machine) (xs : List Step) (r : Roster) :
    (after m xs r).tickets.map (·.listener) =
      r.tickets.map (·.listener) ++ xs.filterMap Step.subscriber? := by
  induction xs using List.reverseRecOn with
  | nil => simp [after]
  | append_singleton xs x ih =>
    rw [after_concat, List.filterMap_append, ← List.append_assoc, ← ih]
    cases x with
    | subscribe l => simp [afterOne, Step.subscriber?]
    | meanwhile o other => simp [afterOne, Step.subscriber?]
    | unsubscribe n =>
      simp only [afterOne, Step.subscriber?, List.filterMap_cons, List.filterMap_nil, List.append_nil]
      split
      · rename_i t ht
        obtain ⟨hn, rfl⟩ := List.getElem?_eq_some_iff.mp ht
        rw [List.map_set]
        refine List.ext_getElem (by simp) fun i _ _ => ?_
        by_cases hi : n = i
        · simp [hi]
        · rw [List.getElem_set_ne (by simpa using hi)]
      · rfl

/-- A ticket is used by a call of its function. -/
theorem mem_of_used (hfresh : r.tickets = []) (xs : List Step)
    (ht : (after m xs r).tickets[n]? = some t) (hused : t.used = true) : .unsubscribe n ∈ xs := by
  induction xs using List.reverseRecOn generalizing t with
  | nil => simp [after, hfresh] at ht
  | append_singleton xs x ih =>
    rw [List.mem_append, List.mem_singleton]
    rw [after_concat] at ht
    cases x with
    | subscribe l =>
      simp only [afterOne] at ht
      rw [List.getElem?_append] at ht
      split at ht
      · exact .inl (ih ht hused)
      · have hnew : t = ⟨l, false⟩ := List.mem_singleton.mp (List.mem_of_getElem? ht)
        rw [hnew] at hused
        cases hused
    | meanwhile o other => exact .inl (ih ht hused)
    | unsubscribe n' =>
      by_cases hn : n' = n
      · exact .inr (by rw [hn])
      · simp only [afterOne] at ht
        split at ht
        · rw [List.getElem?_set_ne hn] at ht
          exact .inl (ih ht hused)
        · exact .inl (ih ht hused)

theorem not_strays_of_once (hfresh : r.tickets = [])
    (honce : ∀ n, ¬ List.Sublist [.unsubscribe n, .unsubscribe n] xs) {before : List Step}
    (hbefore : before ++ [x] <+: xs) : ¬ (after m before r).Strays k x := by
  intro hstrays
  cases x with
  | subscribe l => exact hstrays
  | meanwhile o other => exact hstrays
  | unsubscribe n =>
    obtain ⟨t, ht, -, hused, -⟩ := hstrays
    have hmem := List.singleton_sublist.mpr (mem_of_used hfresh before ht hused)
    have hpair : List.Sublist [.unsubscribe n, .unsubscribe n] (before ++ [.unsubscribe n]) :=
      hmem.append (List.Sublist.refl _)
    exact honce n (hpair.trans hbefore.sublist)

theorem not_strays_of_only (hfresh : r.tickets = []) (h : r.live k = 0)
    (honly : (xs.filterMap Step.subscriber?).countP (·.id = k) ≤ 1) {before : List Step}
    (hbefore : before ++ [x] <+: xs) : ¬ (after m before r).Strays k x := by
  intro hstrays
  cases x with
  | subscribe l => exact hstrays
  | meanwhile o other => exact hstrays
  | unsubscribe n =>
    obtain ⟨t, ht, hk, hused, hlive⟩ := hstrays
    -- the ticket has been used, and another one has not been
    have hheld := live_le_held (m := m) (k := k) (r := r) (by omega) before
    have hpos := held_pos ht hk hused
    have hall := held_add k (after m before r)
    rw [listeners_after, hfresh, List.map_nil, List.nil_append] at hall
    have hprefix : (before.filterMap Step.subscriber?).countP (·.id = k) ≤
        (xs.filterMap Step.subscriber?).countP (·.id = k) :=
      (((List.prefix_append _ _).trans hbefore).sublist.filterMap _).countP_le
    omega

/-- **There are never more registrations of a listener than unused tickets.**  They are as many all the
time exactly if no ticket is used again while the listener is registered; so in particular if no ticket is
used twice, and if nobody else subscribes with the same listener. -/
theorem live_of_steps {s : Instance} (hs : s.listeners = []) (m : Machine) (k : ℕ) (xs : List Step) :
    (after m xs ⟨s, []⟩).live k ≤ (after m xs ⟨s, []⟩).held k false ∧
      ((∀ before, before <+: xs →
          (after m before ⟨s, []⟩).live k = (after m before ⟨s, []⟩).held k false) ↔
        ∀ before x, before ++ [x] <+: xs → ¬ (after m before ⟨s, []⟩).Strays k x) ∧
      ((∀ n, ¬ List.Sublist [.unsubscribe n, .unsubscribe n] xs) ∨
          (xs.filterMap Step.subscriber?).countP (·.id = k) ≤ 1 →
        (after m xs ⟨s, []⟩).live k = (after m xs ⟨s, []⟩).held k false) := by
  have hzero : live k ⟨s, []⟩ = 0 := by simp [live, hs]
  have hstart : live k ⟨s, []⟩ = held k false ⟨s, []⟩ := by simp [hzero, held]
  have hiff := live_eq_held_iff (m := m) hstart xs
  refine ⟨live_le_held hstart.le xs, hiff, fun h => hiff.mpr (fun before x hbefore => ?_) xs List.prefix_rfl⟩
  rcases h with honce | honly
  · exact not_strays_of_once rfl honce hbefore
  · exact not_strays_of_only rfl hzero honly hbefore

open Definition

/-- A flow with one state. -/
def singleFlow : Value := .record [("initial", .text "a"), ("states", .record [("a", .record [])])]

/-- A listener that is only told. -/
def hearer : Listener := ⟨0, "hearer", fun _ => {}⟩

/-- One who subscribes twice and gives up the second subscription is told the start once. -/
theorem live_of_steps_twice :
    let xs := [.subscribe hearer, .subscribe hearer, .unsubscribe 1, .meanwhile .start rfl]
    ∃ c m s, compileSource (.bare {}) {} (.ofValue singleFlow) = .ok c ∧ m.graph = c.graph ∧
      s.listeners = [] ∧ (∀ n, ¬ List.Sublist [.unsubscribe n, .unsubscribe n] xs) ∧
      (after m xs ⟨s, []⟩).live 0 = 1 ∧ (after m xs ⟨s, []⟩).instance'.heard.length = 1 := by
  intro xs
  obtain ⟨c, m, s, hc, hm, -, hrun⟩ := exists_played (.bare {}) {} (.ofValue singleFlow) []
    (fun m s => s.listeners.isEmpty && (after m xs ⟨s, []⟩).held 0 false = 1 &&
      (after m xs ⟨s, []⟩).instance'.heard.length = 1) (by decide +kernel)
  simp only [Bool.and_eq_true, decide_eq_true_eq, List.isEmpty_iff] at hrun
  obtain ⟨⟨hs, hheld⟩, hheard⟩ := hrun
  have honce (n : ℕ) : ¬ List.Sublist [.unsubscribe n, .unsubscribe n] xs := by
    intro h
    have hcount := h.countP_le (p := fun | .unsubscribe _ => true | _ => false)
    exact Nat.not_succ_le_self 1 hcount
  have hlive := (live_of_steps hs m 0 xs).2.2 (.inl honce)
  exact ⟨c, m, s, hc, hm, hs, honce, hlive.trans hheld, hheard⟩

/-- A ticket that is used twice takes the other subscription of the listener along: it is told nothing of
the start, although the function of its second subscription has not been called. -/
theorem live_lt_held :
    let xs := [.subscribe hearer, .subscribe hearer, .unsubscribe 0, .unsubscribe 0, .meanwhile .start rfl]
    ∃ c m s, compileSource (.bare {}) {} (.ofValue singleFlow) = .ok c ∧ m.graph = c.graph ∧
      s.listeners = [] ∧ (after m xs ⟨s, []⟩).held 0 false = 1 ∧ (after m xs ⟨s, []⟩).live 0 = 0 ∧
      (after m xs ⟨s, []⟩).instance'.published.length = 1 ∧ (after m xs ⟨s, []⟩).instance'.heard = [] := by
  intro xs
  obtain ⟨c, m, s, hc, hm, -, hrun⟩ := exists_played (.bare {}) {} (.ofValue singleFlow) []
    (fun m s => s.listeners.isEmpty && (after m xs ⟨s, []⟩).held 0 false = 1 &&
      (after m xs ⟨s, []⟩).live 0 = 0 && (after m xs ⟨s, []⟩).instance'.published.length = 1 &&
      (after m xs ⟨s, []⟩).instance'.heard.isEmpty) (by decide +kernel)
  simp only [Bool.and_eq_true, decide_eq_true_eq, List.isEmpty_iff] at hrun
  obtain ⟨⟨⟨⟨hs, hheld⟩, hlive⟩, hpublished⟩, hheard⟩ := hrun
  exact ⟨c, m, s, hc, hm, hs, hheld, hlive, hpublished, hheard⟩

end Roster

end Statechart
