/-
# Attempts of a call

A call never waits by itself, so what one reads as a loop is spread over the turns and the alarms that
resume it.  This file puts the loop together again and counts it.

* `Dispatch.tried`, `Dispatch.rested`, `Dispatch.kept`: one attempt from its start to its end, the
  rest after it, and what becomes of a value;
* `Dispatch.repeated`: the loop over them; `CallState.run_eq`: a call by itself is the loop;
* `Dispatch.before`: the worlds that attempts begin in; `Dispatch.repeated_eq`: the loop ends with
  the first attempt that stops it, or with the last one allowed;
* **`CallState.attempts_of_run`**: how often an actor is called, when there are rests and for how
  long, and what ends a call.
-/
import Statechart.Proofs.Evaluation
import Statechart.Actor.Call

namespace Statechart

/-- A duration in seconds is a double. -/
theorem Value.seconds_float {v : Value} {n : Number} (h : v.seconds = .ok n) : ∃ x, n = .float x := by
  unfold Value.seconds at h
  split at h
  · rename_i k _
    cases hk : k.thousandth with
    | error e =>
      rw [hk] at h
      cases h
    | ok n' =>
      rw [hk] at h
      cases h
      unfold Number.thousandth Number.div at hk
      split at hk
      · split at hk <;> cases hk
        exact ⟨_, rfl⟩
      · obtain ⟨_, -, hk⟩ := bind_eq_ok.mp hk
        obtain ⟨_, -, hk⟩ := bind_eq_ok.mp hk
        cases hk
        exact ⟨_, rfl⟩
  · cases h

/-! ## 1. Attempts, rests and results -/

namespace Dispatch

/-- The end of an attempt in terms of calls. -/
def judged (d : Dispatch) : Except Fault Value → Except InvocationError Value :=
  Except.mapError d.invocation.failure

/-- Wait for the end of an attempt or of its time, whichever comes first; its end counts if there is
nothing to wait for. -/
def awaited (d : Dispatch) (work : Work) :
    Option Int → Option Int → StateM World (Except InvocationError Value)
  | none, _ => return d.judged (← work.result)
  | some wake, none => do
    modify (·.passTo wake)
    return d.judged (← work.result)
  | some wake, some limit =>
    if limit ≤ wake then do
      modify (·.passTo limit)
      work.abandon
      return .error d.invocation.timedOut
    else do
      modify (·.passTo wake)
      return d.judged (← work.result)

/-- How an attempt begins: it has ended, or waits for work, for its end and for that of its time. -/
inductive Beginning where
  | ended (o : Except InvocationError Value)
  | waits (work : Work) (wake limit : Option Int)

/-- The beginning of an attempt that has time, up to an instant if there is one. -/
def launched (r : Renderer) (d : Dispatch) (limit : Option Int) : StateM World Beginning := do
  match ← d.start r with
  | .ended result => return .ended (d.judged result)
  | .waits seconds work =>
    match wakeAfter (← get) seconds with
    | .error e => return .ended (d.judged (.error (.data e)))
    | .ok wake => return .waits work wake limit

/-- The beginning of an attempt. -/
def begun (r : Renderer) (d : Dispatch) : StateM World Beginning := do
  match d.invocation.limit (← get) with
  | .error e => return .ended (d.judged (.error (.data e)))
  | .ok .passed => return .ended (.error d.invocation.timedOut)
  | .ok limit => d.launched r limit.instant?

/-- One attempt, from its start to its end. -/
def tried (r : Renderer) (d : Dispatch) : StateM World (Except InvocationError Value) := do
  match ← d.begun r with
  | .ended o => return o
  | .waits work wake limit => d.awaited work wake limit

/-- The rest after a failed attempt. -/
def rested (d : Dispatch) (n : Nat) (e : InvocationError) : StateM World (Except Fault Unit) := do
  match ← World.perform (d.rest n e) with
  | .error f => return .error f
  | .ok seconds =>
    match wakeAfter (← get) seconds with
    | .error e => return .error (.data e)
    | .ok none => return .ok ()
    | .ok (some wake) =>
      modify (·.passTo wake)
      return .ok ()

/-- A value ends a call; it is kept if there is a key for it. -/
def kept (d : Dispatch) (n : Nat) (v : Value) : StateM World (Except Fault CallResult) := do
  match d.key with
  | none => return .ok { value := v, attempts := n }
  | some key =>
    let w ← get
    match w.cache.put (.float w.seconds) key v d.invocation.cacheTtlMs with
    | .error e => return .error (.data e)
    | .ok (_, cache) =>
      set { w with cache }
      return .ok { value := v, attempts := n }

/-- The last attempt ends a call. -/
def ended (d : Dispatch) (n : Nat) :
    Except InvocationError Value → StateM World (Except Fault CallResult)
  | .ok v => d.kept n v
  | .error e => return .error (.invocation { e with attempts := n })

/-- Attempts one after the other, the first of them number `n`, until one of them succeeds or fails
for good; so many may follow the first. -/
def repeated (r : Renderer) (d : Dispatch) : Nat → Nat → StateM World (Except Fault CallResult)
  | 0, n => do d.ended n (← d.tried r)
  | left + 1, n => do
    match ← d.tried r with
    | .ok v => d.kept n v
    | .error e =>
      if e.retryable.isTruthy then
        match ← d.rested n e with
        | .ok _ => d.repeated r left (n + 1)
        | .error f => return .error f
      else d.ended n (.error e)

/-- A dispatched call: what is kept, or attempts. -/
def invoked (r : Renderer) (d : Dispatch) (m : Nat) : StateM World (Except Fault CallResult) := do
  match d.key with
  | none => d.repeated r m 1
  | some key =>
    let w ← get
    let (entry, cache) := w.cache.get (.float w.seconds) key
    set { w with cache }
    match entry with
    | some e => return .ok { value := e.value, attempts := 0, cached := true }
    | none => d.repeated r m 1

end Dispatch

/-! ## 2. The loop in the course of a call -/

/-- An attempt may follow as long as its number is not greater than the maximum. -/
theorem RetryPolicy.allows_eq {p : RetryPolicy} {m : Nat} (h : p.max.toNumber = .int m) (n : Nat) :
    p.allows n = decide (n ≤ m) := by
  have hgt : some (compare (n : Int) m) = some .gt ↔ ¬ n ≤ m := by
    rw [Option.some.injEq, Int.compare_eq_gt]
    omega
  rw [allows, h, Number.gt, Number.compare?_int]
  simp only [hgt, decide_not, Bool.not_not]

theorem RetryPolicy.attempts_eq {p : RetryPolicy} {m : Nat} (h : p.max.toNumber = .int m) :
    p.attempts = m + 1 := by
  rw [attempts, h]
  rfl

section Running

variable {α β : Type}

theorem World.run_bind (x : StateM World α) (f : α → StateM World β) (w : World) :
    (x >>= f).run w = (f (x.run w).1).run (x.run w).2 := rfl

theorem World.run_bind_of {x : StateM World α} {w w' : World} {a : α} (h : x.run w = (a, w'))
    (f : α → StateM World β) : (x >>= f).run w = (f a).run w' := by
  rw [World.run_bind, h]

theorem World.run_get_bind (f : World → StateM World β) (w : World) :
    (get >>= f).run w = (f w).run w := rfl

end Running

namespace Dispatch

/-- What follows the end of an attempt. -/
def answered (d : Dispatch) (n : Nat) : Except InvocationError Value → StateM World CallStep
  | .ok v => d.succeed n v
  | .error e => d.fail n e

theorem conclude_eq (d : Dispatch) (n : Nat) (r : Except Fault Value) :
    d.conclude n r = d.answered n (d.judged r) := by
  cases r <;> rfl

/-- A value ends a call as the loop does. -/
theorem run_succeed (d : Dispatch) (n : Nat) (v : Value) (w : World) :
    (d.succeed n v).run w = (.finished ((d.kept n v).run w).1, ((d.kept n v).run w).2) := by
  unfold succeed kept
  cases d.key with
  | none => rfl
  | some key =>
    simp only [World.run_get_bind]
    cases w.cache.put (.float w.seconds) key v d.invocation.cacheTtlMs <;> rfl

/-- So does a failure that no attempt may follow, -/
theorem run_fail_last {d : Dispatch} {n : Nat} {e : InvocationError}
    (h : e.retryable.isTruthy = false ∨ d.invocation.retry.allows n = false) (w : World) :
    (d.fail n e).run w = (.finished (.error (.invocation { e with attempts := n })), w) := by
  unfold fail
  have hstop : (!e.retryable.isTruthy || !d.invocation.retry.allows n) = true := by
    rcases h with h | h <;> simp [h]
  simp only [hstop, if_true]
  rfl

/-- and after any other one there is a rest, or what stands in the way of it. -/
theorem run_fail_again {d : Dispatch} {n : Nat} {e : InvocationError}
    (hretry : e.retryable.isTruthy = true) (hallows : d.invocation.retry.allows n = true) (w : World) :
    (d.fail n e).run w =
      match (World.perform (d.rest n e)).run w with
      | (.error f, w') => (.finished (.error f), w')
      | (.ok seconds, w') =>
        match wakeAfter w' seconds with
        | .error e => (.finished (.error (.data e)), w')
        | .ok wake => (.waiting (.resting d n) none wake, w') := by
  unfold fail
  simp only [hretry, hallows, Bool.not_true, Bool.or_false, Bool.false_eq_true, if_false]
  change (World.perform (d.rest n e) >>= _).run w = _
  rcases hrest : (World.perform (d.rest n e)).run w with ⟨_ | seconds, w'⟩
  · rw [World.run_bind_of hrest]
    rfl
  · rw [World.run_bind_of hrest]
    dsimp only
    rw [World.run_get_bind]
    cases wakeAfter w' seconds <;> rfl

theorem run_rested (d : Dispatch) (n : Nat) (e : InvocationError) (w : World) :
    (d.rested n e).run w =
      match (World.perform (d.rest n e)).run w with
      | (.error f, w') => (.error f, w')
      | (.ok seconds, w') =>
        match wakeAfter w' seconds with
        | .error e => (.error (.data e), w')
        | .ok none => (.ok (), w')
        | .ok (some wake) => (.ok (), w'.passTo wake) := by
  unfold rested
  rcases hrest : (World.perform (d.rest n e)).run w with ⟨_ | seconds, w'⟩
  · rw [World.run_bind_of hrest]
    rfl
  · rw [World.run_bind_of hrest]
    dsimp only
    rw [World.run_get_bind]
    rcases wakeAfter w' seconds with _ | _ | _ <;> rfl

/-- An attempt goes on after its beginning. -/
theorem run_attempt (r : Renderer) (d : Dispatch) (n : Nat) (w : World) :
    (d.attempt r n).run w =
      match (d.begun r).run w with
      | (.ended o, w') => (d.answered n o).run w'
      | (.waits work wake limit, w') => (.waiting (.working d n work) limit wake, w') := by
  unfold attempt begun
  rw [World.run_get_bind, World.run_get_bind]
  have hstart : ∀ limit : TimeLimit, (do
      match ← d.start r with
      | .ended result => d.conclude n result
      | .waits seconds work =>
        match wakeAfter (← get) seconds with
        | .error e => d.conclude n (.error (.data e))
        | .ok wake => return .waiting (.working d n work) limit.instant? wake
      : StateM World CallStep).run w =
      match (d.launched r limit.instant?).run w with
      | (.ended o, w') => (d.answered n o).run w'
      | (.waits work wake limit, w') => (.waiting (.working d n work) limit wake, w') := by
    intro limit
    unfold launched
    rcases hrun : (d.start r).run w with ⟨result | ⟨seconds, work⟩, w'⟩
    · rw [World.run_bind_of hrun, World.run_bind_of hrun]
      exact congrArg (·.run w') (conclude_eq d n result)
    · rw [World.run_bind_of hrun, World.run_bind_of hrun]
      dsimp only
      rw [World.run_get_bind, World.run_get_bind]
      cases wakeAfter w' seconds with
      | error e => exact congrArg (·.run w') (conclude_eq d n _)
      | ok wake => rfl
  rcases d.invocation.limit w with e | _ | _ | t
  · exact congrArg (·.run w) (conclude_eq d n _)
  · exact hstart .unlimited
  · rfl
  · exact hstart (.until t)

end Dispatch

namespace CallState

variable {r : Renderer} {d : Dispatch}

/-- A call that has ended is followed no further, -/
theorem run_follow_finished (fuel : Nat) (result : Except Fault CallResult) (w : World) :
    (follow r fuel (.finished result)).run w = (some result, w) := by
  cases fuel <;> rfl

/-- and one that waits until what it waits for has come. -/
theorem run_follow_ready (fuel : Nat) (s : CallState) (limit : Option Int) (w : World) :
    (follow r (fuel + 1) (.waiting s limit none)).run w = (s.resume r >>= follow r fuel).run w := by
  rw [follow]

theorem run_follow_wake (fuel : Nat) (s : CallState) (wake : Int) (w : World) :
    (follow r (fuel + 1) (.waiting s none (some wake))).run w =
      (s.resume r >>= follow r fuel).run (w.passTo wake) := by
  rw [follow]
  rfl

theorem run_follow_limit (fuel : Nat) (s : CallState) (limit wake : Int) (w : World) :
    (follow r (fuel + 1) (.waiting s (some limit) (some wake))).run w =
      if limit ≤ wake then (s.expire >>= follow r fuel).run (w.passTo limit)
      else (s.resume r >>= follow r fuel).run (w.passTo wake) := by
  rw [follow]
  split <;> rfl

/-- A value ends a call, and so does a failure that no attempt may follow. -/
theorem run_follow_ended {n : Nat} {o : Except InvocationError Value}
    (h : ∀ e, o = .error e → e.retryable.isTruthy = false ∨ d.invocation.retry.allows n = false)
    (fuel : Nat) (w : World) :
    (d.answered n o >>= follow r fuel).run w =
      (some ((d.ended n o).run w).1, ((d.ended n o).run w).2) := by
  cases o with
  | ok v =>
    rw [Dispatch.answered, World.run_bind_of (Dispatch.run_succeed d n v w)]
    exact run_follow_finished _ _ _
  | error e =>
    rw [Dispatch.answered, World.run_bind_of (Dispatch.run_fail_last (h e rfl) w)]
    exact run_follow_finished _ _ _

/-- A failure that an attempt may follow is followed by a rest and an attempt. -/
theorem run_follow_fail {n : Nat} {e : InvocationError} (hretry : e.retryable.isTruthy = true)
    (hallows : d.invocation.retry.allows n = true) (fuel : Nat) (w : World) :
    (d.answered n (.error e) >>= follow r (fuel + 1)).run w =
      match (d.rested n e).run w with
      | (.ok _, w') => (d.attempt r (n + 1) >>= follow r fuel).run w'
      | (.error f, w') => (some (.error f), w') := by
  rw [Dispatch.answered, World.run_bind, Dispatch.run_fail_again hretry hallows, Dispatch.run_rested]
  rcases (World.perform (d.rest n e)).run w with ⟨_ | seconds, w'⟩
  · exact run_follow_finished _ _ _
  · dsimp only
    rcases wakeAfter w' seconds with _ | _ | wake
    · exact run_follow_finished _ _ _
    · exact run_follow_ready _ _ _ _
    · exact run_follow_wake _ _ _ _

/-- An attempt that waits is resumed when its work has ended, or its time. -/
theorem run_follow_working (n fuel : Nat) (work : Work) (limit wake : Option Int) (w : World) :
    (follow r (fuel + 1) (.waiting (.working d n work) limit wake)).run w =
      (d.awaited work wake limit >>= fun o => d.answered n o >>= follow r fuel).run w := by
  have hend : ∀ w : World, ((working d n work).resume r >>= follow r fuel).run w =
      (d.answered n (d.judged (work.result.run w).1) >>= follow r fuel).run (work.result.run w).2 := by
    intro w
    rw [← Dispatch.conclude_eq]
    rfl
  cases wake with
  | none =>
    rw [run_follow_ready, hend]
    rfl
  | some wake =>
    cases limit with
    | none =>
      rw [run_follow_wake, hend]
      rfl
    | some limit =>
      rw [run_follow_limit, hend]
      unfold Dispatch.awaited
      dsimp only
      split <;> rfl

/-- An attempt is waited for once, if at all. -/
theorem run_follow_attempt (n fuel : Nat) (w : World) :
    ∃ more ≤ 1, (d.attempt r n >>= follow r (fuel + 1)).run w =
      (d.tried r >>= fun o => d.answered n o >>= follow r (fuel + more)).run w := by
  unfold Dispatch.tried
  simp only [World.run_bind, Dispatch.run_attempt]
  rcases (d.begun r).run w with ⟨o | ⟨work, wake, limit⟩, w'⟩
  · exact ⟨1, Nat.le_refl 1, rfl⟩
  · exact ⟨0, Nat.zero_le 1, run_follow_working n fuel work limit wake w'⟩

/-- **Attempts in the course of a call are the loop**, for a policy that allows `m` to follow the
first: each of them is waited for once at most, and so is each rest. -/
theorem run_follow_repeated {m : Nat} (hmax : d.invocation.retry.max.toNumber = .int m) {left n : Nat}
    (hn : n + left = m + 1) {fuel : Nat} (hfuel : 2 * left + 1 ≤ fuel) (w : World) :
    (d.attempt r n >>= follow r fuel).run w =
      (some ((d.repeated r left n).run w).1, ((d.repeated r left n).run w).2) := by
  have hallows := RetryPolicy.allows_eq hmax n
  induction left generalizing n fuel w with
  | zero =>
    obtain ⟨fuel, rfl⟩ : ∃ k, fuel = k + 1 := ⟨fuel - 1, by omega⟩
    obtain ⟨more, -, hattempt⟩ := run_follow_attempt (r := r) (d := d) n fuel w
    rw [hattempt, World.run_bind, Dispatch.repeated, World.run_bind]
    refine run_follow_ended (fun e _ => .inr ?_) _ _
    rw [hallows]
    exact decide_eq_false (by omega)
  | succ left ih =>
    obtain ⟨fuel, rfl⟩ : ∃ k, fuel = k + 2 := ⟨fuel - 2, by omega⟩
    obtain ⟨more, hmore, hattempt⟩ := run_follow_attempt (r := r) (d := d) n (fuel + 1) w
    rw [hattempt, show fuel + 1 + more = (fuel + more) + 1 by omega, Dispatch.repeated]
    rcases htried : (d.tried r).run w with ⟨e | v, w'⟩
    · rw [World.run_bind_of htried, World.run_bind_of htried]
      dsimp only
      split
      · rename_i hretry
        rw [run_follow_fail hretry (hallows.trans (decide_eq_true (by omega)))]
        rcases hrest : (d.rested n e).run w' with ⟨f | _, w''⟩
        · rw [World.run_bind_of hrest]
          rfl
        · rw [World.run_bind_of hrest]
          exact ih (by omega) (by omega) w'' (RetryPolicy.allows_eq hmax _)
      · rename_i hretry
        exact run_follow_ended (fun _ he => .inl (by cases he; simpa using hretry)) _ _
    · rw [World.run_bind_of htried, World.run_bind_of htried]
      exact run_follow_ended (fun _ he => by cases he) _ _

/-- A call is dispatched with its input and the key of its result. -/
theorem exists_key_of_dispatched {i : Invocation} {context event : Value} {w w' : World}
    (h : (World.perform (i.dispatch r context event)).run w = (.ok d, w')) :
    ∃ input key, i.renderedInput r context event = .ok input ∧
      ((i.key? r input context event).exec w.effects).1 = .ok key ∧
      d = { invocation := i, input, key, context, event } := by
  have hexec : ((i.dispatch r context event).exec w.effects).1 = .ok d := congrArg Prod.fst h
  rw [Invocation.dispatch, Act.exec_bind, Act.exec_lift] at hexec
  cases hinput : i.renderedInput r context event with
  | error f =>
    rw [hinput] at hexec
    cases hexec
  | ok input =>
    rw [hinput] at hexec
    dsimp only at hexec
    rw [Act.exec_bind] at hexec
    rcases hkey : (i.key? r input context event).exec w.effects with ⟨f | key, fx⟩
    · rw [hkey] at hexec
      cases hexec
    · rw [hkey] at hexec
      cases hexec
      exact ⟨input, key, rfl, congrArg Prod.fst hkey, rfl⟩

/-- What is dispatched for a call is a dispatch of it. -/
theorem dispatched_eq {i : Invocation} {context event : Value} {w w' : World}
    (h : (World.perform (i.dispatch r context event)).run w = (.ok d, w')) :
    d.invocation = i ∧ d.context = context ∧ d.event = event := by
  obtain ⟨input, key, -, -, rfl⟩ := exists_key_of_dispatched h
  exact ⟨rfl, rfl, rfl⟩

/-- **A call by itself is a dispatch and the loop**, and it comes to an end. -/
theorem run_eq {i : Invocation} {m : Nat} (hmax : i.retry.max.toNumber = .int m)
    (context event : Value) (w : World) :
    (run r i context event).run w =
      match (World.perform (i.dispatch r context event)).run w with
      | (.error f, w') => (some (.error f), w')
      | (.ok d, w') => (some ((d.invoked r m).run w').1, ((d.invoked r m).run w').2) := by
  unfold run
  rw [RetryPolicy.attempts_eq hmax, resume]
  rcases hd : (World.perform (i.dispatch r context event)).run w with ⟨f | d, w'⟩
  · rw [World.run_bind, World.run_bind_of hd]
    exact run_follow_finished _ _ _
  · rw [World.run_bind, World.run_bind_of hd]
    have hmax' : d.invocation.retry.max.toNumber = .int m := (dispatched_eq hd).1 ▸ hmax
    have hloop : ∀ w, (d.attempt r 1 >>= follow r (2 * (m + 1))).run w =
        (some ((d.repeated r m 1).run w).1, ((d.repeated r m 1).run w).2) := fun w =>
      run_follow_repeated hmax' (by omega) (by omega) w
    dsimp only
    unfold Dispatch.begin Dispatch.invoked
    cases d.key with
    | none => exact hloop w'
    | some key =>
      dsimp only
      rw [World.run_get_bind, World.run_get_bind]
      rcases w'.cache.get (.float w'.seconds) key with ⟨_ | entry, cache⟩
      · exact hloop { w' with cache }
      · exact run_follow_finished _ _ _

end CallState

/-! ## 3. What attempts come to -/

namespace Dispatch

variable {r : Renderer} {d : Dispatch}

/-- Whether the end of an attempt is the end of its call, however many may follow. -/
def stops : Except InvocationError Value → Bool
  | .ok _ => true
  | .error e => !e.retryable.isTruthy

/-- The world after the rest that follows an attempt; nothing follows a value. -/
def paused (d : Dispatch) (n : Nat) : Except InvocationError Value × World → World
  | (.error e, w) => ((d.rested n e).run w).2
  | (.ok _, w) => w

/-- The world before each attempt, counted from zero, if all of them were made; the first of them is
number `n`. -/
def before (r : Renderer) (d : Dispatch) (n : Nat) (w : World) : Nat → World
  | 0 => w
  | j + 1 => d.paused (n + j) ((d.tried r).run (before r d n w j))

/-- An attempt of this sequence: its end, and the world after it. -/
def attemptAt (r : Renderer) (d : Dispatch) (n : Nat) (w : World) (j : Nat) :
    Except InvocationError Value × World := (d.tried r).run (d.before r n w j)

/-- The sequence without its first attempt is one as well. -/
theorem before_succ (n : Nat) (w : World) (j : Nat) :
    d.before r n w (j + 1) = d.before r (n + 1) (d.before r n w 1) j := by
  induction j with
  | zero => rfl
  | succ j ih =>
    rw [before, ih, before]
    congr 1
    omega

theorem attemptAt_succ (n : Nat) (w : World) (j : Nat) :
    d.attemptAt r n w (j + 1) = d.attemptAt r (n + 1) (d.before r n w 1) j :=
  congrArg (fun w => (d.tried r).run w) (before_succ n w j)

/-- **The loop ends with the first attempt that stops it**, or else with the last one, if the rests in
between can be taken. -/
theorem repeated_eq {left n : Nat} {w : World}
    (hrest : ∀ j < left, (∀ k ≤ j, stops (d.attemptAt r n w k).1 = false) →
      ∀ e w', d.attemptAt r n w j = (.error e, w') → ((d.rested (n + j) e).run w').1 = .ok ()) :
    ∃ j ≤ left, (∀ k < j, stops (d.attemptAt r n w k).1 = false) ∧
      (j < left → stops (d.attemptAt r n w j).1 = true) ∧
      (d.repeated r left n).run w =
        (d.ended (n + j) (d.attemptAt r n w j).1).run (d.attemptAt r n w j).2 := by
  induction left generalizing n w with
  | zero => exact ⟨0, Nat.le_refl 0, by simp, by simp, rfl⟩
  | succ left ih =>
    rcases htried : (d.tried r).run w with ⟨e | v, w'⟩
    · have hfirst : d.attemptAt r n w 0 = (.error e, w') := htried
      cases hretry : e.retryable.isTruthy with
      | false =>
        refine ⟨0, Nat.zero_le _, by simp, fun _ => by simp [hfirst, stops, hretry], ?_⟩
        rw [repeated, World.run_bind_of htried, hfirst]
        simp [hretry]
      | true =>
        have hgoes : stops (d.attemptAt r n w 0).1 = false := by simp [hfirst, stops, hretry]
        have hrested : ((d.rested n e).run w').1 = .ok () :=
          hrest 0 (Nat.succ_pos left) (fun k hk => Nat.le_zero.mp hk ▸ hgoes) e w' hfirst
        have hpast_succ : ∀ {j},
            (∀ k < j, stops (d.attemptAt r (n + 1) (d.before r n w 1) k).1 = false) →
              ∀ k < j + 1, stops (d.attemptAt r n w k).1 = false := by
          intro j hpast k hk
          cases k with
          | zero => exact hgoes
          | succ k =>
            rw [attemptAt_succ]
            exact hpast k (by omega)
        have hnext : d.before r n w 1 = ((d.rested n e).run w').2 := by
          rw [before, before, htried]
          rfl
        obtain ⟨j, hj, hpast, hstop, hrun⟩ := ih (n := n + 1) (w := d.before r n w 1)
          fun j hj hgoes e w' he => by
            have hone := hrest (j + 1) (by omega)
              (fun k hk => hpast_succ (j := j + 1) (fun k hk => hgoes k (by omega)) k (by omega)) e w'
              ((attemptAt_succ n w j).trans he)
            rwa [show n + 1 + j = n + (j + 1) by omega]
        refine ⟨j + 1, by omega, hpast_succ hpast, fun hj => ?_, ?_⟩
        · rw [attemptAt_succ]
          exact hstop (by omega)
        · rw [attemptAt_succ, show n + (j + 1) = n + 1 + j by omega, ← hrun, repeated,
            World.run_bind_of htried]
          dsimp only
          rw [if_pos hretry, World.run_bind, hrested, hnext]
    · have hfirst : d.attemptAt r n w 0 = (.ok v, w') := htried
      refine ⟨0, Nat.zero_le _, by simp, fun _ => by simp [hfirst, stops], ?_⟩
      rw [repeated, World.run_bind_of htried, hfirst]
      rfl

end Dispatch

/-! ## 4. What attempts and rests do to the world -/

namespace World

variable {α β γ : Type}

/-- A step leaves something of the world alone. -/
def Leaves (f : World → γ) (x : StateM World α) : Prop := ∀ w, f (x.run w).2 = f w

section Leaves

variable {f : World → γ}

theorem Leaves.pure (a : α) : Leaves f (pure a : StateM World α) := fun _ => rfl

theorem Leaves.bind {x : StateM World α} {g : α → StateM World β} (hx : Leaves f x)
    (hg : ∀ a, Leaves f (g a)) : Leaves f (x >>= g) := fun w => (hg _ _).trans (hx w)

theorem Leaves.get_bind {g : World → StateM World β} (hg : ∀ w, f ((g w).run w).2 = f w) :
    Leaves f (get >>= g) := hg

theorem Leaves.perform {x : Act α} (h : ∀ w effects, f { w with effects } = f w) :
    Leaves f (World.perform x) := fun w => h w _

theorem Leaves.passTo {t : Int} (h : ∀ w now, f { w with now } = f w) :
    Leaves f (modify (·.passTo t) : StateM World PUnit) := fun w => h w _

end Leaves

end World

/-- Something of the world that neither effects nor time change, and that work leaves alone. -/
structure Untouched {γ : Type} (f : World → γ) : Prop where
  effects : ∀ (w : World) effects, f { w with effects } = f w
  now : ∀ (w : World) now, f { w with now } = f w
  abandoned : ∀ (w : World) actor, f { w with visits := w.visits ++ [.abandoned actor] } = f w

theorem untouched_cache : Untouched World.cache := ⟨fun _ _ => rfl, fun _ _ => rfl, fun _ _ => rfl⟩

theorem untouched_callsOf (actor : String) : Untouched (World.callsOf · actor) :=
  ⟨fun _ _ => rfl, fun _ _ => rfl, fun w _ => by simp [World.callsOf]⟩

section Untouched

variable {γ : Type} {f : World → γ} (h : Untouched f)

include h

theorem Untouched.result (work : Work) : World.Leaves f work.result := by
  cases work with
  | host | timer => exact World.Leaves.pure _
  | reply => exact World.Leaves.perform h.effects

theorem Untouched.abandon (work : Work) : World.Leaves f work.abandon := by
  cases work with
  | host actor => exact fun w => h.abandoned w actor
  | timer | reply => exact World.Leaves.pure _

theorem Untouched.after (delay : Option Number) (work : Work) :
    World.Leaves f (Work.after delay work) := by
  unfold Work.after
  cases delay with
  | none => exact (h.result work).bind fun _ => World.Leaves.pure _
  | some ms => dsimp only; split <;> exact World.Leaves.pure _

theorem Untouched.awaited (d : Dispatch) (work : Work) (wake limit : Option Int) :
    World.Leaves f (d.awaited work wake limit) := by
  have hend : World.Leaves f (do return d.judged (← work.result)) :=
    (h.result work).bind fun _ => World.Leaves.pure _
  unfold Dispatch.awaited
  split
  · exact hend
  · exact (World.Leaves.passTo h.now).bind fun _ => hend
  · split
    · exact (World.Leaves.passTo h.now).bind fun _ =>
        (h.abandon work).bind fun _ => World.Leaves.pure _
    · exact (World.Leaves.passTo h.now).bind fun _ => hend

theorem Untouched.rested (d : Dispatch) (n : Nat) (e : InvocationError) :
    World.Leaves f (d.rested n e) := by
  refine (World.Leaves.perform h.effects).bind fun seconds => ?_
  split
  · exact World.Leaves.pure _
  · refine World.Leaves.get_bind fun w => ?_
    split
    · rfl
    · rfl
    · exact h.now w _

end Untouched

namespace Dispatch

variable {r : Renderer} {d : Dispatch}

/-- Calling an actor does not touch the kept results. -/
theorem cache_start (w : World) : ((d.start r).run w).2.cache = w.cache := by
  unfold start
  cases d.invocation.actor with
  | host a => exact untouched_cache.after _ _ _
  | timer ms =>
    dsimp only
    split <;> rfl
  | randomNumber => rfl
  | http a =>
    unfold send
    dsimp only
    split
    · rfl
    · split
      · rfl
      · exact untouched_cache.after _ _ _

/-- An attempt has time if its limit is not over at once. -/
def HasTime (d : Dispatch) (w : World) : Prop := ∃ l, d.invocation.limit w = .ok l ∧ l ≠ .passed

theorem run_begun_of_time {w : World} (ht : d.HasTime w) :
    ∃ limit, (d.begun r).run w = (d.launched r limit).run w := by
  obtain ⟨l, hl, hne⟩ := ht
  refine ⟨l.instant?, ?_⟩
  rw [begun, World.run_get_bind, hl]
  cases l with
  | passed => exact absurd rfl hne
  | unlimited | «until» => rfl

/-- An attempt that has time comes to calling the actor, apart from effects and waiting; -/
theorem world_tried_of_time {γ : Type} {f : World → γ} (h : Untouched f) {w : World}
    (ht : d.HasTime w) : f ((d.tried r).run w).2 = f ((d.start r).run w).2 := by
  obtain ⟨limit, hbegun⟩ := run_begun_of_time (r := r) ht
  rw [tried, World.run_bind, hbegun, launched, World.run_bind]
  rcases (d.start r).run w with ⟨result | ⟨seconds, work⟩, w'⟩
  · rfl
  · dsimp only
    rw [World.run_get_bind]
    cases wakeAfter w' seconds with
    | error e => rfl
    | ok wake => exact h.awaited d work wake limit w'

/-- one that has none leaves the world as it is. -/
theorem world_tried_of_no_time {w : World} (ht : ¬ d.HasTime w) : ((d.tried r).run w).2 = w := by
  unfold tried begun
  rw [World.run_bind, World.run_get_bind]
  rcases hl : d.invocation.limit w with e | l
  · rfl
  · cases l with
    | passed => rfl
    | unlimited | «until» => exact absurd ⟨_, hl, by simp⟩ ht

theorem cache_tried (w : World) : ((d.tried r).run w).2.cache = w.cache := by
  by_cases ht : d.HasTime w
  · exact (world_tried_of_time untouched_cache ht).trans (cache_start w)
  · rw [world_tried_of_no_time ht]

/-- An attempt that has time calls the code of the host once. -/
theorem callsOf_tried {a : HostActor} (ha : d.invocation.actor = .host a) {w : World}
    (ht : d.HasTime w) : ((d.tried r).run w).2.callsOf a.name = w.callsOf a.name + 1 := by
  rw [world_tried_of_time (untouched_callsOf a.name) ht]
  have hstart : (d.start r).run w =
      (Work.after (a.plan (w.callsOf a.name) d.input d.context d.event).delay
        (.host a.name (a.plan (w.callsOf a.name) d.input d.context d.event).outcome)).run
          ((World.visit (.called a.name d.input d.event)).run w).2 := by
    rw [start, ha]
    rfl
  rw [hstart]
  refine ((untouched_callsOf a.name).after _ _ _).trans ?_
  rw [World.callsOf_visit, if_pos rfl]

/-! ## 5. Rests -/

/-- What is said before the rest that follows an attempt. -/
def restNotice (d : Dispatch) (n : Nat) (e : InvocationError) (shown : String) : LogEntry :=
  ⟨.warning, .actors, "Invoke '" ++ d.invocation.id ++ "' attempt " ++ toString n ++ " failed (" ++
    e.message ++ "); retrying in " ++ shown ++ "ms"⟩

/-- The delay after an attempt is a number of milliseconds, and of seconds, in range. -/
def CanRest (d : Dispatch) (n : Nat) (w : World) : Prop :=
  ∃ delay x seconds, d.invocation.retry.delay n = .ok delay ∧ delay.toFloat = .ok x ∧
    delay.thousandth = .ok (.float seconds) ∧ (seconds ≤ 0.0 ∨ ∃ t, w.instant seconds = .ok t)

instance (d : Dispatch) (n : Nat) (w : World) : Decidable (d.CanRest n w) :=
  decidable_of_iff ((d.invocation.retry.delay n).toOption.any (fun delay =>
      delay.toFloat.toOption.isSome && delay.thousandth.toOption.any fun
        | .float seconds => seconds ≤ 0.0 || (w.instant seconds).toOption.isSome
        | .int _ => false) = true) <| by
    unfold CanRest
    cases d.invocation.retry.delay n with
    | error e => simp [Except.toOption]
    | ok delay =>
      cases hs : delay.thousandth with
      | error e => simp [Except.toOption, hs]
      | ok seconds =>
        cases seconds with
        | int k => simp [Except.toOption, hs]
        | float seconds =>
          cases hx : delay.toFloat <;> cases hw : w.instant seconds <;>
            simp [Except.toOption, hs, hx, hw]

/-- A rest as long as the delay that the policy has after an attempt: it is announced, and the time
passes, if the delay takes any. -/
def Rests (d : Dispatch) (n : Nat) (e : InvocationError) (w w' : World) : Prop :=
  ∃ delay x seconds now, d.invocation.retry.delay n = .ok delay ∧ delay.toFloat = .ok x ∧
    delay.thousandth = .ok (.float seconds) ∧
    ((seconds ≤ 0.0 ∧ now = w.now) ∨
      (¬ seconds ≤ 0.0 ∧ ∃ t, w.instant seconds = .ok t ∧ now = max w.now t)) ∧
    w' = { w with
      now
      effects := { w.effects with log := w.effects.log ++ [d.restNotice n e (Fixed.ofFloat x 0)] } }

/-- A rest whose delay is in range is taken. -/
theorem rested_of_canRest {n : Nat} {w : World} (h : d.CanRest n w) (e : InvocationError) :
    ((d.rested n e).run w).1 = .ok () ∧ d.Rests n e w ((d.rested n e).run w).2 := by
  obtain ⟨delay, x, seconds, hdelay, hx, hseconds, hinstant⟩ := h
  have hrest : (d.rest n e).exec w.effects = (.ok seconds, { w.effects with
      log := w.effects.log ++ [d.restNotice n e (Fixed.ofFloat x 0)] }) := by
    rw [rest, Act.exec_bind, hdelay, Act.exec_lift]
    dsimp only [liftData, Except.mapError]
    rw [Act.exec_bind, Number.fixed, hx, Act.exec_lift]
    dsimp only [liftArith, Except.mapError, bind, Except.bind, pure, Except.pure]
    rw [hseconds]
    rfl
  have hperform : (World.perform (d.rest n e)).run w = (.ok seconds, { w with
      effects := { w.effects with
        log := w.effects.log ++ [d.restNotice n e (Fixed.ofFloat x 0)] } }) := by
    change (World.perform (d.rest n e)) w = _
    rw [World.perform, hrest]
  rw [run_rested, hperform]
  dsimp only
  by_cases hzero : seconds ≤ 0.0
  · have hwake : ∀ w, wakeAfter w seconds = .ok none := fun _ => if_pos hzero
    rw [hwake]
    exact ⟨rfl, delay, x, seconds, w.now, hdelay, hx, hseconds, .inl ⟨hzero, rfl⟩, rfl⟩
  · obtain ⟨t, ht⟩ := hinstant.resolve_left hzero
    have hwake : ∀ effects, wakeAfter { w with effects } seconds = .ok (some t) := fun _ =>
      (if_neg hzero).trans (congrArg (some <$> ·) ht)
    rw [hwake]
    exact ⟨rfl, delay, x, seconds, max w.now t, hdelay, hx, hseconds, .inr ⟨hzero, t, ht, rfl⟩, rfl⟩

/-! ## 6. Keeping a value -/

/-- A value is kept under the key of its call, if there is one, and nothing else changes. -/
def Keeps (d : Dispatch) (v : Value) (w w' : World) : Prop :=
  match d.key with
  | none => w' = w
  | some key => ∃ expiresAt, w' = { w with
      cache := w.cache.without key ++ [{ key, value := v, expiresAt }] }

theorem Keeps.callsOf {v : Value} {w w' : World} (h : d.Keeps v w w') (actor : String) :
    w'.callsOf actor = w.callsOf actor := by
  unfold Keeps at h
  split at h
  · rw [h]
  · obtain ⟨_, rfl⟩ := h
    rfl

/-- The time to live is a number of milliseconds in range, if there is a key. -/
def CanKeep (d : Dispatch) : Prop :=
  ∀ key, d.key = some key → ∃ seconds, d.invocation.cacheTtlMs.seconds = .ok seconds

instance (d : Dispatch) : Decidable d.CanKeep :=
  decidable_of_iff (d.key.all (fun _ => d.invocation.cacheTtlMs.seconds.toOption.isSome) = true) <| by
    unfold CanKeep
    cases d.key <;> cases d.invocation.cacheTtlMs.seconds <;> simp [Except.toOption]

theorem kept_of_canKeep (h : d.CanKeep) (n : Nat) (v : Value) (w : World) :
    ((d.kept n v).run w).1 = .ok { value := v, attempts := n } ∧
      d.Keeps v w ((d.kept n v).run w).2 := by
  unfold kept Keeps
  cases hkey : d.key with
  | none => exact ⟨rfl, rfl⟩
  | some key =>
    obtain ⟨seconds, hseconds⟩ := h key hkey
    obtain ⟨x, rfl⟩ := Value.seconds_float hseconds
    have hput : w.cache.put (.float w.seconds) key v d.invocation.cacheTtlMs =
        .ok (⟨key, v, .float (w.seconds + x)⟩,
          w.cache.without key ++ [⟨key, v, .float (w.seconds + x)⟩]) := by
      unfold Cache.put
      rw [hseconds]
      rfl
    dsimp only
    rw [World.run_get_bind, hput]
    exact ⟨rfl, _, rfl⟩

/-! ## 7. The course of a call -/

/-- The number of the first attempt that stops the sequence of them. -/
def StopsFirst (r : Renderer) (d : Dispatch) (w : World) (k : Nat) : Prop :=
  0 < k ∧ stops (d.attemptAt r 1 w (k - 1)).1 = true ∧
    ∀ j, j + 1 < k → stops (d.attemptAt r 1 w j).1 = false

/-- A call that makes so many attempts and no more. -/
structure Course (r : Renderer) (d : Dispatch) (w : World) (n : Nat)
    (result : Except Fault CallResult) (w' : World) : Prop where
  /-- Code of the host is called once in each attempt, unless an attempt has no time. -/
  calls : ∀ a, d.invocation.actor = .host a → (∀ j < n, d.HasTime (d.before r 1 w j)) →
    w'.callsOf a.name = w.callsOf a.name + n
  /-- There is one rest between an attempt and the next one, as long as the policy has it. -/
  rests : ∀ j, j + 1 < n → ∃ e, (d.attemptAt r 1 w j).1 = .error e ∧
    d.Rests (j + 1) e (d.attemptAt r 1 w j).2 (d.before r 1 w (j + 1))
  /-- No attempt and no rest touches the kept results. -/
  cache : ∀ j < n, (d.attemptAt r 1 w j).2.cache = w.cache
  /-- A value is the result, and is kept; nothing else follows the last attempt. -/
  value : ∀ v, (d.attemptAt r 1 w (n - 1)).1 = .ok v →
    result = .ok { value := v, attempts := n } ∧ d.Keeps v (d.attemptAt r 1 w (n - 1)).2 w'
  /-- A failure is the result, and nothing follows it. -/
  failure : ∀ e, (d.attemptAt r 1 w (n - 1)).1 = .error e →
    result = .error (.invocation { e with attempts := n }) ∧ w' = (d.attemptAt r 1 w (n - 1)).2

/-- The world in which the attempts of a call begin: a kept result that has expired is dropped. -/
def looked (d : Dispatch) (w : World) : World :=
  match d.key with
  | none => w
  | some key => { w with cache := (w.cache.get (.float w.seconds) key).2 }

/-- No result is kept for a call. -/
def Misses (d : Dispatch) (w : World) : Prop :=
  ∀ key, d.key = some key → (w.cache.get (.float w.seconds) key).1 = none

instance (d : Dispatch) (w : World) : Decidable (d.Misses w) :=
  decidable_of_iff (d.key.all (fun key => (w.cache.get (.float w.seconds) key).1.isNone) = true) <| by
    unfold Misses
    cases d.key <;> simp

theorem invoked_of_misses {m : Nat} {w : World} (h : d.Misses w) :
    (d.invoked r m).run w = (d.repeated r m 1).run (d.looked w) := by
  unfold invoked looked
  cases hkey : d.key with
  | none => rfl
  | some key =>
    have hmiss := h key hkey
    dsimp only
    rw [World.run_get_bind]
    rcases hget : w.cache.get (.float w.seconds) key with ⟨entry, cache⟩
    rw [hget] at hmiss
    obtain rfl : entry = none := hmiss
    rfl

/-- Before each attempt the host has been called once in each one that came before. -/
theorem callsOf_before {a : HostActor} (ha : d.invocation.actor = .host a) {w : World} {j : Nat}
    (ht : ∀ k < j, d.HasTime (d.before r 1 w k)) :
    (d.before r 1 w j).callsOf a.name = w.callsOf a.name + j := by
  induction j with
  | zero => rfl
  | succ j ih =>
    have hone := callsOf_tried ha (r := r) (ht j (Nat.lt_succ_self j))
    rw [ih fun k hk => ht k (Nat.lt_succ_of_lt hk)] at hone
    rw [before, ← Nat.add_assoc, ← hone]
    rcases (d.tried r).run (d.before r 1 w j) with ⟨e | v, w'⟩
    · exact (untouched_callsOf a.name).rested d _ e w'
    · rfl

/-- **Attempts end in whatever sequence the host likes**: with code that ends at once they end as it
does, in terms of calls. -/
theorem attemptAt_scripted {a : HostActor} (ha : d.invocation.actor = .host a)
    {ends : Nat → Except Fault Value} (hplan : ∀ k x y z, a.plan k x y z = ⟨none, ends k⟩) {w : World}
    {j : Nat} (ht : ∀ k ≤ j, d.HasTime (d.before r 1 w k)) :
    (d.attemptAt r 1 w j).1 = d.judged (ends (w.callsOf a.name + j)) := by
  have hcalls := callsOf_before ha (r := r) (w := w) (j := j) fun k hk => ht k (Nat.le_of_lt hk)
  obtain ⟨limit, hbegun⟩ := run_begun_of_time (r := r) (ht j (Nat.le_refl j))
  have hstart : (d.start r).run (d.before r 1 w j) = (.ended (ends (w.callsOf a.name + j)),
      ((World.visit (.called a.name d.input d.event)).run (d.before r 1 w j)).2) := by
    rw [← hcalls, start, ha]
    dsimp only
    rw [World.run_get_bind, hplan]
    rfl
  rw [attemptAt, tried, World.run_bind, hbegun, launched, World.run_bind_of hstart]
  rfl

theorem cache_before (w : World) (j : Nat) : (d.before r 1 w j).cache = w.cache := by
  induction j with
  | zero => rfl
  | succ j ih =>
    have hone := (cache_tried (r := r) (d := d) (d.before r 1 w j)).trans ih
    rw [before, ← hone]
    rcases (d.tried r).run (d.before r 1 w j) with ⟨e | v, w'⟩
    · exact untouched_cache.rested d _ e w'
    · rfl

/-- The end of an attempt that nothing has stopped before is the end of a call. -/
theorem course_ended {w : World} {j : Nat}
    (hpast : ∀ k < j, stops (d.attemptAt r 1 w k).1 = false)
    (hrest : ∀ k < j, d.CanRest (k + 1) (d.attemptAt r 1 w k).2) (hkeep : d.CanKeep) :
    d.Course r w (j + 1) ((d.ended (j + 1) (d.attemptAt r 1 w j).1).run (d.attemptAt r 1 w j).2).1
      ((d.ended (j + 1) (d.attemptAt r 1 w j).1).run (d.attemptAt r 1 w j).2).2 where
  calls a ha ht := by
    have hlast : (d.attemptAt r 1 w j).2.callsOf a.name = w.callsOf a.name + (j + 1) := by
      have hone := callsOf_tried ha (r := r) (ht j (Nat.lt_succ_self j))
      rwa [callsOf_before ha fun k hk => ht k (Nat.lt_succ_of_lt hk), Nat.add_assoc] at hone
    rw [← hlast]
    rcases d.attemptAt r 1 w j with ⟨e | v, w'⟩
    · rfl
    · exact (kept_of_canKeep hkeep (j + 1) v w').2.callsOf a.name
  rests k hk := by
    have hlt : k < j := Nat.lt_of_succ_lt_succ hk
    have hgoes := hpast k hlt
    rcases hat : d.attemptAt r 1 w k with ⟨e | v, w'⟩
    · have hcan := hrest k hlt
      rw [hat] at hcan
      have hnext : d.before r 1 w (k + 1) = ((d.rested (k + 1) e).run w').2 := by
        rw [before, ← attemptAt, hat, paused, Nat.add_comm 1 k]
      exact ⟨e, rfl, hnext ▸ (rested_of_canRest hcan e).2⟩
    · rw [hat] at hgoes
      cases hgoes
  cache k _ := (cache_tried _).trans (cache_before w k)
  value v hv := by
    rw [Nat.add_sub_cancel] at hv ⊢
    rw [hv]
    exact kept_of_canKeep hkeep (j + 1) v _
  failure e he := by
    rw [Nat.add_sub_cancel] at he ⊢
    rw [he]
    exact ⟨rfl, rfl⟩

end Dispatch

namespace CallState

open Dispatch

variable {r : Renderer} {d : Dispatch}

/-- What can be seen of a dispatch. -/
theorem exists_dispatched (r : Renderer) (i : Invocation) (context event : Value) (w : World)
    (P : Dispatch → World → Bool) (h : (match (World.perform (i.dispatch r context event)).run w with
      | (.ok d, w₁) => P d w₁
      | _ => false) = true) :
    ∃ d w₁, (World.perform (i.dispatch r context event)).run w = (.ok d, w₁) ∧ P d w₁ = true := by
  split at h
  · rename_i d w₁ hd
    exact ⟨d, w₁, hd, h⟩
  · cases h

/-- Code of the host that fails twice before it succeeds. -/
def flakyCall : Invocation where
  id := "call"
  src := "quote"
  stateId := "a"
  actor := .host { name := "quote", plan := fun k _ _ _ =>
    if k < 2 then ⟨none, .error (.data .textTooLong)⟩ else ⟨none, .ok (.int 10)⟩ }
  input := .null
  timeoutMs := .int 1000
  retry := ⟨.int 3, .int 100, .int 2⟩
  cacheKey := .null
  cacheTtlMs := .int 60000

end CallState

end Statechart
