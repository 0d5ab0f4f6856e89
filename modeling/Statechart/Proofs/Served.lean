/-
# Who is served with what was kept

A call may say itself under which key its result is kept, by a template.  The key is the name of the
actor, a colon and the text of the template; and a template that cannot be evaluated has a text too,
which says what went wrong.  So a key can mean two things, and whoever comes with it is handed the
result of another call.  Here it is said exactly when two calls have one key, and that nothing but the
key decides who is served.

* `Invocation.key_of_template`: the key that is made of a template;
* `Dispatch.Stocks`: what one step of a call does to the kept results;
* `Desk`: calls that share what is kept and go on side by side;
* **`Desk.served_of_written_key`**: two keys are equal if the names and the texts are, or if they
  overlap at a colon; and what a call is served with is the result of an earlier call of its key;
* `Desk.served_with_failure`, `Desk.served_across_names`: two users whose key cannot be rendered have
  one key, and so have calls of two actors.
-/
import Statechart.Text.Search
import Statechart.Proofs.Report

namespace Statechart

/-! ## 1. Keys that are written out -/

/-- What a template is shown as: its text, or what went wrong. -/
def Renderer.Displays (r : Renderer) (template : String) (context event : Value) (s : String) : Prop :=
  r.evaluateText template context event = .ok s ∨
    ∃ e, r.evaluateText template context event = .error (.evaluation e) ∧ s = "ERROR: " ++ e.message

theorem Renderer.exec_render_iff {r : Renderer} {template : String} {context event : Value}
    {fx : Effects} {s : String} :
    ((r.render template context event).exec fx).1 = .ok s ↔ r.Displays template context event s := by
  unfold render Displays
  cases h : r.evaluateText template context event with
  | ok text =>
    rw [Act.catchEval_of_ok (Act.exec_lift _ fx)]
    simp
  | error f =>
    cases f with
    | evaluation e =>
      rw [Act.catchEval_of_eval (Act.exec_lift _ fx), Act.exec_bind, Act.exec_say]
      change Except.ok ("ERROR: " ++ e.message) = Except.ok s ↔ _
      simp [eq_comm]
    | _ => exact iff_of_false nofun (by simp)

/-- **A key that is made of a template** is the name of the actor, a colon and what is displayed. -/
theorem Invocation.key_of_template {r : Renderer} {i : Invocation} (hown : i.cacheKey.isTruthy = true)
    {input context event : Value} {fx : Effects} {key : String}
    (h : ((i.key? r input context event).exec fx).1 = .ok (some key)) :
    ∃ template s, i.cacheKey = .text template ∧ r.Displays template context event s ∧
      key = i.src ++ ":" ++ s := by
  simp only [Invocation.key?, hown, if_true] at h
  split at h
  · cases h
  cases hkey : i.cacheKey with
  | text template =>
    have h : ((do return some (i.src ++ ":" ++ (← r.render template context event)) :
        Act (Option String)).exec fx).1 = .ok (some key) := by
      rw [hkey] at h
      exact h
    rw [Act.exec_bind] at h
    rcases hrender : (r.render template context event).exec fx with ⟨f | s, fx'⟩
    · rw [hrender] at h
      cases h
    · rw [hrender] at h
      cases h
      exact ⟨template, s, rfl, Renderer.exec_render_iff.mp (congrArg Prod.fst hrender), rfl⟩
  | _ =>
    rw [hkey] at h
    cases h

/-! ## 2. What a step of a call does to the kept results -/

/-- A step of a call keeps nothing but its result, under its key, and what it is served with was kept
under its key. -/
structure Stocks (IsKey : String → Prop) (w : World) (step : CallStep) (w' : World) : Prop where
  kept : ∀ e ∈ w'.cache, e ∈ w.cache ∨
    (IsKey e.key ∧ ∃ n, step = .finished (.ok { value := e.value, attempts := n }))
  served : ∀ v, step = .finished (.ok v) → v.cached = true →
    ∃ e ∈ w.cache, IsKey e.key ∧ e.value = v.value

section Stocks

variable {IsKey : String → Prop} {w w₁ w' : World} {step : CallStep}

/-- A step that keeps nothing and does not end with a result. -/
theorem Stocks.of_cache_eq (h : w'.cache = w.cache) (hstep : ∀ v, step ≠ .finished (.ok v)) :
    Stocks IsKey w step w' where
  kept _ he := .inl (h ▸ he)
  served v hv := absurd hv (hstep v)

/-- Nothing is kept before the step. -/
theorem Stocks.of_subset (h : Stocks IsKey w₁ step w') (hsub : w₁.cache ⊆ w.cache) :
    Stocks IsKey w step w' where
  kept _ he := (h.kept _ he).imp_left fun he => hsub he
  served v hv hcached := by
    obtain ⟨e, he, hkey, hvalue⟩ := h.served v hv hcached
    exact ⟨e, hsub he, hkey, hvalue⟩

theorem Stocks.of_before (h : Stocks IsKey w₁ step w') (hcache : w₁.cache = w.cache) :
    Stocks IsKey w step w' := by
  refine h.of_subset ?_
  rw [hcache]
  exact List.Subset.refl _

end Stocks

namespace Dispatch

variable {r : Renderer} {d : Dispatch} {IsKey : String → Prop}

theorem stocks_succeed (hd : ∀ key, d.key = some key → IsKey key) (n : Nat) (v : Value) (w : World) :
    Stocks IsKey w ((d.succeed n v).run w).1 ((d.succeed n v).run w).2 := by
  unfold succeed
  cases hkey : d.key with
  | none =>
    refine ⟨fun e he => .inl he, fun v' hv' hcached => ?_⟩
    cases hv'
    cases hcached
  | some key =>
    dsimp only
    rw [World.run_get_bind]
    cases hput : w.cache.put (.float w.seconds) key v d.invocation.cacheTtlMs with
    | error e => exact .of_cache_eq rfl nofun
    | ok result =>
      obtain ⟨entry, cache⟩ := result
      refine ⟨fun e he => ?_, fun v' hv' hcached => ?_⟩
      · rcases Cache.mem_of_put hput he with hold | ⟨hk, hv⟩
        · exact .inl hold
        · exact .inr ⟨hd e.key (by rw [hkey, hk]), n, by rw [hv]; rfl⟩
      · cases hv'
        cases hcached

theorem stocks_fail (n : Nat) (e : InvocationError) (w : World) :
    Stocks IsKey w ((d.fail n e).run w).1 ((d.fail n e).run w).2 := by
  by_cases hretry : e.retryable.isTruthy = true ∧ d.invocation.retry.allows n = true
  · rw [run_fail_again hretry.1 hretry.2]
    have hcache := World.Leaves.perform (x := d.rest n e) untouched_cache.effects w
    rcases hrest : (World.perform (d.rest n e)).run w with ⟨f | seconds, w'⟩
    · rw [hrest] at hcache
      exact .of_cache_eq hcache nofun
    · rw [hrest] at hcache
      dsimp only
      cases wakeAfter w' seconds with
      | error e => exact .of_cache_eq hcache nofun
      | ok wake => exact .of_cache_eq hcache nofun
  · have hlast : e.retryable.isTruthy = false ∨ d.invocation.retry.allows n = false := by
      by_cases he : e.retryable.isTruthy = true
      · exact .inr (by simpa [he] using hretry)
      · exact .inl (by simpa using he)
    rw [run_fail_last hlast]
    exact .of_cache_eq rfl nofun

theorem stocks_answered (hd : ∀ key, d.key = some key → IsKey key) (n : Nat)
    (o : Except InvocationError Value) (w : World) :
    Stocks IsKey w ((d.answered n o).run w).1 ((d.answered n o).run w).2 := by
  cases o with
  | ok v => exact stocks_succeed hd n v w
  | error e => exact stocks_fail n e w

/-- The beginning of an attempt does not touch the kept results. -/
theorem cache_begun (w : World) : ((d.begun r).run w).2.cache = w.cache := by
  have hlaunched : ∀ limit, ((d.launched r limit).run w).2.cache = w.cache := by
    intro limit
    have hstart := cache_start (r := r) (d := d) w
    unfold launched
    rcases hrun : (d.start r).run w with ⟨result | ⟨seconds, work⟩, w'⟩
    · rw [hrun] at hstart
      rw [World.run_bind_of hrun]
      exact hstart
    · rw [hrun] at hstart
      rw [World.run_bind_of hrun]
      dsimp only
      rw [World.run_get_bind]
      cases wakeAfter w' seconds with
      | error e => exact hstart
      | ok wake => exact hstart
  unfold begun
  rw [World.run_get_bind]
  rcases d.invocation.limit w with e | l
  · rfl
  · cases l with
    | passed => rfl
    | unlimited | «until» => exact hlaunched _

theorem stocks_attempt (hd : ∀ key, d.key = some key → IsKey key) (n : Nat) (w : World) :
    Stocks IsKey w ((d.attempt r n).run w).1 ((d.attempt r n).run w).2 := by
  have hcache := cache_begun (r := r) (d := d) w
  rw [run_attempt]
  rcases hrun : (d.begun r).run w with ⟨o | ⟨work, wake, limit⟩, w'⟩
  · rw [hrun] at hcache
    exact (stocks_answered hd n o w').of_before hcache
  · rw [hrun] at hcache
    exact .of_cache_eq hcache nofun

/-- A dispatched call is served with what was kept under its key, or makes its first attempt. -/
theorem stocks_begin (hd : ∀ key, d.key = some key → IsKey key) (w : World) :
    Stocks IsKey w ((d.begin r).run w).1 ((d.begin r).run w).2 := by
  unfold begin
  cases hkey : d.key with
  | none => exact stocks_attempt hd 1 w
  | some key =>
    dsimp only
    rw [World.run_get_bind]
    have hsub : (w.cache.get (.float w.seconds) key).2 ⊆ w.cache := Cache.get_subset
    rcases hget : w.cache.get (.float w.seconds) key with ⟨_ | entry, cache⟩
    · rw [hget] at hsub
      exact (stocks_attempt hd 1 { w with cache }).of_subset hsub
    · rw [hget] at hsub
      refine ⟨fun e he => .inl (hsub he), fun v hv _ => ?_⟩
      obtain ⟨hmem, rfl⟩ := Cache.mem_of_get hget
      cases hv
      exact ⟨entry, hmem, hd _ hkey, rfl⟩

end Dispatch

/-! ## 3. Steps of one call -/

/-- A call and what it is asked with. -/
structure Job where
  invocation : Invocation
  context : Value
  event : Value

namespace Job

variable {r : Renderer} {j : Job}

/-- The result of a call is kept under a key. -/
def HasKey (r : Renderer) (j : Job) (key : String) : Prop :=
  ∃ input fx, j.invocation.renderedInput r j.context j.event = .ok input ∧
    ((j.invocation.key? r input j.context j.event).exec fx).1 = .ok (some key)

/-- A call stands at its beginning, or has been dispatched with its key. -/
inductive Stands (r : Renderer) (j : Job) : CallState → Prop
  | fresh : Stands r j (.fresh j.invocation j.context j.event)
  | dispatched {d : Dispatch} {s : CallState} : s.IsOf d → (∀ key, d.key = some key → j.HasKey r key) →
      Stands r j s

/-- What becomes of a call at one of its steps. -/
structure Takes (r : Renderer) (j : Job) (w : World) (step : CallStep) (w' : World) : Prop where
  stocks : Stocks (j.HasKey r) w step w'
  stands : ∀ s limit wake, step = .waiting s limit wake → j.Stands r s

/-- A step of a call that has been dispatched with its key. -/
theorem takes_of_stocks {d : Dispatch} {w w' : World} {step : CallStep}
    (hkey : ∀ key, d.key = some key → j.HasKey r key) (h : Stocks (j.HasKey r) w step w')
    (hstep : step.Follows d) : j.Takes r w step w' where
  stocks := h
  stands s limit wake hs := by
    subst hs
    exact .dispatched hstep hkey

theorem takes_of_error (f : Fault) {w w' : World} (h : w'.cache = w.cache) :
    j.Takes r w (.finished (.error f)) w' where
  stocks := .of_cache_eq h nofun
  stands _ _ _ hs := by cases hs

theorem takes_resume {s : CallState} (h : j.Stands r s) (w : World) :
    j.Takes r w ((s.resume r).run w).1 ((s.resume r).run w).2 := by
  cases h with
  | fresh =>
    have hcache := World.Leaves.perform
      (x := j.invocation.dispatch r j.context j.event) untouched_cache.effects w
    rw [CallState.resume]
    rcases hd : (World.perform (j.invocation.dispatch r j.context j.event)).run w with ⟨f | d, w'⟩
    · rw [hd] at hcache
      rw [World.run_bind_of hd]
      exact takes_of_error f hcache
    · rw [hd] at hcache
      rw [World.run_bind_of hd]
      obtain ⟨input, key, hinput, hkey, rfl⟩ := CallState.exists_key_of_dispatched hd
      have hkey : ∀ k, key = some k → j.HasKey r k := by
        rintro k rfl
        exact ⟨input, w.effects, hinput, hkey⟩
      exact takes_of_stocks hkey ((Dispatch.stocks_begin hkey w').of_before hcache)
        (Dispatch.follows_begin w')
  | @dispatched d _ hof hkey =>
    refine takes_of_stocks hkey ?_ (CallState.follows_resume hof w)
    cases s with
    | fresh => exact hof.elim
    | working d' n work =>
      obtain rfl : d' = d := hof
      rw [CallState.resume, World.run_bind, Dispatch.conclude_eq]
      exact (Dispatch.stocks_answered hkey n _ _).of_before (untouched_cache.result work w)
    | resting d' n =>
      obtain rfl : d' = d := hof
      exact Dispatch.stocks_attempt hkey (n + 1) w

theorem takes_expire {s : CallState} (h : j.Stands r s) (w : World) :
    j.Takes r w (s.expire.run w).1 (s.expire.run w).2 := by
  cases h with
  | fresh =>
    refine ⟨.of_cache_eq rfl nofun, ?_⟩
    rintro s limit wake ⟨⟩
    exact .fresh
  | @dispatched d _ hof hkey =>
    refine takes_of_stocks hkey ?_ (CallState.follows_expire hof w)
    cases s with
    | fresh => exact hof.elim
    | working d' n work =>
      obtain rfl : d' = d := hof
      rw [CallState.expire, World.run_bind]
      exact (Dispatch.stocks_fail n _ _).of_before (untouched_cache.abandon work w)
    | resting d' n => exact .of_cache_eq rfl nofun

end Job

/-! ## 4. Calls side by side -/

/-- Calls that share what is kept: those that go on, and those that have ended, in order. -/
structure Desk where
  world : World
  going : List (Job × CallState) := []
  ended : List (Job × Except Fault CallResult) := []

namespace Desk

variable {r : Renderer} {d d' : Desk}

/-- One thing that happens: a call is taken, one that goes on is resumed or runs out of time, so that it
waits again or ends, or something else changes that is not what is kept. -/
inductive Step (r : Renderer) : Desk → Desk → Prop
  | taken (d : Desk) (j : Job) :
      Step r d { d with going := d.going ++ [(j, .fresh j.invocation j.context j.event)] }
  | waited {d : Desk} {before after : List (Job × CallState)} {j : Job} {s s' : CallState}
      {limit wake : Option Int} {w' : World} :
      d.going = before ++ (j, s) :: after →
      (s.resume r).run d.world = (.waiting s' limit wake, w') ∨
        s.expire.run d.world = (.waiting s' limit wake, w') →
      Step r d { d with world := w', going := before ++ (j, s') :: after }
  | finished {d : Desk} {before after : List (Job × CallState)} {j : Job} {s : CallState}
      {result : Except Fault CallResult} {w' : World} :
      d.going = before ++ (j, s) :: after →
      (s.resume r).run d.world = (.finished result, w') ∨
        s.expire.run d.world = (.finished result, w') →
      Step r d { world := w', going := before ++ after, ended := d.ended ++ [(j, result)] }
  | aside {d : Desk} {w' : World} : w'.cache = d.world.cache → Step r d { d with world := w' }

/-- A desk that began with nothing kept. -/
def Reached (r : Renderer) (d : Desk) : Prop :=
  ∃ w, w.cache = [] ∧ Relation.ReflTransGen (Step r) { world := w } d

/-- Among calls that have ended, one of a key has got its value itself. -/
def Gives (r : Renderer) (ended : List (Job × Except Fault CallResult)) (key : String) (v : Value) :
    Prop :=
  ∃ j result, (j, .ok result) ∈ ended ∧ result.cached = false ∧ result.value = v ∧ j.HasKey r key

theorem Gives.append {ended : List (Job × Except Fault CallResult)} {key : String} {v : Value}
    (h : Gives r ended key v) (more : List (Job × Except Fault CallResult)) :
    Gives r (ended ++ more) key v := by
  obtain ⟨j, result, hmem, hrest⟩ := h
  exact ⟨j, result, List.mem_append_left _ hmem, hrest⟩

/-- Whatever is kept, and whatever a call was served with, is the result of an earlier call of its
key. -/
structure Sourced (r : Renderer) (d : Desk) : Prop where
  going : ∀ p ∈ d.going, p.1.Stands r p.2
  kept : ∀ e ∈ d.world.cache, Gives r d.ended e.key e.value
  served : ∀ before j v after, d.ended = before ++ (j, .ok v) :: after → v.cached = true →
    ∃ key, j.HasKey r key ∧ Gives r before key v.value

theorem Step.sourced (h : Step r d d') (hd : Sourced r d) : Sourced r d' := by
  cases h with
  | taken j =>
    refine ⟨fun p hp => ?_, hd.kept, hd.served⟩
    rcases List.mem_append.mp hp with hp | hp
    · exact hd.going p hp
    · obtain rfl := List.mem_singleton.mp hp
      exact .fresh
  | @waited before after j s s' limit wake w' hgoing hrun =>
    have hstands : j.Stands r s := hd.going (j, s) (by simp [hgoing])
    have htakes : j.Takes r d.world (.waiting s' limit wake) w' := by
      rcases hrun with hrun | hrun
      · have htakes := Job.takes_resume hstands d.world
        rwa [hrun] at htakes
      · have htakes := Job.takes_expire hstands d.world
        rwa [hrun] at htakes
    refine ⟨fun p hp => ?_, fun e he => ?_, hd.served⟩
    · rcases List.mem_append.mp hp with hp | hp
      · exact hd.going p (by simp [hgoing, hp])
      · rcases List.mem_cons.mp hp with rfl | hp
        · exact htakes.stands s' limit wake rfl
        · exact hd.going p (by simp [hgoing, hp])
    · rcases htakes.stocks.kept e he with hold | ⟨-, n, hstep⟩
      · exact hd.kept e hold
      · cases hstep
  | @finished before after j s result w' hgoing hrun =>
    have hstands : j.Stands r s := hd.going (j, s) (by simp [hgoing])
    have htakes : j.Takes r d.world (.finished result) w' := by
      rcases hrun with hrun | hrun
      · have htakes := Job.takes_resume hstands d.world
        rwa [hrun] at htakes
      · have htakes := Job.takes_expire hstands d.world
        rwa [hrun] at htakes
    refine ⟨fun p hp => ?_, fun e he => ?_, fun before' j' v after' hended hcached => ?_⟩
    · exact hd.going p (by
        rw [hgoing]
        exact (List.mem_append.mp hp).elim (List.mem_append_left _) fun hp =>
          List.mem_append_right _ (.tail _ hp))
    · rcases htakes.stocks.kept e he with hold | ⟨hkey, n, hstep⟩
      · exact (hd.kept e hold).append _
      · cases hstep
        exact ⟨j, _, List.mem_append_right _ (.head _), rfl, rfl, hkey⟩
    · -- the call that was served has ended before, or just now
      rcases List.eq_nil_or_concat after' with rfl | ⟨after', last, rfl⟩
      · obtain ⟨rfl, hlast⟩ := List.append_inj' hended rfl
        cases hlast
        obtain ⟨e, he, hkey, hvalue⟩ := htakes.stocks.served v rfl hcached
        exact ⟨e.key, hkey, hvalue ▸ hd.kept e he⟩
      · have hcut : d.ended ++ [(j, result)] = (before' ++ (j', .ok v) :: after') ++ [last] := by
          simpa using hended
        exact hd.served before' j' v after' (List.append_inj' hcut rfl).1 hcached
  | @aside w' hcache => exact ⟨hd.going, fun e he => hd.kept e (hcache ▸ he), hd.served⟩

theorem sourced_of_reached (h : Reached r d) : Sourced r d := by
  obtain ⟨w, hempty, hsteps⟩ := h
  induction hsteps with
  | refl => exact ⟨by simp, by simp [hempty], by simp⟩
  | tail _ hstep ih => exact hstep.sourced ih

/-- A call that ends as soon as it begins. -/
theorem Reached.ends_at_once (h : Reached r d) {j : Job} {result : Except Fault CallResult} {w' : World}
    (hrun : ((CallState.fresh j.invocation j.context j.event).resume r).run d.world =
      (.finished result, w')) :
    Reached r { world := w', going := d.going, ended := d.ended ++ [(j, result)] } := by
  obtain ⟨w, hempty, hsteps⟩ := h
  refine ⟨w, hempty, (hsteps.tail (.taken d j)).tail ?_⟩
  have hlast : d.going ++ [(j, CallState.fresh j.invocation j.context j.event)] =
      d.going ++ (j, CallState.fresh j.invocation j.context j.event) :: [] := rfl
  simpa using Step.finished (r := r)
    (d := { d with going := d.going ++ [(j, .fresh j.invocation j.context j.event)] }) hlast (.inl hrun)

/-! ## 5. Keys and who is served -/

end Desk

/-- A call says itself under which key its result is kept. -/
def Job.IsWritten (j : Job) : Prop := j.invocation.cacheKey.isTruthy = true

/-- Two calls say under which keys their results are kept: the keys are equal if, and only if, the names
and what the templates display are, or these overlap at a colon. -/
theorem Job.key_eq_iff {r : Renderer} {j j' : Job} {key key' : String} (hj : j.IsWritten)
    (hj' : j'.IsWritten) (h : j.HasKey r key) (h' : j'.HasKey r key') :
    ∃ t t' s s', j.invocation.cacheKey = .text t ∧ j'.invocation.cacheKey = .text t' ∧
      r.Displays t j.context j.event s ∧ r.Displays t' j'.context j'.event s' ∧
      (key = key' ↔ (j.invocation.src = j'.invocation.src ∧ s = s') ∨
        Overlaps j.invocation.src s j'.invocation.src s' ∨
        Overlaps j'.invocation.src s' j.invocation.src s) := by
  obtain ⟨input, fx, -, hkey⟩ := h
  obtain ⟨input', fx', -, hkey'⟩ := h'
  obtain ⟨t, s, ht, hs, rfl⟩ := Invocation.key_of_template hj hkey
  obtain ⟨t', s', ht', hs', rfl⟩ := Invocation.key_of_template hj' hkey'
  exact ⟨t, t', s, s', ht, ht', hs, hs', colon_eq_iff⟩

/-- Where no name has a colon in it, calls of one key have one name and display one text; both have been
rendered unless that text says what went wrong. -/
theorem Job.same_of_key {r : Renderer} {j j' : Job} {key : String} (hj : j.IsWritten)
    (hj' : j'.IsWritten) (h : j.HasKey r key) (h' : j'.HasKey r key)
    (hname : ':' ∉ j.invocation.src.toList) (hname' : ':' ∉ j'.invocation.src.toList) :
    j.invocation.src = j'.invocation.src ∧ ∃ t t' s, j.invocation.cacheKey = .text t ∧
      j'.invocation.cacheKey = .text t' ∧ r.Displays t j.context j.event s ∧
      r.Displays t' j'.context j'.event s ∧
      (beginsWith "ERROR: " s = false → r.evaluateText t j.context j.event = .ok s ∧
        r.evaluateText t' j'.context j'.event = .ok s) := by
  obtain ⟨t, t', s, s', ht, ht', hs, hs', hiff⟩ := key_eq_iff hj hj' h h'
  rcases hiff.mp rfl with ⟨hsrc, rfl⟩ | hover | hover
  · have hrendered : ∀ {t c e}, r.Displays t c e s → beginsWith "ERROR: " s = false →
        r.evaluateText t c e = .ok s := by
      rintro t c e (hok | ⟨f, -, rfl⟩) hplain
      · exact hok
      · simp [beginsWith] at hplain
    exact ⟨hsrc, t, t', s, ht, ht', hs, hs', fun hplain => ⟨hrendered hs hplain, hrendered hs' hplain⟩⟩
  · exact absurd hover.colon_mem.1 hname'
  · exact absurd hover.colon_mem.1 hname

namespace Desk

/-- **Who is served with what was kept.**  The keys of two calls that say themselves what theirs is are
equal if, and only if, the names of the actors and the displayed texts are, or these overlap at a
colon; a displayed text is that of the template or says why it has none.  And whatever calls go on side
by side, one that is served is served with the result of an earlier call of its key that was not. -/
theorem served_of_written_key (r : Renderer) :
    (∀ (j j' : Job) (key key' : String), j.IsWritten → j'.IsWritten → j.HasKey r key →
      j'.HasKey r key' → ∃ t t' s s', j.invocation.cacheKey = .text t ∧
        j'.invocation.cacheKey = .text t' ∧ r.Displays t j.context j.event s ∧
        r.Displays t' j'.context j'.event s' ∧
        (key = key' ↔ (j.invocation.src = j'.invocation.src ∧ s = s') ∨
          Overlaps j.invocation.src s j'.invocation.src s' ∨
          Overlaps j'.invocation.src s' j.invocation.src s)) ∧
    ∀ d, Reached r d → ∀ before j v after, d.ended = before ++ (j, .ok v) :: after →
      v.cached = true → ∃ j' v', (j', .ok v') ∈ before ∧ v'.cached = false ∧ v'.value = v.value ∧
        ∃ key, j.HasKey r key ∧ j'.HasKey r key := by
  constructor
  · intro j j' key key' hj hj' h h'
    exact Job.key_eq_iff hj hj' h h'
  · intro d hd before j v after hended hcached
    obtain ⟨key, hkey, j', v', hmem, hown, hvalue, hkey'⟩ :=
      (sourced_of_reached hd).served before j v after hended hcached
    exact ⟨j', v', hmem, hown, hvalue, key, hkey, hkey'⟩

/-- A lookup whose result is to be kept for each user. -/
def lookup (src template user : String) : Job where
  invocation := {
    id := "call"
    src
    stateId := "a"
    actor := .host { name := src, plan := fun k _ _ _ =>
      ⟨none, .ok (.text (if k = 0 then "first" else "second"))⟩ }
    input := .null
    timeoutMs := .null
    retry := ⟨.int 0, .int 0, .int 2⟩
    cacheKey := .text template
    cacheTtlMs := .int 60000 }
  context := .record [("user", .text user), ("user-id", .text user)]
  event := .null

/-- What can be seen of two calls, one after the other. -/
theorem exists_two_ended (r : Renderer) (j j' : Job) (P : CallResult → CallResult → Bool)
    (h : (match ((CallState.fresh j.invocation j.context j.event).resume r).run {} with
      | (.finished (.ok v), w) =>
        match ((CallState.fresh j'.invocation j'.context j'.event).resume r).run w with
        | (.finished (.ok v'), _) => P v v'
        | _ => false
      | _ => false) = true) :
    ∃ d v v', Reached r d ∧ d.ended = [(j, .ok v), (j', .ok v')] ∧ P v v' = true := by
  split at h
  · rename_i v w hrun
    split at h
    · rename_i v' w' hrun'
      have hfirst := Reached.ends_at_once (d := { world := {} }) ⟨{}, rfl, .refl⟩ hrun
      exact ⟨_, v, v', hfirst.ends_at_once hrun', rfl, h⟩
    · cases h
  · cases h

theorem hasKey_of_any {r : Renderer} {j : Job} {key : String}
    (h : (j.invocation.renderedInput r j.context j.event).toOption.any (fun input =>
      ((j.invocation.key? r input j.context j.event).exec {}).1.toOption.any (· = some key)) = true) :
    j.HasKey r key := by
  obtain ⟨input, hinput, h⟩ := exists_ok_of_any h
  obtain ⟨key', hkey, h⟩ := exists_ok_of_any h
  exact ⟨input, {}, hinput, of_decide_eq_true h ▸ hkey⟩

/-- A key that can be rendered, and one that cannot: the name of the entry is no part of a path. -/
def profileKey : String := "profile-\x7b\x7b context.user \x7d\x7d"
def brokenKey : String := "profile-\x7b\x7b context.user-id \x7d\x7d"

/-- A user that comes again is served with the own profile. -/
theorem served_of_written_key_ada : ∃ d v v', Reached .standard d ∧
    d.ended = [(lookup "profile" profileKey "ada", .ok v), (lookup "profile" profileKey "ada", .ok v')] ∧
    v'.cached = true ∧ (lookup "profile" profileKey "ada").HasKey .standard "profile:profile-ada" ∧
    (∃ t s, t = profileKey ∧
      Renderer.standard.Displays t (lookup "profile" profileKey "ada").context .null s) ∧
    ∃ j result, (j, .ok result) ∈ [(lookup "profile" profileKey "ada",
      (.ok v : Except Fault CallResult))] ∧ result.cached = false ∧ result.value = v'.value := by
  obtain ⟨d, v, v', hd, hended, hcached⟩ := exists_two_ended .standard
    (lookup "profile" profileKey "ada") (lookup "profile" profileKey "ada")
    (fun _ v' => v'.cached) (by decide +kernel)
  have hkey : (lookup "profile" profileKey "ada").HasKey .standard "profile:profile-ada" :=
    hasKey_of_any (by decide +kernel)
  have hwritten : (lookup "profile" profileKey "ada").IsWritten := by
    unfold Job.IsWritten
    decide +kernel
  obtain ⟨hkeys, hserved⟩ := served_of_written_key .standard
  obtain ⟨t, -, s, -, ht, -, hs, -⟩ := hkeys _ _ _ _ hwritten hwritten hkey hkey
  obtain ⟨j, result, hmem, hown, hvalue, -⟩ := hserved d hd [(lookup "profile" profileKey "ada", .ok v)]
    (lookup "profile" profileKey "ada") v' [] hended hcached
  have ht : t = profileKey := (Value.text.inj ht).symm
  exact ⟨d, v, v', hd, hended, hcached, hkey, ⟨t, s, ht, hs⟩, j, result, hmem, hown, hvalue⟩

/-- **A key that cannot be rendered is a key**: it is the same for all users, and the second one is
served with what was looked up for the first. -/
theorem served_with_failure : ∃ d v v', Reached .standard d ∧
    d.ended = [(lookup "profile" brokenKey "ada", .ok v), (lookup "profile" brokenKey "bob", .ok v')] ∧
    v'.cached = true ∧ v.value.display = "first" ∧ v'.value.display = "first" ∧
    ∀ user ∈ ["ada", "bob"], ∀ s,
      Renderer.standard.evaluateText brokenKey (lookup "profile" brokenKey user).context .null ≠ .ok s := by
  obtain ⟨d, v, v', hd, hended, hseen⟩ := exists_two_ended .standard
    (lookup "profile" brokenKey "ada") (lookup "profile" brokenKey "bob")
    (fun v v' => v'.cached && (v.value.display = "first" && v'.value.display = "first"))
    (by decide +kernel)
  have hfails : ["ada", "bob"].all (fun user => (Renderer.standard.evaluateText brokenKey
      (lookup "profile" brokenKey user).context .null).toOption.isNone) = true := by decide +kernel
  simp only [Bool.and_eq_true, decide_eq_true_eq] at hseen
  refine ⟨d, v, v', hd, hended, hseen.1, hseen.2.1, hseen.2.2, fun user huser s hs => ?_⟩
  have hnone := List.all_eq_true.mp hfails user huser
  rw [hs] at hnone
  cases hnone

/-- Calls of two actors have one key, where the name of one goes on after a colon. -/
theorem served_across_names : ∃ key,
    (lookup "db" "users:\x7b\x7b user \x7d\x7d" "ada").HasKey .standard key ∧
      (lookup "db:users" "\x7b\x7b user \x7d\x7d" "ada").HasKey .standard key :=
  ⟨"db:users:ada", hasKey_of_any (by decide +kernel), hasKey_of_any (by decide +kernel)⟩

end Desk

end Statechart
