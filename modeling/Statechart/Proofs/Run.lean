/-
# Steps of an instance, specified

A step of an instance may fail half-way, and what it has done by then remains.  Four kinds
of statement about steps are used, each with a rule for every way in which steps are put together.

* **`Run.Moves R`**: whatever comes of a step, the instance afterwards is related by `R` to the one
  before.  `R` is reflexive and transitive, so this is a matter of the smallest steps.
* **`Run.Comes Q F`**: `Q` holds if a step comes to its end, and `F` if it fails.
* **`Run.Ends Q`**: a step comes to its end with `Q`, unless something raises on the way.  Raising is
  on record in the journal, apart from guards (`Instance.Calm`), so a step that fails without a
  record would refute the statement.
* **`Act.Results P`**: the result of a step that has effects only, if there is one, satisfies `P`.
-/
import Statechart.Instance.Clock
import Mathlib.Order.Defs.Unbundled
import Mathlib.Logic.Relation

namespace Statechart

namespace Run

variable {α β : Type}

/-! ## 1. Running steps -/

@[simp] theorem exec_pure (a : α) (s : Instance) : (pure a : Run α).exec s = (.ok a, s) := rfl

theorem exec_bind (x : Run α) (f : α → Run β) (s : Instance) :
    (x >>= f).exec s =
      match x.exec s with
      | (.ok a, s') => (f a).exec s'
      | (.error e, s') => (.error e, s') := by
  show (ExceptT.bind x f : Run β) s = _
  simp only [ExceptT.bind, ExceptT.mk, exec, bind, StateT.bind]
  rcases x s with ⟨r, s'⟩
  cases r <;> rfl

theorem exec_bind_ok {x : Run α} {f : α → Run β} {s s' : Instance} {a : α}
    (h : x.exec s = (.ok a, s')) : (x >>= f).exec s = (f a).exec s' := by
  rw [exec_bind, h]

theorem exec_bind_error {x : Run α} {f : α → Run β} {s s' : Instance} {e : Fault}
    (h : x.exec s = (.error e, s')) : (x >>= f).exec s = (.error e, s') := by
  rw [exec_bind, h]

@[simp] theorem exec_get (s : Instance) : (get : Run Instance).exec s = (.ok s, s) := rfl

@[simp] theorem exec_modify (f : Instance → Instance) (s : Instance) :
    (modify f : Run Unit).exec s = (.ok (), f s) := rfl

@[simp] theorem exec_note (x : Happening) (s : Instance) : (note x).exec s = (.ok (), s.note x) := rfl

@[simp] theorem exec_fail (f : Fault) (s : Instance) :
    (fail f : Run α).exec s = (.error f, s) := rfl

theorem exec_get_bind (f : Instance → Run α) (s : Instance) :
    (get >>= f).exec s = (f s).exec s := rfl

theorem exec_seek (r : Except Fault α) (s : Instance) :
    (seek r).exec s = (r, match r with | .error f => s.note (.missed f) | .ok _ => s) := by
  cases r <;> rfl

theorem exec_watched (o : Origin) (x : Run α) (s : Instance) :
    (watched o x).exec s =
      match x.exec s with
      | (.error f, s') => (.error f, s'.note (.raised o f))
      | (.ok a, s') => (.ok a, s') := by
  simp only [watched, exec]
  rcases x s with ⟨r, s'⟩
  cases r <;> rfl

/-! ## 2. Moves -/

/-- A step leads from an instance to related ones only, whether it fails or not. -/
def Moves (R : Instance → Instance → Prop) (x : Run α) : Prop := ∀ s, R s (x.exec s).2

section Moves

variable {R : Instance → Instance → Prop}

theorem Moves.get_bind {f : Instance → Run α} (h : ∀ s, R s ((f s).exec s).2) :
    Moves R (get >>= f) := h

theorem Moves.modify {f : Instance → Instance} (h : ∀ s, R s (f s)) :
    Moves R (modify f : Run Unit) := h

theorem Moves.note {x : Happening} (h : ∀ s, R s (s.note x)) : Moves R (note x) := h

theorem Moves.inWorld {x : StateM World α} (h : ∀ s world, R s { s with world }) :
    Moves R (inWorld x) := fun s => h s _

theorem Moves.perform {x : Act α} (h : ∀ s world, R s { s with world }) : Moves R (perform x) :=
  fun s => h s _

theorem Moves.outcome {x : Run α} (hx : Moves R x) : Moves R (outcome x) := by
  intro s
  rw [exec_outcome]
  exact hx s

theorem Moves.mono {R' : Instance → Instance → Prop} {x : Run α} (hx : Moves R x)
    (h : ∀ s s', R s s' → R' s s') : Moves R' x := fun s => h _ _ (hx s)

variable [IsPreorder Instance R]

theorem Moves.pure (a : α) : Moves R (pure a : Run α) := fun s => refl_of R s

/-- One step after another, the first of them from a certain instance. -/
theorem Moves.bind_from {x : Run α} {f : α → Run β} {s t : Instance} (hx : R t (x.exec s).2)
    (hf : ∀ a, Moves R (f a)) : R t ((x >>= f).exec s).2 := by
  rcases hrun : x.exec s with ⟨r, s'⟩
  rw [hrun] at hx
  cases r with
  | error e =>
    rw [exec_bind_error hrun]
    exact hx
  | ok a =>
    rw [exec_bind_ok hrun]
    exact trans_of R hx (hf a s')

theorem Moves.bind {x : Run α} {f : α → Run β} (hx : Moves R x) (hf : ∀ a, Moves R (f a)) :
    Moves R (x >>= f) := fun s => Moves.bind_from (hx s) hf

theorem Moves.lift (r : Except Fault α) : Moves R (lift r) := fun s => refl_of R s

theorem Moves.fail (f : Fault) : Moves R (fail f : Run α) := fun s => refl_of R s

theorem Moves.seek {r : Except Fault α} (h : ∀ f, r = .error f → ∀ s, R s (s.note (.missed f))) :
    Moves R (seek r) := by
  intro s
  rw [exec_seek]
  cases r with
  | error f => exact h f rfl s
  | ok a => exact refl_of R s

theorem Moves.watched {o : Origin} {x : Run α} (hx : Moves R x)
    (h : ∀ f s, R s (s.note (.raised o f))) : Moves R (watched o x) := by
  intro s
  have hmove := hx s
  rw [exec_watched]
  rcases hrun : x.exec s with ⟨r, s'⟩
  rw [hrun] at hmove
  cases r with
  | error f => exact trans_of R hmove (h f s')
  | ok a => exact hmove

theorem Moves.forM {f : α → Run Unit} {xs : List α} (h : ∀ x ∈ xs, Moves R (f x)) :
    Moves R (xs.forM f) := by
  induction xs with
  | nil => exact Moves.pure ()
  | cons x xs ih =>
    exact Moves.bind (h x List.mem_cons_self) fun _ =>
      ih fun y hy => h y (List.mem_cons_of_mem _ hy)

theorem Moves.foldlM {f : β → α → Run β} {xs : List α} (h : ∀ b, ∀ x ∈ xs, Moves R (f b x)) (b : β) :
    Moves R (xs.foldlM f b) := by
  induction xs generalizing b with
  | nil => exact Moves.pure b
  | cons x xs ih =>
    rw [List.foldlM_cons]
    exact Moves.bind (h b x List.mem_cons_self) fun b' =>
      ih (fun b y hy => h b y (List.mem_cons_of_mem _ hy)) b'

end Moves

/-- A relation that holds on condition. -/
def Given (P : Instance → Prop) (R : Instance → Instance → Prop) (s s' : Instance) : Prop :=
  P s → R s s'

theorem isPreorder_given {P : Instance → Prop} {R : Instance → Instance → Prop}
    [IsPreorder Instance R] (h : ∀ s s', P s → R s s' → P s') : IsPreorder Instance (Given P R) where
  refl s _ := refl_of R s
  trans _ _ _ hR hR' hs := trans_of R (hR hs) (hR' (h _ _ hs (hR hs)))

end Run

/-! ## 3. Calm instances -/

/-- Where a happening is that something has raised: the origin. -/
def Happening.origin? : Happening → Option Origin
  | .raised o _ => some o
  | _ => none

namespace Instance

/-- Nothing has raised so far, apart from guards. -/
def Calm (s : Instance) : Prop := ∀ o f, .raised o f ∈ s.journal → o = .guard

instance (s : Instance) : Decidable s.Calm :=
  decidable_of_iff (s.journal.all (fun x => x.origin?.all (· = .guard)) = true) <| by
    rw [List.all_eq_true]
    constructor
    · exact fun h o f hm => of_decide_eq_true (h _ hm)
    · intro h x hx
      cases x with
      | raised o f => exact decide_eq_true (h o f hx)
      | _ => rfl

theorem Calm.of_grown {s s' : Instance} (h : s'.Calm) (hg : s.journal <+: s'.journal) : s.Calm :=
  fun o f hm => h o f (hg.subset hm)

theorem not_calm_raised {o : Origin} (ho : o ≠ .guard) (f : Fault) (s : Instance) :
    ¬ (s.note (.raised o f)).Calm :=
  fun h => ho (h o f (by simp [note]))

end Instance

namespace Run

variable {α β : Type}

/-! ## 4. What comes of a step -/

/-- What is known after a step: one thing of the result and the instance if it comes to its end,
another if it fails. -/
def Comes (x : Run α) (s : Instance) (Q : α → Instance → Prop) (F : Fault → Instance → Prop) :
    Prop :=
  match x.exec s with
  | (.ok a, s') => Q a s'
  | (.error f, s') => F f s'

section Comes

variable {s : Instance} {Q : α → Instance → Prop} {F : Fault → Instance → Prop}

theorem Comes.of_ok {x : Run α} {a : α} {s' : Instance} (h : x.exec s = (.ok a, s')) (hQ : Q a s') :
    x.Comes s Q F := by
  rw [Comes, h]
  exact hQ

theorem Comes.of_error {x : Run α} {f : Fault} {s' : Instance} (h : x.exec s = (.error f, s'))
    (hF : F f s') : x.Comes s Q F := by
  rw [Comes, h]
  exact hF

/-- What is known of the instance is known whatever comes of a step. -/
theorem Comes.of_after {P : Instance → Prop} {x : Run α} (h : P (x.exec s).2) :
    x.Comes s (fun _ s' => P s') fun _ s' => P s' := by
  unfold Comes
  rcases hx : x.exec s with ⟨r, s'⟩
  rw [hx] at h
  cases r <;> exact h

theorem Comes.after {P : Instance → Prop} {x : Run α}
    (h : x.Comes s (fun _ s' => P s') fun _ s' => P s') : P (x.exec s).2 := by
  unfold Comes at h
  rcases hx : x.exec s with ⟨r, s'⟩
  rw [hx] at h
  cases r <;> exact h

theorem Comes.of_moves {R : Instance → Instance → Prop} {x : Run α} (h : Moves R x) (s : Instance) :
    x.Comes s (fun _ s' => R s s') fun _ s' => R s s' := Comes.of_after (h s)

theorem Comes.mono {x : Run α} {Q' : α → Instance → Prop} {F' : Fault → Instance → Prop}
    (h : x.Comes s Q F) (hQ : ∀ a s', Q a s' → Q' a s') (hF : ∀ f s', F f s' → F' f s') :
    x.Comes s Q' F' := by
  unfold Comes at h ⊢
  rcases hx : x.exec s with ⟨r, s'⟩
  rw [hx] at h
  cases r with
  | error f => exact hF f s' h
  | ok a => exact hQ a s' h

/-- The two ways in which a step can come out. -/
theorem Comes.cases {x : Run α} (h : x.Comes s Q F) :
    (∃ a, (x.exec s).1 = .ok a ∧ Q a (x.exec s).2) ∨
      ∃ f, (x.exec s).1 = .error f ∧ F f (x.exec s).2 := by
  unfold Comes at h
  rcases hx : x.exec s with ⟨r, s'⟩
  rw [hx] at h
  cases r with
  | error f => exact Or.inr ⟨f, rfl, h⟩
  | ok a => exact Or.inl ⟨a, rfl, h⟩

theorem Comes.and {x : Run α} {Q' : α → Instance → Prop} {F' : Fault → Instance → Prop}
    (h : x.Comes s Q F) (h' : x.Comes s Q' F') :
    x.Comes s (fun a s' => Q a s' ∧ Q' a s') fun f s' => F f s' ∧ F' f s' := by
  unfold Comes at h h' ⊢
  rcases hx : x.exec s with ⟨r, s'⟩
  rw [hx] at h h'
  cases r <;> exact ⟨h, h'⟩

/-- A step that runs like another one. -/
theorem Comes.of_exec {x y : Run α} {t : Instance} (h : x.exec s = y.exec t) (hy : y.Comes t Q F) :
    x.Comes s Q F := by
  rw [Comes, h]
  exact hy

theorem Comes.pure {a : α} (h : Q a s) : Comes (Pure.pure a : Run α) s Q F := h

/-- **One step after another.** -/
theorem Comes.bind {x : Run α} {f : α → Run β} {R : β → Instance → Prop} (hx : x.Comes s Q F)
    (hf : ∀ a s', Q a s' → (f a).Comes s' R F) : (x >>= f).Comes s R F := by
  unfold Comes at hx
  rcases hrun : x.exec s with ⟨r, s'⟩
  rw [hrun] at hx
  cases r with
  | error e => exact Comes.of_error (exec_bind_error hrun) hx
  | ok a =>
    have h := hf a s' hx
    rwa [Comes, exec_bind_ok hrun]

theorem Comes.get_bind {f : Instance → Run β} {R : β → Instance → Prop} (h : (f s).Comes s R F) :
    (get >>= f).Comes s R F := h

theorem Comes.modify_bind {k : Instance → Instance} {f : Unit → Run β} {R : β → Instance → Prop}
    (h : (f ()).Comes (k s) R F) : (modify k >>= f).Comes s R F := h

/-- A look-up that succeeds leaves no trace. -/
theorem Comes.seek_bind {r : Except Fault α} {f : α → Run β} {R : β → Instance → Prop} {a : α}
    (hr : r = .ok a) (h : (f a).Comes s R F) : (seek r >>= f).Comes s R F := by
  subst hr
  exact h

/-- What comes of a step is known when its outcome has been asked for as well. -/
theorem Comes.outcome_or {x : Run α} {P : Instance → Prop} (h : x.Comes s (fun _ s' => P s') F) :
    (outcome x).Comes s (fun _ s' => P s' ∨ ∃ f, F f s') fun f s' => f = .exhausted ∧ F f s' := by
  unfold Comes at h ⊢
  rcases hx : x.exec s with ⟨r, s'⟩
  rw [hx] at h
  unfold exec at hx
  simp only [exec, Run.outcome, hx]
  cases r with
  | ok a => exact Or.inl h
  | error f =>
    cases f with
    | exhausted => exact ⟨rfl, h⟩
    | _ => exact Or.inr ⟨_, h⟩

/-- A step whose outcome is asked for fails only if the budget is used up. -/
theorem Comes.outcome {x : Run α} {P : Fault → Prop} (h : x.Comes s Q fun f _ => P f)
    (hP : ¬ P .exhausted) :
    (outcome x).Comes s (fun _ _ => True) fun _ _ => False := by
  have hany : x.Comes s (fun _ _ => True) fun f _ => P f := h.mono (fun _ _ _ => trivial) fun _ _ h => h
  refine (Comes.outcome_or (P := fun _ => True) hany).mono (fun _ _ _ => trivial) fun f s' h => ?_
  exact hP (h.1 ▸ h.2)

/-- **Steps for the members of a list.**  The invariant is about the members that are through. -/
theorem Comes.forM {f : α → Run Unit} {I : List α → Instance → Prop} {xs : List α}
    (h : ∀ before x after s, xs = before ++ x :: after → I before s →
      (f x).Comes s (fun _ s' => I (before ++ [x]) s') F) (h₀ : I [] s) :
    (xs.forM f).Comes s (fun _ s' => I xs s') F := by
  have hall : ∀ rest before s, xs = before ++ rest → I before s →
      (rest.forM f).Comes s (fun _ s' => I xs s') F := by
    intro rest
    induction rest with
    | nil =>
      intro before s hs hI
      exact Comes.pure (by simpa [hs] using hI)
    | cons x rest ih =>
      intro before s hs hI
      refine Comes.bind (h before x rest s hs hI) fun _ s' hI' => ?_
      exact ih (before ++ [x]) s' (by simpa using hs) hI'
  exact hall xs [] s rfl h₀

/-- Steps for the members of a list with one in the middle. -/
theorem Comes.forM_around {f : α → Run Unit} {xs ys : List α} {x : α} {I J K : Instance → Prop}
    (hxs : (xs.forM f).Comes s (fun _ s' => I s') F)
    (hx : ∀ s', I s' → (f x).Comes s' (fun _ s' => J s') F)
    (hys : ∀ s', J s' → (ys.forM f).Comes s' (fun _ s' => K s') F) :
    ((xs ++ x :: ys).forM f).Comes s (fun _ s' => K s') F := by
  have hsplit : (xs ++ x :: ys).forM f = (do xs.forM f; f x; ys.forM f) := List.forM_append
  rw [hsplit]
  exact Comes.bind hxs fun _ s₁ h₁ => Comes.bind (hx s₁ h₁) fun _ s₂ h₂ => hys s₂ h₂

end Comes

/-- A step that does not fail for want of budget. -/
def Lasts (x : Run Unit) : Prop := ∀ s, x.Comes s (fun _ _ => True) fun f _ => f ≠ .exhausted

/-- A step that does not fail. -/
def Sure (x : Run Unit) : Prop := ∀ s, x.Comes s (fun _ _ => True) fun _ _ => False

/-! ## 5. Ends -/

/-- A step comes to its end with a result and an instance as stated, unless something raises. -/
def Ends (x : Run α) (s : Instance) (Q : α → Instance → Prop) : Prop :=
  x.Comes s Q fun _ s' => ¬ s'.Calm

section Ends

variable {s : Instance} {Q : α → Instance → Prop}

theorem Ends.of_ok {x : Run α} {a : α} {s' : Instance} (h : x.exec s = (.ok a, s')) (hQ : Q a s') :
    x.Ends s Q := Comes.of_ok h hQ

/-- What a specification is for: a calm end is the end as stated. -/
theorem Ends.of_calm {x : Run α} (h : x.Ends s Q) (hcalm : (x.exec s).2.Calm) :
    ∃ a, (x.exec s).1 = .ok a ∧ Q a (x.exec s).2 := by
  unfold Ends Comes at h
  rcases hx : x.exec s with ⟨r, s'⟩
  rw [hx] at h hcalm
  cases r with
  | error f => exact absurd hcalm h
  | ok a => exact ⟨a, rfl, h⟩

theorem Ends.mono {x : Run α} {Q' : α → Instance → Prop} (h : x.Ends s Q)
    (hQ : ∀ a s', Q a s' → Q' a s') : x.Ends s Q' := Comes.mono h hQ fun _ _ h => h

theorem Ends.pure {a : α} (h : Q a s) : Ends (Pure.pure a : Run α) s Q := h

theorem Ends.bind {x : Run α} {f : α → Run β} {R : β → Instance → Prop} (hx : x.Ends s Q)
    (hf : ∀ a s', Q a s' → (f a).Ends s' R) : (x >>= f).Ends s R := Comes.bind hx hf

theorem Ends.get_bind {f : Instance → Run β} {R : β → Instance → Prop} (h : (f s).Ends s R) :
    (get >>= f).Ends s R := h

theorem Ends.modify_bind {k : Instance → Instance} {f : Unit → Run β} {R : β → Instance → Prop}
    (h : (f ()).Ends (k s) R) : (modify k >>= f).Ends s R := h

theorem Ends.seek_bind {r : Except Fault α} {f : α → Run β} {R : β → Instance → Prop} {a : α}
    (hr : r = .ok a) (h : (f a).Ends s R) : (seek r >>= f).Ends s R := Comes.seek_bind hr h

/-- A failure that is on record may leave anything behind. -/
theorem Ends.watched {x : Run α} {o : Origin} (ho : o ≠ .guard)
    (h : ∀ a s', x.exec s = (.ok a, s') → Q a s') : (watched o x).Ends s Q := by
  rw [Ends, Comes, exec_watched]
  rcases hx : x.exec s with ⟨r, s'⟩
  cases r with
  | error f => exact Instance.not_calm_raised ho f s'
  | ok a => exact h a s' hx

theorem Ends.performed {x : Act α} {o : Origin} (ho : o ≠ .guard)
    (h : ∀ a world, Q a { s with world }) : (Run.watched o (perform x)).Ends s Q := by
  refine Ends.watched ho fun a s' hx => ?_
  obtain rfl : ((perform x).exec s).2 = s' := congrArg Prod.snd hx
  exact h a _

theorem Ends.forM {f : α → Run Unit} {I : List α → Instance → Prop} {xs : List α}
    (h : ∀ before x after s, xs = before ++ x :: after → I before s →
      (f x).Ends s fun _ s' => I (before ++ [x]) s') (h₀ : I [] s) :
    (xs.forM f).Ends s fun _ s' => I xs s' := Comes.forM h h₀

end Ends

end Run

/-! ## 6. Results of steps with effects -/

namespace Act

variable {α β : Type}

/-- A step with effects has a result as stated, if it has one. -/
def Results (x : Act α) (P : α → Prop) : Prop := ∀ fx a fx', x.exec fx = (.ok a, fx') → P a

variable {P Q : α → Prop} {R : β → Prop}

theorem results_any (x : Act α) : x.Results fun _ => True := fun _ _ _ _ => trivial

theorem Results.mono {x : Act α} (h : x.Results P) (hPQ : ∀ a, P a → Q a) : x.Results Q :=
  fun fx a fx' hx => hPQ a (h fx a fx' hx)

theorem Results.pure {a : α} (h : P a) : Results (Pure.pure a : Act α) P := by
  intro fx b fx' hx
  cases hx
  exact h

theorem results_lift (r : Except Fault α) : (lift r).Results fun a => r = .ok a := by
  intro fx a fx' hx
  cases hx
  rfl

/-- **One step after another.** -/
theorem Results.bind {x : Act α} {f : α → Act β} (hx : x.Results P)
    (hf : ∀ a, P a → (f a).Results R) : (x >>= f).Results R := by
  intro fx b fx' h
  rw [exec_bind] at h
  rcases hrun : x.exec fx with ⟨r, fx₁⟩
  rw [hrun] at h
  cases r with
  | error e => cases h
  | ok a => exact hf a (hx fx a fx₁ hrun) fx₁ b fx' h

/-- A last step whose result does not depend on what comes before it. -/
theorem Results.after {x : Act α} {f : α → Act β} (hf : ∀ a, (f a).Results R) : (x >>= f).Results R :=
  (results_any x).bind fun a _ => hf a

theorem Results.foldlM {f : β → α → Act β} {xs : List α}
    (h : ∀ b, ∀ x ∈ xs, R b → (f b x).Results R) {b : β} (hb : R b) : (xs.foldlM f b).Results R := by
  induction xs generalizing b with
  | nil => exact Results.pure hb
  | cons x xs ih =>
    rw [List.foldlM_cons]
    exact (h b x (by simp) hb).bind fun b' hb' => ih (fun b y hy => h b y (by simp [hy])) hb'

end Act

end Statechart
