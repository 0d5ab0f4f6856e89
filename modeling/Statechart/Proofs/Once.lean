/-
# Fields that are computed once

A field that is cached is computed when its state is entered for the first time, and then no more.
What has been computed is remembered by name, the name being made of the state and the field with a
colon between them, and all states of an instance share one memory.

* `StateNode.onceKey_inj`: where no state has a colon in its name, a name stands for one field only;
* `Instance.exec_computeField`: a cached field whose name is in the memory is passed over; any other is
  computed as one that is not cached, and its name is put down if that succeeds;
* `Instance.Tallies`: what is put down while an instance moves are names of fields of the states that
  it enters, all of them unless something raises;
* **`Instance.computed_of_reached`**: no name is put down twice in any run, and unless something has
  raised, the memory holds the names of the cached fields of the states that have been entered, each
  where it occurs first.

So a field is computed at the first entry of its state unless another of its name has been computed by
then.  Two fields of one name belong to one state, or there is a colon in the name of a state and in
that of a field (`Overlaps`).
-/
import Statechart.Proofs.Account
import Statechart.Proofs.Configuration
import Statechart.Text.Search

namespace Statechart

/-! ## 1. Names -/

namespace StateNode

/-- The name that a field is remembered by. -/
def onceKey (n : StateNode) (f : ComputedField) : String := n.id ++ ":" ++ f.field

/-- Where no state has a colon in its name, every field has a name of its own. -/
theorem onceKey_inj {n n' : StateNode} {f f' : ComputedField} (hn : ':' ∉ n.id.toList)
    (hn' : ':' ∉ n'.id.toList) (h : n.onceKey f = n'.onceKey f') :
    n.id = n'.id ∧ f.field = f'.field := by
  rcases colon_eq_iff.mp h with hsame | hover | hover
  · exact hsame
  · exact absurd hover.colon_mem.1 hn'
  · exact absurd hover.colon_mem.1 hn

/-- The names of those fields that are cached. -/
def keysOf (n : StateNode) (fields : List ComputedField) : List String :=
  (fields.filter (·.cache)).map n.onceKey

/-- The names of the cached fields of a state. -/
def onceKeys (n : StateNode) : List String := n.keysOf n.computed

theorem keysOf_cons (n : StateNode) (f : ComputedField) (fields : List ComputedField) :
    n.keysOf (f :: fields) = n.keysOf [f] ++ n.keysOf fields := by
  unfold keysOf
  cases h : f.cache <;> simp [h]

end StateNode

/-- The names of the cached fields of the state that is entered. -/
def Graph.onceKeysAt (g : Graph) : Happening → List String
  | .entered c =>
    match g.state c.state with
    | .ok n => n.onceKeys
    | .error _ => []
  | _ => []

theorem Happening.IsRemark.onceKeysAt {x : Happening} (h : x.IsRemark) (g : Graph) :
    g.onceKeysAt x = [] := by
  cases x <;> first | exact h.elim | rfl

/-- Put a name down that has not been put down yet. -/
def mark (done : List String) (key : String) : List String :=
  if done.contains key then done else done ++ [key]

/-- Put names down, each where it occurs first. -/
def markAll (done keys : List String) : List String := keys.foldl mark done

theorem markAll_append (done keys more : List String) :
    markAll done (keys ++ more) = markAll (markAll done keys) more := List.foldl_append

theorem mark_of_mem {done : List String} {key : String} (h : key ∈ done) : mark done key = done :=
  if_pos (by simpa using h)

theorem mark_of_not_mem {done : List String} {key : String} (h : key ∉ done) :
    mark done key = done ++ [key] := if_neg (by simpa using h)

theorem mem_markAll {done keys : List String} {k : String} :
    k ∈ markAll done keys ↔ k ∈ done ∨ k ∈ keys := by
  induction keys generalizing done with
  | nil => simp [markAll]
  | cons key keys ih =>
    have hmark : k ∈ mark done key ↔ k ∈ done ∨ k = key := by
      by_cases hkey : key ∈ done
      · rw [mark_of_mem hkey]
        constructor
        · exact Or.inl
        · rintro (hk | rfl)
          · exact hk
          · exact hkey
      · simp [mark_of_not_mem hkey]
    rw [markAll, List.foldl_cons, ← markAll, ih, hmark, List.mem_cons, or_assoc]

theorem prefix_markAll (done keys : List String) : done <+: markAll done keys := by
  induction keys generalizing done with
  | nil => exact List.prefix_rfl
  | cons key keys ih =>
    refine List.IsPrefix.trans ?_ (ih (mark done key))
    by_cases hkey : key ∈ done
    · exact (mark_of_mem hkey).symm ▸ List.prefix_rfl
    · rw [mark_of_not_mem hkey]
      exact List.prefix_append _ _

theorem nodup_markAll {done : List String} (h : done.Nodup) (keys : List String) :
    (markAll done keys).Nodup := by
  induction keys generalizing done with
  | nil => exact h
  | cons key keys ih =>
    refine ih ?_
    by_cases hkey : key ∈ done
    · rw [mark_of_mem hkey]
      exact h
    · rw [mark_of_not_mem hkey]
      exact List.nodup_append.mpr ⟨h, by simp, fun a ha b hb => by
        rw [List.mem_singleton.mp hb]
        rintro rfl
        exact hkey ha⟩

namespace Instance

open Run

variable {m : Machine} {g : Graph} {s s' s₁ : Instance}

/-! ## 2. One field -/

/-- A field is put down once it has been computed. -/
def marked (key : String) : Except Fault Value × Instance → Except Fault Value × Instance
  | (.ok context, s) => (.ok context, { s with computed := s.computed ++ [key] })
  | (.error f, s) => (.error f, s)

/-- **A cached field** is passed over if its name has been put down; otherwise it is computed as one
that is not cached, and put down. -/
theorem exec_computeField (n : StateNode) {f : ComputedField} (hcache : f.cache = true) (e : Event)
    (context : Value) (s : Instance) :
    (computeField n e context f).exec s =
      if n.onceKey f ∈ s.computed then (.ok context, s)
      else marked (n.onceKey f) ((computeField n e context { f with cache := false }).exec s) := by
  unfold computeField
  rw [exec_get_bind, exec_get_bind]
  by_cases hkey : n.onceKey f ∈ s.computed
  · have hnoted : (f.cache && s.computed.contains (n.onceKey f)) = true := by simp [hcache, hkey]
    rw [if_pos hkey]
    exact congrArg (exec · s) (if_pos hnoted)
  · have hnew : ¬ (f.cache && s.computed.contains (n.onceKey f)) = true := by simp [hkey]
    rw [if_neg hkey]
    refine (congrArg (exec · s) (if_neg hnew)).trans ?_
    dsimp only
    rw [Bool.false_and, if_neg Bool.false_ne_true, exec_bind, exec_bind]
    rcases exec (Run.perform _) s with ⟨r, t⟩
    cases r with
    | error x => rfl
    | ok v =>
      dsimp only
      cases context.stored f.field v with
      | error x => rfl
      | ok context' =>
        rw [hcache]
        rfl

/-- A field that is not cached leaves no trace but in the context. -/
theorem quiet_computeField (n : StateNode) {f : ComputedField} (hcache : f.cache = false) (e : Event)
    (context : Value) : Moves Quiet (computeField n e context f) := by
  unfold computeField
  refine Moves.get_bind fun s => ?_
  rw [hcache, Bool.false_and, if_neg Bool.false_ne_true]
  refine Moves.bind (quiet_perform _) (fun v => Moves.bind (Moves.lift _) fun context' => ?_) s
  exact Moves.pure context'

/-! ## 3. What the entry of a state puts down -/

/-- Names are put down, and no state is entered. -/
def Marked (g : Graph) (keys : List String) (s s' : Instance) : Prop :=
  ∃ notes, s'.journal = s.journal ++ notes ∧ notes.flatMap g.onceKeysAt = [] ∧
    s'.computed = markAll s.computed keys

theorem Marked.trans {keys more : List String} (h : Marked g keys s s₁) (h' : Marked g more s₁ s') :
    Marked g (keys ++ more) s s' := by
  obtain ⟨notes, hjournal, hnone, hcomputed⟩ := h
  obtain ⟨notes', hjournal', hnone', hcomputed'⟩ := h'
  refine ⟨notes ++ notes', by rw [hjournal', hjournal, List.append_assoc], ?_, ?_⟩
  · rw [List.flatMap_append, hnone, hnone', List.append_nil]
  · rw [hcomputed', hcomputed, markAll_append]

theorem marked_of_same (hjournal : s'.journal = s.journal) (hcomputed : s'.computed = s.computed) :
    Marked g [] s s' := ⟨[], by rw [hjournal, List.append_nil], rfl, hcomputed⟩

theorem marked_of_note {x : Happening} (hjournal : s'.journal = s.journal ++ [x])
    (hx : g.onceKeysAt x = []) (hcomputed : s'.computed = s.computed) : Marked g [] s s' :=
  ⟨[x], hjournal, by rw [List.flatMap_singleton, hx], hcomputed⟩

theorem Quiet.marked (h : Quiet s s') : Marked g [] s s' := by
  obtain ⟨context, world, notes, rfl, hnotes⟩ := h
  exact ⟨notes, rfl, List.flatMap_eq_nil_iff.mpr fun x hx => (hnotes x hx).1.onceKeysAt g, rfl⟩

end Instance

namespace Run

open Instance

variable {g : Graph} {α β : Type} {keys more : List String}

/-- A step puts names down, or the first of them if it fails. -/
def Marks (g : Graph) (keys : List String) (x : Run α) : Prop :=
  ∀ s, x.Comes s (fun _ s' => Marked g keys s s') fun _ s' =>
    ∃ done, done <+: keys ∧ Marked g done s s'

theorem marks_of_quiet {x : Run α} (h : Moves Quiet x) : Marks g [] x := fun s =>
  (Comes.of_moves h s).mono (fun _ _ hs => hs.marked) fun _ _ hs => ⟨[], List.prefix_rfl, hs.marked⟩

theorem Marks.get_bind {f : Instance → Run α} (h : ∀ s, Marks g keys (f s)) :
    Marks g keys (get >>= f) := fun s => h s s

theorem Marks.bind {x : Run α} {f : α → Run β} (hx : Marks g keys x)
    (hf : ∀ a, Marks g more (f a)) : Marks g (keys ++ more) (x >>= f) := by
  intro s
  refine Comes.bind ((hx s).mono (fun _ _ h => h) fun _ s' h => ?_) fun a s₁ hs₁ =>
    (hf a s₁).mono (fun _ s' h => hs₁.trans h) fun _ s' h => ?_
  · obtain ⟨done, hdone, hmarked⟩ := h
    exact ⟨done, hdone.trans (List.prefix_append _ _), hmarked⟩
  · obtain ⟨done, hdone, hmarked⟩ := h
    exact ⟨keys ++ done, (List.prefix_append_right_inj _).mpr hdone, hs₁.trans hmarked⟩

theorem Marks.bind_quiet {x : Run α} {f : α → Run β} (hx : Marks g keys x)
    (hf : ∀ a, Moves Quiet (f a)) : Marks g keys (x >>= f) := by
  have h := hx.bind fun a => marks_of_quiet (g := g) (hf a)
  rwa [List.append_nil] at h

theorem Marks.watched {x : Run α} (h : Marks g keys x) (o : Origin) : Marks g keys (watched o x) := by
  intro s
  have hx := h s
  unfold Comes at hx ⊢
  rw [exec_watched]
  rcases hrun : x.exec s with ⟨r, s'⟩
  rw [hrun] at hx
  cases r with
  | ok a => exact hx
  | error f =>
    obtain ⟨done, hdone, hmarked⟩ := hx
    refine ⟨done, hdone, ?_⟩
    have hraised : Marked g [] s' (s'.note (.raised o f)) :=
      marked_of_note (x := .raised o f) rfl rfl rfl
    have hboth := hmarked.trans hraised
    rwa [List.append_nil] at hboth

end Run

namespace Instance

open Run

variable {m : Machine} {g : Graph} {s s' s₁ : Instance}

theorem marks_computeField (n : StateNode) (e : Event) (context : Value) (f : ComputedField) :
    Marks g (n.keysOf [f]) (computeField n e context f) := by
  cases hcache : f.cache with
  | false =>
    have hnone : n.keysOf [f] = [] := by simp [StateNode.keysOf, hcache]
    rw [hnone]
    exact marks_of_quiet (quiet_computeField n hcache e context)
  | true =>
    have hone : n.keysOf [f] = [n.onceKey f] := by simp [StateNode.keysOf, hcache]
    intro s
    rw [hone, Comes, exec_computeField n hcache]
    have hmark : markAll s.computed [n.onceKey f] = mark s.computed (n.onceKey f) := rfl
    by_cases hkey : n.onceKey f ∈ s.computed
    · rw [if_pos hkey]
      exact ⟨[], (List.append_nil _).symm, rfl, by rw [hmark, mark_of_mem hkey]⟩
    · rw [if_neg hkey]
      have hquiet : Marked g [] s ((computeField n e context { f with cache := false }).exec s).2 :=
        (quiet_computeField n rfl e context s).marked
      rcases hrun : (computeField n e context { f with cache := false }).exec s with ⟨r, t⟩
      rw [hrun] at hquiet
      obtain ⟨notes, hjournal, hnone, hcomputed⟩ := hquiet
      cases r with
      | error x => exact ⟨[], List.nil_prefix, notes, hjournal, hnone, hcomputed⟩
      | ok context' =>
        refine ⟨notes, hjournal, hnone, ?_⟩
        change t.computed ++ [n.onceKey f] = _
        rw [hmark, mark_of_not_mem hkey]
        exact congrArg (· ++ [n.onceKey f]) hcomputed

theorem marks_fields (n : StateNode) (e : Event) (fields : List ComputedField) (context : Value) :
    Marks g (n.keysOf fields) (fields.foldlM (computeField n e) context) := by
  induction fields generalizing context with
  | nil => exact marks_of_quiet (Moves.pure context)
  | cons f fields ih =>
    rw [List.foldlM_cons, n.keysOf_cons]
    exact (marks_computeField n e context f).bind ih

theorem marks_entryContext (m : Machine) (n : StateNode) (e : Event) :
    Marks g n.onceKeys (entryContext m n e) := by
  unfold entryContext
  refine Marks.get_bind fun s => ?_
  have hinputs : Marks g [] (watched .store (perform (Binding.applyInputs n.inputs s.context))) :=
    marks_of_quiet (quiet_watched (by decide) (quiet_perform _))
  refine hinputs.bind fun context =>
    ((marks_fields n e n.computed context).watched .computed).bind_quiet fun context' => ?_
  split
  · exact quiet_act m e _ context'
  · exact Moves.pure context'

theorem Arms.marked {scope : Nat} {xs : List Errand} (h : Arms scope xs s s') : Marked g [] s s' := by
  obtain ⟨serial, alarms, calls, turns, rfl, -⟩ := h.frame
  refine ⟨xs.map (.armed scope), rfl, List.flatMap_eq_nil_iff.mpr fun x hx => ?_, rfl⟩
  obtain ⟨_, -, rfl⟩ := List.mem_map.mp hx
  rfl

/-- The work of a state puts nothing down, -/
theorem marks_startWork (m : Machine) (n : StateNode) (scope : Nat) (e : Event) :
    Marks g [] (startWork m n scope e) := by
  intro s
  obtain ⟨_, _, harms, _⟩ := started_startWork m n scope e s
  exact (Comes.of_after (P := fun s' => Marked g [] s s') harms.marked).mono (fun _ _ h => h)
    fun _ _ h => ⟨[], List.prefix_rfl, h⟩

/-- and its context the names of its cached fields. -/
theorem marks_prepare (m : Machine) (n : StateNode) (e : Event) :
    Marks g n.onceKeys (prepare m e n) :=
  (marks_entryContext m n e).bind_quiet fun context =>
    Moves.bind (Moves.modify (quiet_context context)) fun _ => quiet_runActions m e n.entry

/-! ## 4. What an instance puts down while it moves -/

/-- What is put down are names of fields of the states that are entered, all of them unless something
raises. -/
def Tallies (g : Graph) (s s' : Instance) : Prop :=
  ∃ notes keys, s'.journal = s.journal ++ notes ∧ s'.computed = markAll s.computed keys ∧
    keys.Sublist (notes.flatMap g.onceKeysAt) ∧ (s'.Calm → keys = notes.flatMap g.onceKeysAt)

theorem Marked.tallies (h : Marked g [] s s') : Tallies g s s' := by
  obtain ⟨notes, hjournal, hnone, hcomputed⟩ := h
  exact ⟨notes, [], hjournal, hcomputed, List.nil_sublist _, fun _ => hnone.symm⟩

theorem Tallies.trans (h : Tallies g s s₁) (h' : Tallies g s₁ s') : Tallies g s s' := by
  obtain ⟨notes, keys, hjournal, hcomputed, hsub, hall⟩ := h
  obtain ⟨notes', keys', hjournal', hcomputed', hsub', hall'⟩ := h'
  refine ⟨notes ++ notes', keys ++ keys', by rw [hjournal', hjournal, List.append_assoc], ?_, ?_, ?_⟩
  · rw [hcomputed', hcomputed, markAll_append]
  · rw [List.flatMap_append]
    exact hsub.append hsub'
  · intro hcalm
    have hcalm₁ : s₁.Calm := hcalm.of_grown (hjournal' ▸ List.prefix_append _ _)
    rw [List.flatMap_append, hall hcalm₁, hall' hcalm]

instance (g : Graph) : IsPreorder Instance (Tallies g) where
  refl _ := (marked_of_same rfl rfl).tallies
  trans _ _ _ := Tallies.trans

/-- A state is open, and some of its fields have been put down since, all of them unless something has
raised. -/
theorem Marked.tallies_entered {n : StateNode} {keys : List String} (hn : g.state n.id = .ok n)
    (h : Marked g keys (openState n.id s) s') (hkeys : keys <+: n.onceKeys)
    (hcalm : s'.Calm → keys = n.onceKeys) : Tallies g s s' := by
  obtain ⟨notes, hjournal, hnone, hcomputed⟩ := h
  have hentered : (.entered ⟨n.id, s.serial⟩ :: notes).flatMap g.onceKeysAt = n.onceKeys := by
    rw [List.flatMap_cons, hnone, List.append_nil]
    simp only [Graph.onceKeysAt, hn]
  refine ⟨.entered ⟨n.id, s.serial⟩ :: notes, keys, ?_, hcomputed, ?_, ?_⟩
  · rw [hjournal]
    exact List.append_assoc s.journal [_] notes
  · rw [hentered]
    exact hkeys.sublist
  · rw [hentered]
    exact hcalm

/-- The entry of a state puts down its fields, unless it breaks off. -/
theorem tallies_enter (e : Event) (id : String) : Moves (Tallies m.graph) (enter m e id) := by
  intro s
  cases hnode : m.graph.state id with
  | error f =>
    rw [enter, hnode]
    exact (quiet_missed f s).marked.tallies
  | ok n =>
    obtain rfl : n.id = id := Graph.state_id hnode
    rw [exec_enter e hnode]
    have hmarks := ((marks_prepare (g := m.graph) m n e).bind fun _ =>
      (marks_startWork m n s.serial e).watched .schedule) (openState n.id s)
    rw [List.append_nil] at hmarks
    -- a failure of either is on record
    have hends : (do prepare m e n; watched .schedule (startWork m n s.serial e) : Run Unit).Ends
        (openState n.id s) fun _ _ => True :=
      Ends.bind (ends_prepare m e n (openState n.id s)) fun _ _ _ =>
        Ends.watched (by decide) fun _ _ _ => trivial
    rcases (hmarks.and hends).cases with ⟨_, -, hall, -⟩ | ⟨_, -, ⟨done, hdone, hpart⟩, hraised⟩
    · exact hall.tallies_entered hnode List.prefix_rfl fun _ => rfl
    · exact hpart.tallies_entered hnode hdone fun hcalm => absurd hcalm hraised

theorem transits_tallies : Transits m (Tallies m.graph) where
  quiet _ _ h := h.marked.tallies
  state _ _ := (marked_of_same rfl rfl).tallies
  lastEvent _ _ := (marked_of_same rfl rfl).tallies
  closed id s := by
    obtain ⟨_, _, _, _, _, _, scope, h, -⟩ := closeState_frame id s
    rw [h]
    exact Marked.tallies (marked_of_note (x := .left id scope) rfl rfl rfl)
  enter := tallies_enter
  finish s := by
    obtain ⟨_, _, _, _, h, -⟩ := closeAll_frame s
    rw [finish, h]
    exact Marked.tallies (marked_of_note (x := .ended .done) rfl rfl rfl)

theorem marked_select (m : Machine) (e : Event) (s : Instance) :
    Marked g [] s ((select m e).exec s).2 := by
  obtain ⟨world, notes, h, hnotes⟩ := select_frame m e s
  refine ⟨notes, by rw [h], List.flatMap_eq_nil_iff.mpr fun x hx => ?_, by rw [h]; rfl⟩
  rcases hnotes x hx with ⟨f, rfl⟩ | ⟨f, rfl⟩ <;> rfl

theorem marked_received (scope : Nat) (e : Event) (s : Instance) :
    Marked g [] s (s.received scope e) := by
  rcases received_cases scope e s with h | h
  · rw [h]
    exact marked_of_same rfl rfl
  · rw [h]
    exact marked_of_note (x := .accepted ⟨e, some scope⟩) rfl rfl rfl

/-- **A step** puts down fields of the states that are entered, all of them unless something raises. -/
theorem Step.tallies (h : Step m s s') : Tallies m.graph s s' := by
  have hsame : ∀ t : Instance, t.journal = s.journal → t.computed = s.computed → Marked m.graph [] s t :=
    fun _ => marked_of_same
  cases h with
  | aside h =>
    cases h with
    | quiet => exact (hsame _ rfl rfl).tallies
    | told | missed => exact Marked.tallies (marked_of_note rfl rfl rfl)
  | waited | resumed | vanished | cleared => exact (hsame _ rfl rfl).tallies
  | looked e => exact (marked_select m e s).tallies
  | opened =>
    exact trans_of (Tallies m.graph) (hsame _ rfl rfl).tallies
      (transits_tallies.enterFirst { s with started := true })
  | accepted | dropped | begun | through => exact Marked.tallies (marked_of_note rfl rfl rfl)
  | @fired _ a scope type =>
    exact ((hsame { s with alarms := s.alarms.erase a } rfl rfl).trans (marked_received scope _ _)).tallies
  | @reported _ c e =>
    exact ((hsame { s with calls := s.calls.filter (·.serial ≠ c.serial) } rfl rfl).trans
      (marked_received c.scope e _)).tallies
  | processed e => exact transits_tallies.process (fun e s => (marked_select m e s).tallies) e s
  | stopped =>
    obtain ⟨_, _, _, _, h, -⟩ := closeAll_frame s
    rw [h]
    exact Marked.tallies (marked_of_note (x := .ended .stopped) rfl rfl rfl)

theorem Steps.tallies (h : Steps m s s') : Tallies m.graph s s' := by
  induction h with
  | refl => exact refl_of (Tallies m.graph) s
  | tail _ hstep ih => exact ih.trans hstep.tallies

/-- A run begins with nothing put down. -/
theorem tallies_of_reached (hs : Reached m s) : ∃ keys, s.computed = markAll [] keys ∧
    keys.Sublist (s.journal.flatMap m.graph.onceKeysAt) ∧
      (s.Calm → keys = s.journal.flatMap m.graph.onceKeysAt) := by
  obtain ⟨s₀, hfresh, hsteps⟩ := hs
  obtain ⟨notes, keys, hjournal, hcomputed, hsub, hall⟩ := hsteps.tallies
  obtain ⟨_, _, _, _, rfl⟩ := eq_of_fresh hfresh
  obtain rfl : s.journal = notes := hjournal
  exact ⟨keys, hcomputed, hsub, hall⟩

theorem mem_onceKeysAt {x : Happening} {k : String} (h : k ∈ g.onceKeysAt x) :
    ∃ d n, x = .entered d ∧ g.state d.state = .ok n ∧ k ∈ n.onceKeys := by
  cases x with
  | entered d =>
    unfold Graph.onceKeysAt at h
    dsimp only at h
    split at h
    · rename_i n hn
      exact ⟨d, n, rfl, hn, h⟩
    · cases h
  | _ => cases h

/-- What has been put down is the name of a field of a state that has been entered. -/
theorem entered_of_mem_computed (hs : Reached m s) {k : String} (hk : k ∈ s.computed) :
    ∃ d n, .entered d ∈ s.journal ∧ m.graph.state d.state = .ok n ∧ k ∈ n.onceKeys := by
  obtain ⟨keys, hcomputed, hsub, -⟩ := tallies_of_reached hs
  rw [hcomputed] at hk
  have hmem : k ∈ keys := (mem_markAll.mp hk).resolve_left List.not_mem_nil
  obtain ⟨x, hx, hkx⟩ := List.mem_flatMap.mp (hsub.subset hmem)
  obtain ⟨d, n, rfl, hn, hkn⟩ := mem_onceKeysAt hkx
  exact ⟨d, n, hx, hn, hkn⟩

/-- A name that only one state has is put down once that state has been entered. -/
theorem mem_computed_iff_entered (hs : Reached m s) (hcalm : s.Calm) {n : StateNode} {k : String}
    (hn : m.graph.state n.id = .ok n) (hk : k ∈ n.onceKeys)
    (hown : ∀ n', m.graph.state n'.id = .ok n' → k ∈ n'.onceKeys → n'.id = n.id) :
    k ∈ s.computed ↔ ∃ d, .entered d ∈ s.journal ∧ d.state = n.id := by
  constructor
  · intro hmem
    obtain ⟨d, n', hd, hn', hk'⟩ := entered_of_mem_computed hs hmem
    have hid : n'.id = d.state := Graph.state_id hn'
    exact ⟨d, hd, hid ▸ hown n' (hid ▸ hn') hk'⟩
  · rintro ⟨d, hd, hid⟩
    obtain ⟨keys, hcomputed, -, hall⟩ := tallies_of_reached hs
    rw [hcomputed, hall hcalm, mem_markAll]
    refine .inr (List.mem_flatMap.mpr ⟨_, hd, ?_⟩)
    simpa only [Graph.onceKeysAt, hid, hn] using hk

/-- **Cached fields are computed once.**  In any run no name is put down twice, or taken back, and each
is that of a field of a state that has been entered.  If nothing has raised, the names put down are
those of all cached fields of the states that have been entered, each where it occurs first; so a name
that only one state has is put down at the first entry of that state.  A name is put down exactly when
a field of that name is computed, and no field of that name is computed after.  Two fields have one
name if state and field are the same, or if they overlap at a colon. -/
theorem computed_of_reached (hs : Reached m s) :
    s.computed.Nodup ∧
      (∀ s', Steps m s s' → s.computed <+: s'.computed) ∧
      (∀ k ∈ s.computed, ∃ d n, .entered d ∈ s.journal ∧ m.graph.state d.state = .ok n ∧
        k ∈ n.onceKeys) ∧
      (s.Calm → s.computed = markAll [] (s.journal.flatMap m.graph.onceKeysAt) ∧
        ∀ n k, m.graph.state n.id = .ok n → k ∈ n.onceKeys →
          (∀ n', m.graph.state n'.id = .ok n' → k ∈ n'.onceKeys → n'.id = n.id) →
            (k ∈ s.computed ↔ ∃ d, .entered d ∈ s.journal ∧ d.state = n.id)) ∧
      (∀ (n : StateNode) (f : ComputedField) (e : Event) (context : Value) (t : Instance),
        f.cache = true → (computeField n e context f).exec t =
          if n.onceKey f ∈ t.computed then (.ok context, t)
          else marked (n.onceKey f) ((computeField n e context { f with cache := false }).exec t)) ∧
      ∀ (n n' : StateNode) (f f' : ComputedField), n.onceKey f = n'.onceKey f' ↔
        (n.id = n'.id ∧ f.field = f'.field) ∨ Overlaps n.id f.field n'.id f'.field ∨
          Overlaps n'.id f'.field n.id f.field := by
  obtain ⟨keys, hcomputed, -, hall⟩ := tallies_of_reached hs
  refine ⟨?_, ?_, ?_, ?_, ?_, ?_⟩
  · rw [hcomputed]
    exact nodup_markAll List.nodup_nil keys
  · intro s' hsteps
    obtain ⟨_, more, -, hmore, -⟩ := hsteps.tallies
    rw [hmore]
    exact prefix_markAll _ _
  · intro k hk
    exact entered_of_mem_computed hs hk
  · intro hcalm
    constructor
    · rw [hcomputed, hall hcalm]
    · intro n k hn hk hown
      exact mem_computed_iff_entered hs hcalm hn hk hown
  · intro n f e context t hcache
    exact exec_computeField n hcache e context t
  · intro n n' f f'
    exact colon_eq_iff

/-- A state that is entered again and again, with a cached field and one that is not. -/
def recurringFlow : Value :=
  .record [("initial", .text "a"), ("states", .record [
    ("a", .record [
      ("logic", .record [("computed", .list [
        .record [("field", .text "first"), ("expression", .int 1), ("cache", .bool true)],
        .record [("field", .text "latest"), ("expression", .int 1)]])]),
      ("on", .record [("AGAIN", .text "a")])])])]

/-- The state is entered twice, and its cached field computed once. -/
theorem computed_of_reached_recurring : ∃ c m s,
    Definition.compileSource (.bare {}) {} (.ofValue recurringFlow) = .ok c ∧ m.graph = c.graph ∧
      Reached m s ∧ s.Calm ∧ s.journal.flatMap m.graph.onceKeysAt = ["a:first", "a:first"] ∧
      s.computed = ["a:first"] ∧ s.computed.Nodup ∧
      s.computed = markAll [] (s.journal.flatMap m.graph.onceKeysAt) := by
  obtain ⟨c, m, s₀, hc, hm, hs, hrun⟩ := Definition.exists_played (.bare {}) {} (.ofValue recurringFlow)
    [.start, .send (.text "AGAIN")] (fun m s => s.Calm &&
      s.journal.flatMap m.graph.onceKeysAt = ["a:first", "a:first"] && s.computed = ["a:first"])
    (by decide +kernel)
  simp only [Bool.and_eq_true, decide_eq_true_eq] at hrun
  obtain ⟨⟨hcalm, htwice⟩, honce⟩ := hrun
  have hreached := reached_after (m := m) [.start, .send (.text "AGAIN")] hs
  obtain ⟨hnodup, -, -, hall, -⟩ := computed_of_reached hreached
  exact ⟨c, m, _, hc, hm, hreached, hcalm, htwice, honce, hnodup, (hall hcalm).1⟩

/-- Fields of two states that have one name. -/
def namesakeFlow : Value :=
  .record [("initial", .text "a"), ("states", .record [
    ("a", .record [
      ("logic", .record [("computed", .list [
        .record [("field", .text "b:c"), ("expression", .int 1), ("cache", .bool true)]])]),
      ("on", .record [("GO", .text "a:b")])]),
    ("a:b", .record [
      ("logic", .record [("computed", .list [
        .record [("field", .text "c"), ("expression", .int 2), ("cache", .bool true)]])])])])]

/-- A cached field that is not computed at the first entry of its state, though nothing raises: a field
of another state has its name. -/
theorem not_computed_of_namesake : ∃ c m s₀,
    Definition.compileSource (.bare {}) {} (.ofValue namesakeFlow) = .ok c ∧ m.graph = c.graph ∧
      IsFresh m s₀ ∧
      (∃ n ∈ c.graph.states, n.id = "a:b" ∧ ∃ f ∈ n.computed, f.field = "c" ∧ f.cache = true) ∧
      (after m [.start, .send (.text "GO")] s₀).Calm ∧
      (after m [.start, .send (.text "GO")] s₀).active = ["a:b"] ∧
      (after m [.start, .send (.text "GO")] s₀).context.get? "c" = none := by
  obtain ⟨c, m, s₀, hc, hm, hs, hrun⟩ := Definition.exists_played (.bare {}) {} (.ofValue namesakeFlow)
    [.start, .send (.text "GO")] (fun m s => m.graph.states.any (fun n => n.id = "a:b" &&
      n.computed.any fun f => f.field = "c" && f.cache) && s.Calm && s.active = ["a:b"] &&
      (s.context.get? "c").isNone) (by decide +kernel)
  simp only [Bool.and_eq_true, List.any_eq_true, decide_eq_true_eq, Option.isNone_iff_eq_none] at hrun
  obtain ⟨⟨⟨⟨n, hn, hid, f, hf, hfield, hcache⟩, hcalm⟩, hactive⟩, hnone⟩ := hrun
  exact ⟨c, m, s₀, hc, hm, hs, ⟨n, hm ▸ hn, hid, f, hf, hfield, hcache⟩, hcalm, hactive, hnone⟩

end Instance

end Statechart
