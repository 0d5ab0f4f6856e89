/-
# The history of the queue

Events come from the host, from listeners that are told a snapshot, from timers and from calls, and
each of them waits for its turn.  The journal holds the whole history of the queue, and one equation
carries the invariant: what has joined the queue is what has had its turn, and what is left of it.

* `Instance.inProgress`, `Instance.accepted`, `Instance.taken`: what a journal shows of events;
* `Instance.Follows`: what must have come before each thing that happens;
* `Instance.Sequenced`: journal, queue and snapshots agree between two events;
* `Instance.Apart`: what is not about events at all;
* **`Instance.Sequenced.processed`**: an event that is processed to its end keeps the sequence, and so
  do an event that joins the queue (`Instance.Sequenced.accepted`), an event that is dropped
  (`Instance.Sequenced.dropped`), the start and the end.
-/
import Statechart.Proofs.Course
import Statechart.Proofs.Scope

namespace Statechart

/-! ## 1. Events in the journal -/

namespace Happening

/-- The event that joins the queue. -/
def accepted? : Happening → Option Queued
  | accepted q => some q
  | _ => none

/-- The event whose turn comes. -/
def taken? : Happening → Option Queued
  | begun q | dropped q => some q
  | _ => none

/-- The event that is through. -/
def processed? : Happening → Option Queued
  | processed q => some q
  | _ => none

/-- The event that is being processed afterwards. -/
def progress (q? : Option Queued) : Happening → Option Queued
  | begun q => some q
  | processed _ => none
  | _ => q?

/-- What is not about events. -/
def IsOther : Happening → Prop
  | accepted _ | dropped _ | begun _ | processed _ => False
  | _ => True

/-- What is written down while an event is processed. -/
def IsInner : Happening → Prop
  | entered _ | left .. | acted _ | armed .. | raised .. | missed _ | ended _ => True
  | _ => False

/-- What else is written down between two events. -/
def IsOuter : Happening → Prop
  | told .. | raised .. | missed _ | ended _ => True
  | _ => False

variable {x : Happening}

theorem IsInner.isOther (h : x.IsInner) : x.IsOther := by
  cases x <;> first | exact h.elim | trivial

theorem IsOuter.isOther (h : x.IsOuter) : x.IsOther := by
  cases x <;> first | exact h.elim | trivial

theorem IsAlong.isInner {P : String → Prop} (h : x.IsAlong P) : x.IsInner := by
  cases x <;> first | exact h.elim | trivial

theorem IsOther.progress_eq (h : x.IsOther) (q? : Option Queued) : x.progress q? = q? := by
  cases x <;> first | exact h.elim | rfl

theorem IsOther.accepted?_eq (h : x.IsOther) : x.accepted? = none := by
  cases x <;> first | exact h.elim | rfl

theorem IsOther.taken?_eq (h : x.IsOther) : x.taken? = none := by
  cases x <;> first | exact h.elim | rfl

theorem IsOther.begun?_eq (h : x.IsOther) : x.begun? = none := by
  cases x <;> first | exact h.elim | rfl

theorem IsOther.processed?_eq (h : x.IsOther) : x.processed? = none := by
  cases x <;> first | exact h.elim | rfl

end Happening

namespace Instance

variable {journal notes : List Happening}

/-- The event that is being processed. -/
def inProgress (journal : List Happening) : Option Queued := journal.foldl Happening.progress none

/-- The events that have joined the queue, -/
def accepted (journal : List Happening) : List Queued := journal.filterMap Happening.accepted?

/-- those that have had their turn, -/
def taken (journal : List Happening) : List Queued := journal.filterMap Happening.taken?

/-- those that were not dropped then, -/
def begun (journal : List Happening) : List Queued := journal.filterMap Happening.begun?

/-- and those that are through, each in the order of the journal. -/
def processed (journal : List Happening) : List Queued := journal.filterMap Happening.processed?

theorem inProgress_concat (x : Happening) :
    inProgress (journal ++ [x]) = x.progress (inProgress journal) := by
  simp [inProgress]

theorem filterMap_concat {β : Type} (f : Happening → Option β) (x : Happening) :
    (journal ++ [x]).filterMap f = journal.filterMap f ++ (f x).toList := by
  rw [List.filterMap_append]
  cases h : f x <;> simp [h]

theorem accepted_concat (x : Happening) :
    accepted (journal ++ [x]) = accepted journal ++ x.accepted?.toList := filterMap_concat _ x

theorem taken_concat (x : Happening) :
    taken (journal ++ [x]) = taken journal ++ x.taken?.toList := filterMap_concat _ x

theorem begun_concat (x : Happening) :
    begun (journal ++ [x]) = begun journal ++ x.begun?.toList := filterMap_concat _ x

theorem processed_concat (x : Happening) :
    processed (journal ++ [x]) = processed journal ++ x.processed?.toList := filterMap_concat _ x

/-- A part of a journal that is not about events. -/
theorem inProgress_append (h : ∀ x ∈ notes, x.IsOther) :
    inProgress (journal ++ notes) = inProgress journal := by
  induction notes generalizing journal with
  | nil => rw [List.append_nil]
  | cons x notes ih =>
    rw [← List.singleton_append, ← List.append_assoc,
      ih fun y hy => h y (List.mem_cons_of_mem _ hy), inProgress_concat,
      (h x List.mem_cons_self).progress_eq]

theorem accepted_append (h : ∀ x ∈ notes, x.IsOther) :
    accepted (journal ++ notes) = accepted journal := by
  rw [accepted, List.filterMap_append,
    List.filterMap_eq_nil_iff.mpr fun x hx => (h x hx).accepted?_eq, List.append_nil, accepted]

theorem taken_append (h : ∀ x ∈ notes, x.IsOther) : taken (journal ++ notes) = taken journal := by
  rw [taken, List.filterMap_append,
    List.filterMap_eq_nil_iff.mpr fun x hx => (h x hx).taken?_eq, List.append_nil, taken]

theorem begun_append (h : ∀ x ∈ notes, x.IsOther) : begun (journal ++ notes) = begun journal := by
  rw [begun, List.filterMap_append,
    List.filterMap_eq_nil_iff.mpr fun x hx => (h x hx).begun?_eq, List.append_nil, begun]

theorem processed_append (h : ∀ x ∈ notes, x.IsOther) :
    processed (journal ++ notes) = processed journal := by
  rw [processed, List.filterMap_append,
    List.filterMap_eq_nil_iff.mpr fun x hx => (h x hx).processed?_eq, List.append_nil, processed]

theorem length_taken_le {journal' : List Happening} (h : journal <+: journal') :
    (taken journal).length ≤ (taken journal').length :=
  (h.filterMap _).length_le

/-! ## 2. Before each thing that happens -/

/-- Each thing that happens follows upon what has come before it. -/
def Throughout (F : List Happening → Happening → Prop) (journal : List Happening) : Prop :=
  ∀ before x rest, journal = before ++ x :: rest → F before x

theorem Throughout.append {F : List Happening → Happening → Prop} (h : Throughout F journal)
    (hnotes : ∀ before x rest, notes = before ++ x :: rest → F (journal ++ before) x) :
    Throughout F (journal ++ notes) := by
  intro before x rest hcut
  rcases List.append_eq_append_iff.mp hcut with ⟨more, rfl, hmore⟩ | ⟨more, hbefore, hmore⟩
  · exact hnotes more x rest hmore
  · cases more with
    | nil =>
      rw [List.append_nil] at hbefore
      have hx := hnotes [] x rest hmore.symm
      rwa [List.append_nil, hbefore] at hx
    | cons y more =>
      obtain ⟨rfl, -⟩ := List.cons.inj hmore
      exact h before x more hbefore

theorem Throughout.concat {F : List Happening → Happening → Prop} (h : Throughout F journal)
    {x : Happening} (hx : F journal x) : Throughout F (journal ++ [x]) := by
  refine h.append fun before y rest hcut => ?_
  cases before with
  | nil =>
    obtain ⟨rfl, -⟩ := List.cons.inj hcut
    rwa [List.append_nil]
  | cons z before => simp at hcut

/-- The turn of an event has come: nothing is in progress, the instance runs, and the event is the
first one accepted that has not had its turn. -/
def IsNext (before : List Happening) (q : Queued) : Prop :=
  inProgress before = none ∧ (∀ status, .ended status ∉ before) ∧
    ∃ rest, accepted before = taken before ++ q :: rest

/-- What must have come before.  Events are accepted before the end, but for certain ones; their turn
comes in the order of acceptance, and they are dropped then if their scope has been closed, and only
then.  States are entered and left, actions run and work is started for the event that is being
processed, or at the start; listeners are told in between. -/
def Follows (late : Queued → Prop) (before : List Happening) : Happening → Prop
  | .accepted q => inProgress before = none ∧ ((∀ status, .ended status ∉ before) ∨ late q)
  | .begun q => IsNext before q ∧ ∀ n id, q.scope = some n → .left id (some n) ∉ before
  | .dropped q => IsNext before q ∧ ∃ n id, q.scope = some n ∧ .left id (some n) ∈ before
  | .processed q => inProgress before = some q
  | .entered _ | .left .. | .acted _ | .armed .. => inProgress before ≠ none ∨ begun before = []
  | .told .. => inProgress before = none
  | .ended _ | .raised .. | .missed _ => True

section Follows

variable {late : Queued → Prop} {before : List Happening} {x : Happening}

theorem follows_inner (hx : x.IsInner) (h : inProgress before ≠ none ∨ begun before = []) :
    Follows late before x := by
  cases x <;> first | exact hx.elim | exact h | trivial

theorem follows_outer (hx : x.IsOuter) (h : inProgress before = none) : Follows late before x := by
  cases x <;> first | exact hx.elim | exact h | trivial

end Follows

/-- Nothing raises while an event is processed, and every failure that nobody handles can be logged. -/
structure Undisturbed (journal : List Happening) : Prop where
  calm : ∀ before o f rest, journal = before ++ .raised o f :: rest → inProgress before = none
  shown : ∀ q, .begun q ∈ journal → ¬ q.event.IsUnshown

theorem Undisturbed.of_grown {journal' : List Happening} (h : Undisturbed journal')
    (hg : journal <+: journal') : Undisturbed journal := by
  obtain ⟨more, rfl⟩ := hg
  exact ⟨fun before o f rest hcut => h.calm before o f (rest ++ more) (by simp [hcut]),
    fun q hq => h.shown q (List.mem_append_left _ hq)⟩

/-! ## 3. Between two events -/

variable {m : Machine} {g : Graph} {late : Queued → Prop} {s s' s₁ : Instance}

/-- Journal, queue and snapshots agree: nothing is in progress, and each event that was begun is
through; those accepted are those that have had their turn, those that are lost, which none is before
the end, and those in the queue; a snapshot has been published for each event, besides one at the
start, and at the stop. -/
structure Sequenced (late : Queued → Prop) (s : Instance) : Prop where
  follows : Throughout (Follows late) s.journal
  idle : inProgress s.journal = none
  through : processed s.journal = begun s.journal
  order : ∃ lost, accepted s.journal = taken s.journal ++ (lost ++ s.queue) ∧
    (s.status = .active → lost = [])
  shown : ∃ first, first <+: [none] ∧
    (s.published.filter (·.status ≠ .stopped)).map (·.event) =
      first ++ (processed s.journal).map (some ·.event.type) ∧ (s.started = false → first = [])
  fresh : s.started = false → begun s.journal = [] ∧ s.lastEvent = none

/-- Neither the queue nor what has been published changes, and all that is written down is of one
kind. -/
structure Apart (K : Happening → Prop) (s s' : Instance) : Prop where
  queue : s'.queue = s.queue
  published : s'.published = s.published
  lastEvent : s'.lastEvent = s.lastEvent
  started : s'.started = s.started
  status : s'.status = s.status ∨ s'.status ≠ .active
  noted : ∃ notes, s'.journal = s.journal ++ notes ∧ ∀ x ∈ notes, K x

theorem Apart.of_same {K : Happening → Prop} (hqueue : s'.queue = s.queue)
    (hpublished : s'.published = s.published) (hlast : s'.lastEvent = s.lastEvent)
    (hstarted : s'.started = s.started) (hstatus : s'.status = s.status)
    (hjournal : s'.journal = s.journal) : Apart K s s' :=
  ⟨hqueue, hpublished, hlast, hstarted, Or.inl hstatus, [], by rw [hjournal, List.append_nil],
    by simp⟩

theorem Along.apart {P : String → Prop} (h : Along P s s') : Apart Happening.IsInner s s' := by
  obtain ⟨notes, hjournal, hnotes, -⟩ := h.noted
  exact ⟨h.queue, h.published, h.lastEvent, h.started, Or.inl h.status, notes, hjournal,
    fun x hx => (hnotes x hx).isInner⟩

theorem status_settleAt (node : StateNode) (s : Instance) :
    (settleAt node s).status = s.status ∨ (settleAt node s).status = .done := by
  unfold settleAt
  split
  · exact Or.inr rfl
  · exact Or.inl rfl

/-- The leaf is put down after states have been entered. -/
theorem Along.apart_settleAt {P : String → Prop} (h : Along P s s₁) (node : StateNode) :
    Apart Happening.IsInner s (settleAt node s₁) := by
  obtain ⟨notes, hjournal, hnotes, -⟩ := h.noted
  have hstatus := status_settleAt node s₁
  obtain ⟨_, _, _, _, _, status, more, hframe, -, hmore⟩ := settleAt_frame node s₁
  rw [hframe] at hstatus ⊢
  refine ⟨h.queue, h.published, h.lastEvent, h.started, ?_, notes ++ more, ?_, fun x hx => ?_⟩
  · exact hstatus.imp (fun hsame => hsame.trans h.status) fun hdone => by simp_all
  · rw [← List.append_assoc, ← hjournal]
  · rcases List.mem_append.mp hx with hx | hx
    · exact (hnotes x hx).isInner
    · obtain ⟨_, rfl⟩ := hmore x hx
      trivial

theorem Course.apart (h : Course g s s') : Apart Happening.IsInner s s' := by
  cases h with
  | within h => exact h.apart
  | arrives _ _ _ h _ => exact h.apart_settleAt _

/-- No event stops an instance. -/
theorem Course.status_ne (h : Course g s s') (hs : s.status ≠ .stopped) : s'.status ≠ .stopped := by
  cases h with
  | within h => rwa [h.status]
  | arrives _ _ _ h _ =>
    rcases status_settleAt _ _ with hsame | hdone
    · rwa [hsame, h.status]
    · rw [hdone]
      decide

/-- What is not about events keeps the sequence, if it may be written down now. -/
theorem Sequenced.of_apart (hs : Sequenced late s) {K : Happening → Prop} (h : Apart K s s')
    (hK : ∀ x, K x → x.IsOther)
    (hfollows : ∀ x before, K x → inProgress before = none → begun before = begun s.journal →
      Follows late before x) : Sequenced late s' := by
  obtain ⟨hqueue, hpublished, hlast, hstarted, hstatus, notes, hjournal, hnotes⟩ := h
  have hother : ∀ x ∈ notes, x.IsOther := fun x hx => hK x (hnotes x hx)
  have hactive : s'.status = .active → s.status = .active := fun h =>
    (hstatus.resolve_right fun hended => hended h).symm.trans h
  obtain ⟨lost, horder, hlost⟩ := hs.order
  refine ⟨?_, ?_, ?_, ⟨lost, ?_, fun h => hlost (hactive h)⟩, ?_, ?_⟩
  · rw [hjournal]
    refine hs.follows.append fun before x rest hcut => ?_
    have hbefore : ∀ y ∈ before, y.IsOther := fun y hy => hother y (by simp [hcut, hy])
    exact hfollows x _ (hnotes x (by simp [hcut])) ((inProgress_append hbefore).trans hs.idle)
      (begun_append hbefore)
  · rw [hjournal, inProgress_append hother, hs.idle]
  · rw [hjournal, processed_append hother, begun_append hother, hs.through]
  · rw [hjournal, accepted_append hother, taken_append hother, hqueue, horder]
  · rw [hjournal, processed_append hother, hpublished, hstarted]
    exact hs.shown
  · rw [hjournal, begun_append hother, hstarted, hlast]
    exact hs.fresh

theorem Sequenced.of_outer (hs : Sequenced late s) (h : Apart Happening.IsOuter s s') :
    Sequenced late s' :=
  hs.of_apart h (fun _ hx => hx.isOther) fun _ _ hx hidle _ => follows_outer hx hidle

/-- Before the start nothing has been begun, so states may be entered. -/
theorem Sequenced.of_inner (hs : Sequenced late s) (hbegun : begun s.journal = [])
    (h : Apart Happening.IsInner s s') : Sequenced late s' :=
  hs.of_apart h (fun _ hx => hx.isOther) fun _ _ hx _ hsame =>
    follows_inner hx (Or.inr (hsame.trans hbegun))

theorem Recorded.running (hs : s.Recorded) (hactive : s.status = .active) :
    ∀ status, .ended status ∉ s.journal :=
  fun status hended => hs.ended status hended hactive

/-- The queue changes, but nothing is begun. -/
theorem Sequenced.of_concat (hs : Sequenced late s) {x : Happening}
    (hjournal : s'.journal = s.journal ++ [x]) (hx : Follows late s.journal x)
    (hprogress : x.progress none = none) (hbegun : x.begun? = none) (hprocessed : x.processed? = none)
    (horder : ∃ lost, Instance.accepted s'.journal = taken s'.journal ++ (lost ++ s'.queue) ∧
      (s'.status = .active → lost = []))
    (hpublished : s'.published = s.published) (hlast : s'.lastEvent = s.lastEvent)
    (hstarted : s'.started = s.started) : Sequenced late s' := by
  have hbegun' : begun s'.journal = begun s.journal := by
    rw [hjournal, begun_concat, hbegun, Option.toList_none, List.append_nil]
  have hprocessed' : Instance.processed s'.journal = Instance.processed s.journal := by
    rw [hjournal, processed_concat, hprocessed, Option.toList_none, List.append_nil]
  refine ⟨?_, ?_, ?_, horder, ?_, ?_⟩
  · rw [hjournal]
    exact hs.follows.concat hx
  · rw [hjournal, inProgress_concat, hs.idle, hprogress]
  · rw [hprocessed', hbegun', hs.through]
  · rw [hprocessed', hpublished, hstarted]
    exact hs.shown
  · rw [hbegun', hlast, hstarted]
    exact hs.fresh

/-- **An event joins the queue.** -/
theorem Sequenced.accepted (hs : Sequenced late s) {q : Queued}
    (h : (∀ status, .ended status ∉ s.journal) ∨ late q) : Sequenced late (enqueue q s) := by
  have hjournal : (enqueue q s).journal = s.journal ++ [.accepted q] := rfl
  obtain ⟨lost, horder, hlost⟩ := hs.order
  refine hs.of_concat hjournal ⟨hs.idle, h⟩ rfl rfl rfl ⟨lost, ?_, hlost⟩ rfl rfl rfl
  rw [hjournal, accepted_concat, taken_concat, horder]
  simp [Happening.accepted?, Happening.taken?, enqueue, note]

/-- After the end the queue may be cleared. -/
theorem Sequenced.cleared (hs : Sequenced late s) (hended : s.status ≠ .active) :
    Sequenced late { s with queue := [] } := by
  obtain ⟨lost, horder, -⟩ := hs.order
  exact ⟨hs.follows, hs.idle, hs.through,
    ⟨lost ++ s.queue, by rw [List.append_nil]; exact horder, fun h => absurd h hended⟩, hs.shown,
    hs.fresh⟩

/-- The first event in the queue is the next one. -/
theorem Sequenced.isNext (hs : Sequenced late s) (hrecorded : s.Recorded) {q : Queued}
    {rest : List Queued} (hqueue : s.queue = q :: rest) (hactive : s.status = .active) :
    IsNext s.journal q := by
  obtain ⟨lost, horder, hlost⟩ := hs.order
  refine ⟨hs.idle, hrecorded.running hactive, rest, ?_⟩
  rw [horder, hlost hactive, hqueue, List.nil_append]

/-- **The turn of an event comes, but its scope is closed.** -/
theorem Sequenced.dropped (hs : Sequenced late s) (hrecorded : s.Recorded)
    {q : Queued} {rest : List Queued} (hqueue : s.queue = q :: rest) (hactive : s.status = .active)
    (hleft : ∃ n id, q.scope = some n ∧ .left id (some n) ∈ s.journal) :
    Sequenced late ({ s with queue := rest }.note (.dropped q)) := by
  have hjournal : ({ s with queue := rest }.note (.dropped q)).journal = s.journal ++ [.dropped q] :=
    rfl
  obtain ⟨lost, horder, hlost⟩ := hs.order
  rw [hlost hactive, hqueue, List.nil_append] at horder
  refine hs.of_concat hjournal ⟨hs.isNext hrecorded hqueue hactive, hleft⟩ rfl rfl rfl
    ⟨[], ?_, fun _ => rfl⟩ rfl rfl rfl
  rw [hjournal, accepted_concat, taken_concat, horder]
  simp [Happening.accepted?, Happening.taken?, note]

/-- **An event is processed, and a snapshot is published.** -/
theorem Sequenced.processed (hs : Sequenced late s) (hrecorded : s.Recorded)
    (hstarted : s.started = true) {q : Queued} {rest : List Queued}
    (hqueue : s.queue = q :: rest) (hactive : s.status = .active)
    (hopen : ∀ n id, q.scope = some n → .left id (some n) ∉ s.journal)
    (h : Course g { s with
      queue := rest, lastEvent := some q.event.type, journal := s.journal ++ [.begun q] } s₁)
    (node : StateNode) :
    Sequenced late { s₁.note (.processed q) with
      published := s₁.published ++ [s₁.shownIn node] } := by
  have hnone : s₁.status ≠ .stopped := h.status_ne (by simp [hactive])
  obtain ⟨hqueue', hpublished, hlast, hstarted', -, notes, hnoted, hnotes⟩ := h.apart
  have hother : ∀ x ∈ notes, x.IsOther := fun x hx => (hnotes x hx).isOther
  have hjournal : ({ s₁.note (.processed q) with
      published := s₁.published ++ [s₁.shownIn node] } : Instance).journal =
        s.journal ++ [.begun q] ++ notes ++ [.processed q] :=
    congrArg (· ++ [Happening.processed q]) hnoted
  have hbusy : ∀ before, (∀ x ∈ before, x.IsOther) →
      inProgress (s.journal ++ [.begun q] ++ before) = some q := fun before hbefore =>
    (inProgress_append hbefore).trans (inProgress_concat _)
  obtain ⟨lost, horder, hlost⟩ := hs.order
  rw [hlost hactive, hqueue, List.nil_append] at horder
  obtain ⟨first, hfirst, hshown, -⟩ := hs.shown
  refine ⟨?_, ?_, ?_, ⟨[], ?_, fun _ => rfl⟩, ⟨first, hfirst, ?_, fun hfresh => ?_⟩, fun hfresh => ?_⟩
  · rw [hjournal]
    have hbegins : Follows late s.journal (.begun q) :=
      ⟨hs.isNext hrecorded hqueue hactive, hopen⟩
    refine ((hs.follows.concat hbegins).append fun before x rest hcut => ?_).concat
      (hbusy notes hother)
    have hbefore : ∀ y ∈ before, y.IsOther := fun y hy => hother y (by simp [hcut, hy])
    refine follows_inner (hnotes x (by simp [hcut])) (Or.inl ?_)
    rw [hbusy before hbefore]
    exact Option.some_ne_none q
  · rw [hjournal]
    exact inProgress_concat _
  · rw [hjournal, processed_concat, begun_concat, processed_append hother, begun_append hother,
      processed_concat, begun_concat, hs.through]
    simp [Happening.processed?, Happening.begun?]
  · rw [hjournal, accepted_concat, taken_concat, accepted_append hother, taken_append hother,
      accepted_concat, taken_concat, horder]
    simp [Happening.accepted?, Happening.taken?, note, hqueue']
  · rw [hjournal, processed_concat, processed_append hother, processed_concat]
    change ((s₁.published ++ [s₁.shownIn node]).filter (·.status ≠ .stopped)).map (·.event) = _
    rw [hpublished, List.filter_append, List.map_append, hshown]
    simp [Happening.processed?, shownIn, hnone, hlast]
  · exact absurd (hfresh.symm.trans (hstarted'.trans hstarted)) (by decide)
  · exact absurd (hfresh.symm.trans (hstarted'.trans hstarted)) (by decide)

/-- The snapshot of a stop is not that of an event. -/
theorem Sequenced.published (hs : Sequenced late s) {shown : Snapshot} (h : shown.status = .stopped) :
    Sequenced late { s with published := s.published ++ [shown] } := by
  refine ⟨hs.follows, hs.idle, hs.through, hs.order, ?_, hs.fresh⟩
  simpa [h] using hs.shown

theorem Sequenced.onceStarted (hs : Sequenced late s) : Sequenced late { s with started := true } := by
  obtain ⟨first, hfirst, hshown, -⟩ := hs.shown
  exact ⟨hs.follows, hs.idle, hs.through, hs.order,
    ⟨first, hfirst, hshown, fun hfresh => by cases hfresh⟩, fun hfresh => by cases hfresh⟩

/-- **The first leaf is entered, and a snapshot is published.** -/
theorem Sequenced.opened (hs : Sequenced late s) (hstarted : s.started = false)
    (h : Apart Happening.IsInner { s with started := true } s₁) (node : StateNode) :
    Sequenced late { s₁ with published := s₁.published ++ [s₁.shownIn node] } := by
  obtain ⟨hbegun, hlast⟩ := hs.fresh hstarted
  obtain ⟨first, -, hshown, hfirst⟩ := hs.shown
  rw [hfirst hstarted, hs.through, hbegun] at hshown
  obtain ⟨hfollows, hidle, hthrough, horder, -, -⟩ := hs.onceStarted.of_inner hbegun h
  obtain ⟨-, hpublished, hlast', hstarted', -, notes, hnoted, hnotes⟩ := h
  have hnone : begun s₁.journal = [] := by
    rw [hnoted, begun_append fun x hx => (hnotes x hx).isOther, hbegun]
  have hfalse : s₁.started ≠ false := by simp [hstarted']
  refine ⟨hfollows, hidle, hthrough, horder, ?_, fun hfresh => absurd hfresh hfalse⟩
  by_cases hstopped : s₁.status = .stopped
  · refine ⟨[], List.nil_prefix, ?_, fun _ => rfl⟩
    simpa [hthrough, hnone, shownIn, hstopped, hpublished] using hshown
  · refine ⟨[none], List.prefix_rfl, ?_, fun hfresh => absurd hfresh hfalse⟩
    simpa [hthrough, hnone, shownIn, hstopped, hpublished, hlast', hlast] using hshown

end Instance

end Statechart
