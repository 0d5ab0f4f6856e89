/-
# Transitions, specified

A transition keeps the outermost active states, leaves the others and enters the way to another leaf.
How many it keeps is computed from the paths to its source and its target; what that number means is
said here without paths: the states that lie around both are kept, for every shape of the tree.

* `Graph.WellFormed.mem_take_commonLength_iff`: the common beginning of two paths holds the states
  around both ends;
* `Instance.select_cases`: a candidate that is selected starts from the active leaf or a state around
  it;
* `Configuration.Settled`: a leaf, the states around it, and one open scope for each of them;
* **`Instance.ends_take`**: a transition from a settled configuration, in full;
* **`Instance.untargeted_take`**: a candidate without a target runs its actions, and that is all.
-/
import Statechart.Proofs.Entry
import Statechart.Proofs.Search

namespace Statechart

open Instance

/-! ## 1. The states that are kept -/

theorem length_le_commonLength {α : Type} [DecidableEq α] {pre as bs : List α} (ha : pre <+: as)
    (hb : pre <+: bs) : pre.length ≤ commonLength as bs := by
  induction pre generalizing as bs with
  | nil => exact Nat.zero_le _
  | cons x pre ih =>
    obtain ⟨as, rfl, ha'⟩ := List.cons_prefix_iff.mp ha
    obtain ⟨bs, rfl, hb'⟩ := List.cons_prefix_iff.mp hb
    simp only [commonLength, if_true, List.length_cons]
    exact Nat.succ_le_succ (ih ha' hb')

namespace Graph.WellFormed

variable {g : Graph}

/-- A state around another one has its path before that one's last step. -/
theorem pathTo_begins_dropLast (wf : g.WellFormed) {id a : String} {path pre : List String}
    (h : g.pathTo id = .ok path) (ha : g.IsAround a id) (hpre : g.pathTo a = .ok pre) :
    pre <+: path.dropLast := by
  have hbegins := wf.pathTo_begins h ((wf.mem_pathTo_iff h a).mpr (Or.inr ha)) hpre
  rw [wf.pathTo_eq_concat h, List.prefix_concat_iff] at hbegins
  refine hbegins.resolve_left fun heq => ?_
  have hlast := congrArg List.getLast? (heq.symm.trans (wf.pathTo_eq_concat hpre))
  simp only [List.getLast?_concat, Option.some.injEq] at hlast
  exact wf.not_isAround_self id (hlast ▸ ha)

/-- **The common beginning of two paths holds the states around both ends**, nothing else. -/
theorem mem_take_commonLength_iff (wf : g.WellFormed) {source target : String} {p q : List String}
    (hp : g.pathTo source = .ok p) (hq : g.pathTo target = .ok q) (a : String) :
    a ∈ p.dropLast.take (commonLength p.dropLast q.dropLast) ↔
      g.IsAround a source ∧ g.IsAround a target := by
  constructor
  · intro ha
    have ha' : a ∈ q.dropLast.take (commonLength p.dropLast q.dropLast) :=
      (commonLength_le p.dropLast q.dropLast).2 ▸ ha
    exact ⟨(wf.mem_dropLast_pathTo_iff hp a).mp (List.mem_of_mem_take ha),
      (wf.mem_dropLast_pathTo_iff hq a).mp (List.mem_of_mem_take ha')⟩
  · rintro ⟨hsource, htarget⟩
    have hmem : a ∈ p := (wf.mem_pathTo_iff hp a).mpr (Or.inr hsource)
    obtain ⟨pre, hpre⟩ := wf.exists_pathTo (wf.pathTo_subset hp hmem)
    have hp' := wf.pathTo_begins_dropLast hp hsource hpre
    have hq' := wf.pathTo_begins_dropLast hq htarget hpre
    have hkept : pre <+: p.dropLast.take (commonLength p.dropLast q.dropLast) :=
      List.prefix_take_iff.mpr ⟨hp', length_le_commonLength hp' hq'⟩
    exact hkept.subset ((wf.mem_pathTo_iff hpre a).mpr (Or.inl rfl))

/-- A path to a state begins like the path to each of its members, less the last step of that. -/
theorem take_pathTo (wf : g.WellFormed) {id a : String} {path pre : List String}
    (h : g.pathTo id = .ok path) (ha : a ∈ path) (hpre : g.pathTo a = .ok pre) {k : Nat}
    (hk : k ≤ pre.dropLast.length) : path.take k = pre.dropLast.take k := by
  obtain ⟨rest, hrest⟩ := (List.dropLast_prefix pre).trans (wf.pathTo_begins h ha hpre)
  rw [← hrest, List.take_append_of_le_length hk]

end Graph.WellFormed

/-- A candidate for an event is a candidate of its state. -/
theorem StateNode.mem_candidates (n : StateNode) {event : String} {c : Candidate}
    (hc : c ∈ n.candidatesFor event) : c ∈ n.candidates := by
  unfold candidatesFor at hc
  cases hlookup : n.transitions.lookup event with
  | none => simp [hlookup] at hc
  | some own =>
    rw [hlookup] at hc
    obtain ⟨_, _, hcut, _⟩ := List.lookup_eq_some_iff.mp hlookup
    exact List.mem_flatMap.mpr ⟨(event, own), by simp [hcut], hc⟩

namespace Instance

variable {m : Machine} {g : Graph} {s s' s₁ : Instance}

open Run

theorem keptDepth_eq {source target : String} {p q : List String}
    (hp : m.graph.pathTo source = .ok p) (hq : m.graph.pathTo target = .ok q) :
    keptDepth m source target = .ok (commonLength p.dropLast q.dropLast) := by
  simp [keptDepth, hp, hq, bind, Except.bind, pure, Except.pure]

/-! ## 2. Candidates -/

/-- **The candidates for an event** are those of a state and of the states around it. -/
theorem exists_candidatesFor (wf : m.graph.WellFormed) {id : String} (event : String)
    (h : id ∈ m.graph.ids) :
    ∃ cs, candidatesFor m id event = .ok cs ∧ ∀ c ∈ cs, m.graph.Offers id c := by
  obtain ⟨ancestors, nodes, hancestors, hnodes, hmem⟩ := wf.exists_surrounding h
  refine ⟨nodes.flatMap (·.candidatesFor event), ?_, fun c hc => ?_⟩
  · simp [candidatesFor, hancestors, hnodes, bind, Except.bind, pure, Except.pure]
  · obtain ⟨n, hn, hc⟩ := List.mem_flatMap.mp hc
    obtain ⟨hstates, hplace⟩ := (hmem n).mp hn
    exact ⟨n, hstates, hplace, n.mem_candidates hc⟩

/-- The first enabled candidate is one of them. -/
theorem firstEnabled_results (context event : Value) (cs : List Candidate) :
    (firstEnabled context event cs).Results fun c? => ∀ c, c? = some c → c ∈ cs := by
  induction cs with
  | nil => exact Act.Results.pure nofun
  | cons d cs ih =>
    have hrest : ∀ enabled : Bool,
        (if enabled = true then pure (some d) else firstEnabled context event cs : Act _).Results
          fun c? => ∀ c, c? = some c → c ∈ d :: cs := by
      intro enabled
      split
      · refine Act.Results.pure ?_
        rintro _ ⟨⟩
        exact List.mem_cons_self
      · exact ih.mono fun _ hc c heq => List.mem_cons_of_mem _ (hc c heq)
    unfold firstEnabled
    split <;> exact Act.Results.after hrest

/-- Selecting runs guards, which may leave their mark on the world. -/
theorem exec_select {e : Event} {cs : List Candidate}
    (hcs : candidatesFor m s.state e.type = .ok cs) :
    (select m e).exec s =
      match (firstEnabled s.context e.value cs).exec s.world.effects with
      | (.ok c?, effects) => (.ok c?, { s with world := { s.world with effects } })
      | (.error f, effects) => (.error f,
          { s with
            world := { s.world with effects }
            journal := s.journal ++ [.raised .guard f] }) := by
  rcases hrun : (firstEnabled s.context e.value cs).exec s.world.effects with ⟨r, effects⟩
  have hperform : (perform (firstEnabled s.context e.value cs)).exec s =
      (r, { s with world := { s.world with effects } }) := by
    simp only [exec, perform, World.perform, StateT.run, hrun]
  have hselect : (select m e).exec s =
      (watched .guard (perform (firstEnabled s.context e.value cs))).exec s := by
    rw [select, exec_get_bind, hcs]
    rfl
  rw [hselect, exec_watched, hperform]
  cases r <;> rfl

theorem select_ok {e : Event} {c? : Option Candidate}
    (h : (select m e).exec s = (.ok c?, s₁)) : ∃ world, s₁ = { s with world } := by
  cases hcs : candidatesFor m s.state e.type with
  | error f =>
    rw [select, exec_get_bind, hcs] at h
    cases h
  | ok cs =>
    rw [exec_select hcs] at h
    split at h
    · cases h
      exact ⟨_, rfl⟩
    · cases h

/-- **What selecting comes to**: nothing changes but the world and, if a guard raises, the journal. -/
theorem select_of_known (wf : m.graph.WellFormed) (e : Event) (hs : s.state ∈ m.graph.ids) :
    (∃ c? world, (select m e).exec s = (.ok c?, { s with world }) ∧
      ∀ c, c? = some c → m.graph.Offers s.state c) ∨
    ∃ f world, (select m e).exec s =
      (.error f, { s with world, journal := s.journal ++ [.raised .guard f] }) := by
  obtain ⟨cs, hcs, hall⟩ := exists_candidatesFor wf e.type hs
  rw [exec_select hcs]
  rcases hrun : (firstEnabled s.context e.value cs).exec s.world.effects with ⟨r, effects⟩
  cases r with
  | error f => exact Or.inr ⟨f, { s.world with effects }, rfl⟩
  | ok c? =>
    refine Or.inl ⟨c?, { s.world with effects }, rfl, fun c hc => ?_⟩
    subst hc
    exact hall c (firstEnabled_results _ _ cs _ _ _ hrun c rfl)

/-- A candidate that is selected starts from the active leaf or a state around it. -/
theorem select_cases (wf : m.graph.WellFormed) (e : Event)
    (hpath : m.graph.pathTo s.state = .ok s.active) :
    (∃ c? world, (select m e).exec s = (.ok c?, { s with world }) ∧
      ∀ c, c? = some c → c.source ∈ s.active ∧ ∀ t, c.target = some t → t ∈ m.graph.ids) ∨
    ∃ f world, (select m e).exec s =
      (.error f, { s with world, journal := s.journal ++ [.raised .guard f] }) := by
  refine (select_of_known wf e (wf.mem_ids_of_pathTo hpath)).imp_left ?_
  rintro ⟨c?, world, hselect, hoffers⟩
  exact ⟨c?, world, hselect, fun c hc =>
    ⟨wf.source_mem hpath (hoffers c hc), fun t ht => wf.target_mem (hoffers c hc) ht⟩⟩

end Instance

/-! ## 3. Settled configurations -/

/-- What the journal shows while the configuration stays as it is. -/
def Happening.IsQuiet : Happening → Prop
  | .acted _ | .raised .. => True
  | _ => False

/-- What the journal shows while states are left and certain others entered. -/
def Happening.IsOf (opened : List Scope) : Happening → Prop
  | .entered c => c ∈ opened
  | .left .. | .acted _ | .armed .. | .ended _ => True
  | _ => False

/-- Where an instance stands is a leaf; it and the states around it are active, outermost first; and
each of them has one open scope while the instance runs, and none once it has ended. -/
structure Configuration.Settled (g : Graph) (c : Configuration) : Prop where
  leaf : ∃ n, g.state c.state = .ok n ∧ n.kind ≠ .compound
  path : g.pathTo c.state = .ok c.active
  distinct : c.active.Nodup
  running : c.status = .active →
    c.scopes.map (·.state) = c.active ∧ c.scopes.map (·.serial) = c.live ∧ c.live.Nodup
  ended : c.status ≠ .active → c.scopes = [] ∧ c.live = []

namespace Instance

variable {m : Machine} {g : Graph} {s s' s₁ : Instance}

open Run

/-! ## 4. The end of a transition -/

/-- The leaf of a transition is put down; a final one is the end of the instance. -/
def settleAt (node : StateNode) (s : Instance) : Instance :=
  if node.isFinal then finish { s with state := node.id } else { s with state := node.id }

/-- **States are entered down to a leaf**, all but the outermost ones, which are active already. -/
theorem ends_arrive (wf : m.graph.WellFormed) (e : Event) {node : StateNode} {path : List String}
    {depth : Nat} (hnode : node ∈ m.graph.states) (hpath : m.graph.pathTo node.id = .ok path)
    (hkept : s.scopes.map (·.state) = path.take depth) :
    (arrive m e node.id depth).Ends s fun _ s' => ∃ opened s₁,
      opened.map (·.state) = path.drop depth ∧ Entered m.graph opened s s₁ ∧
        s' = settleAt node s₁ := by
  have hnodup : (s.scopes.map (·.state) ++ path.drop depth).Nodup := by
    rw [hkept, List.take_append_drop]
    exact wf.nodup_pathTo hpath
  have hids : ∀ id ∈ path.drop depth, id ∈ m.graph.ids := fun id hid =>
    wf.pathTo_subset hpath (List.mem_of_mem_drop hid)
  refine Ends.seek_bind hpath <| Ends.bind (ends_enters wf e hids hnodup) ?_
  rintro _ s₁ ⟨opened, hopened, hentered⟩
  refine Ends.modify_bind <| Ends.seek_bind (wf.state_of_mem hnode) ?_
  refine Ends.of_ok (show _ = (Except.ok (), settleAt node s₁) from ?_)
    ⟨opened, s₁, hopened, hentered, rfl⟩
  unfold settleAt
  split <;> rfl

theorem settleAt_of_not_final {node : StateNode} (h : node.isFinal = false) (s : Instance) :
    settleAt node s = { s with state := node.id } := by
  simp [settleAt, h]

/-- Once the scopes of all active states are closed, none is open any more. -/
theorem closeAll_less (hlive : s.live = s.scopes.map (·.serial)) :
    ∃ alarms calls turns,
      s.closeAll = { s with live := [], scopes := [], alarms, calls, turns } ∧
        alarms.Sublist s.alarms ∧ calls.Sublist s.calls ∧ s.turns <+: turns := by
  obtain ⟨live, alarms, calls, turns, hclose, -, hless⟩ := closeAll_frame s
  have hnone : s.closeAll.live = [] := by
    show (s.scopes.foldl (fun s c => s.closeScope c.serial) s).live = []
    rw [live_closeScopes, List.filter_eq_nil_iff]
    intro n hn hall
    obtain ⟨c, hc, rfl⟩ := List.mem_map.mp (hlive ▸ hn : n ∈ s.scopes.map (·.serial))
    exact absurd rfl (of_decide_eq_true (List.all_eq_true.mp hall c hc))
  obtain rfl : live = [] := by rwa [hclose] at hnone
  exact ⟨alarms, calls, turns, hclose, hless⟩

/-- A final leaf ends the instance: no scope stays open, and there is less work than before. -/
theorem settleAt_of_final {node : StateNode} (h : node.isFinal = true)
    (hlive : s.live = s.scopes.map (·.serial)) :
    ∃ alarms calls turns, settleAt node s =
        { s with
          alarms, calls, turns, state := node.id, scopes := [], live := [], status := .done
          journal := s.journal ++ [.ended .done] } ∧
      alarms.Sublist s.alarms ∧ calls.Sublist s.calls ∧ s.turns <+: turns := by
  obtain ⟨alarms, calls, turns, hclose, hless⟩ :=
    closeAll_less (s := { s with state := node.id }) hlive
  refine ⟨alarms, calls, turns, ?_, hless⟩
  simp only [settleAt, h, if_true, finish, note]
  rw [hclose]

/-- What putting down a leaf changes at most. -/
theorem settleAt_frame (node : StateNode) (s : Instance) :
    ∃ live alarms calls turns scopes status notes, settleAt node s =
        { s with
          live, alarms, calls, turns, scopes, status, state := node.id
          journal := s.journal ++ notes } ∧
      (node.isFinal = true → status ≠ .active) ∧ ∀ x ∈ notes, ∃ status, x = .ended status := by
  cases hfinal : node.isFinal with
  | false =>
    exact ⟨s.live, s.alarms, s.calls, s.turns, s.scopes, s.status, [],
      by simp [settleAt_of_not_final hfinal], fun h => absurd h (by decide), by simp⟩
  | true =>
    obtain ⟨live, alarms, calls, turns, hclose, -⟩ := closeAll_frame { s with state := node.id }
    refine ⟨live, alarms, calls, turns, [], .done, [.ended .done], ?_, fun _ => by decide,
      by simp⟩
    simp only [settleAt, hfinal, if_true, finish, note]
    rw [hclose]

/-- A leaf is active, and the states around it: some were so before, the others have been entered. -/
structure Arrival (g : Graph) (node : StateNode) (kept opened : List Scope) (s s' : Instance) :
    Prop where
  leaf_mem : node ∈ g.states
  leaf_kind : node.kind ≠ .compound
  path : g.pathTo node.id = .ok (kept.map (·.state) ++ opened.map (·.state))
  state : s'.state = node.id
  active : s'.active = kept.map (·.state) ++ opened.map (·.state)
  fresh : ∀ d ∈ opened, s.serial ≤ d.serial
  noted : ∃ notes, s'.journal = s.journal ++ notes ∧ ∀ x ∈ notes, x.IsOf opened
  running : node.isFinal = false →
    s'.status = s.status ∧ s'.scopes = kept ++ opened ∧ s'.live = (kept ++ opened).map (·.serial)
  ended : node.isFinal = true → s'.status = .done ∧ s'.scopes = [] ∧ s'.live = []

theorem isOf_entryNotes {opened : List Scope} {x : Happening}
    (hx : x ∈ opened.flatMap g.entryNotes) : x.IsOf opened := by
  obtain ⟨c, hc, hx⟩ := List.mem_flatMap.mp hx
  unfold Graph.entryNotes at hx
  cases hstate : g.state? c.state with
  | none => simp [hstate] at hx
  | some n =>
    have hid : n.id = c.state := by simpa using List.find?_some hstate
    simp only [hstate, Option.map_some, Option.getD_some, StateNode.entryNotes, List.cons_append,
      List.mem_cons, List.mem_append, List.mem_map, hid] at hx
    rcases hx with rfl | ⟨a, -, rfl⟩ | ⟨e, -, rfl⟩
    · exact hc
    · trivial
    · trivial

theorem isOf_exitNotes {opened gone : List Scope} {x : Happening}
    (hx : x ∈ gone.flatMap g.exitNotes) : x.IsOf opened := by
  obtain ⟨c, -, hx⟩ := List.mem_flatMap.mp hx
  unfold Graph.exitNotes at hx
  cases hstate : g.state? c.state with
  | none => simp [hstate] at hx
  | some n =>
    simp only [hstate, Option.map_some, Option.getD_some, StateNode.exitNotes, List.mem_cons,
      List.mem_map] at hx
    rcases hx with rfl | ⟨a, -, rfl⟩ <;> trivial

/-- Putting down the leaf completes an arrival. -/
theorem arrival_settleAt {node : StateNode} {kept opened : List Scope}
    (hnode : node ∈ g.states) (hkind : node.kind ≠ .compound)
    (hpath : g.pathTo node.id = .ok (kept.map (·.state) ++ opened.map (·.state)))
    (hactive : s₁.active = kept.map (·.state) ++ opened.map (·.state))
    (hscopes : s₁.scopes = kept ++ opened) (hlive : s₁.live = (kept ++ opened).map (·.serial))
    (hstatus : s₁.status = s.status) (hfresh : ∀ d ∈ opened, s.serial ≤ d.serial)
    (hnoted : ∃ notes, s₁.journal = s.journal ++ notes ∧ ∀ x ∈ notes, x.IsOf opened) :
    Arrival g node kept opened s (settleAt node s₁) := by
  obtain ⟨notes, hjournal, hnotes⟩ := hnoted
  cases hfinal : node.isFinal with
  | false =>
    rw [settleAt_of_not_final hfinal]
    exact ⟨hnode, hkind, hpath, rfl, hactive, hfresh, ⟨notes, hjournal, hnotes⟩,
      fun _ => ⟨hstatus, hscopes, hlive⟩, fun h => absurd (hfinal.symm.trans h) (by decide)⟩
  | true =>
    obtain ⟨alarms, calls, turns, hend, -⟩ :=
      settleAt_of_final hfinal (hlive.trans (by rw [hscopes]))
    rw [hend]
    refine ⟨hnode, hkind, hpath, rfl, hactive, hfresh, ⟨notes ++ [.ended .done], ?_, ?_⟩,
      fun h => absurd (hfinal.symm.trans h) (by decide), fun _ => ⟨rfl, rfl, rfl⟩⟩
    · rw [hjournal, List.append_assoc]
    · intro x hx
      rcases List.mem_append.mp hx with hx | hx
      · exact hnotes x hx
      · exact (List.mem_singleton.mp hx) ▸ trivial

/-! ## 5. Transitions -/

/-- A transition to a target, in full: what is kept, what is left and what is entered, how the
journal shows it, and what becomes of the work. -/
structure Transition (g : Graph) (c : Candidate) (target : String) (node : StateNode)
    (kept gone opened : List Scope) (s s' : Instance) : Prop extends
    Arrival g node kept opened s s' where
  leaf_eq : g.leafFor target = .ok node.id
  scopes : s.scopes = kept ++ gone
  /-- The states around both source and target are kept, and no others. -/
  kept_iff : ∀ a, a ∈ kept.map (·.state) ↔ g.IsAround a c.source ∧ g.IsAround a target
  /-- First the exits, innermost first; then the actions; then the entries, outermost first. -/
  journal : s'.journal = s.journal ++ gone.reverse.flatMap g.exitNotes ++ c.actions.map .acted ++
    opened.flatMap g.entryNotes ++ (if node.isFinal then [.ended .done] else [])
  givenUp : ∀ d ∈ gone, GivenUp d.serial s s'
  sameWork : node.isFinal = false → ∀ d ∈ kept, SameWork d.serial s s'

/-- What exits, actions and entries come to, one after the other, before the leaf is put down. -/
structure Passage (g : Graph) (actions : List BoundAction) (kept gone opened : List Scope)
    (s s' : Instance) : Prop where
  status : s'.status = s.status
  active : s'.active = kept.map (·.state) ++ opened.map (·.state)
  scopes : s'.scopes = kept ++ opened
  live : s'.live = (kept ++ opened).map (·.serial)
  journal : s'.journal = s.journal ++ gone.reverse.flatMap g.exitNotes ++ actions.map .acted ++
    opened.flatMap g.entryNotes
  fresh : ∀ d ∈ opened, s.serial ≤ d.serial
  givenUp : ∀ d ∈ gone, GivenUp d.serial s s'
  sameWork : ∀ d ∈ kept, SameWork d.serial s s'

section Passage

variable {actions : List BoundAction} {kept gone opened : List Scope} {s₂ s₃ : Instance}

theorem passage_of_parts (hscopes : s.scopes = kept ++ gone)
    (hactive : s.active = s.scopes.map (·.state)) (hlive : s.live = s.scopes.map (·.serial))
    (hs : s.Numbered) (hleft : Left g gone s s₁) (hacted : Noted (actions.map .acted) s₁ s₂)
    (hentered : Entered g opened s₂ s₃) : Passage g actions kept gone opened s s₃ := by
  obtain ⟨hscopes₁, hactive₁, hlive₁⟩ := hleft.stays_kept hscopes hactive hlive
  have hdistinct : ∀ d ∈ kept, d.serial ∉ gone.map (·.serial) := by
    intro d hd hmem
    have hnodup := hs.live_nodup
    rw [hlive, hscopes, List.map_append] at hnodup
    exact (List.nodup_append.mp hnodup).2.2 _ (List.mem_map.mpr ⟨d, hd, rfl⟩) _ hmem rfl
  have hserial : ∀ d ∈ s.scopes, d.serial < s₂.serial := by
    intro d hd
    obtain ⟨_, _, _, rfl⟩ := hacted
    exact hleft.serial ▸ hs.scope_lt d hd
  have hgivenUp : ∀ d ∈ gone, GivenUp d.serial s s₃ := fun d hd =>
    ((hleft.givenUp d.serial (List.mem_map.mpr ⟨d, hd, rfl⟩)).trans_same
      (hacted.sameWork d.serial)).trans_same
        (hentered.work d.serial (hserial d (hscopes ▸ List.mem_append_right _ hd)))
  have hsame : ∀ d ∈ kept, SameWork d.serial s s₃ := fun d hd =>
    ((hleft.work d.serial (hdistinct d hd)).trans (hacted.sameWork d.serial)).trans
      (hentered.work d.serial (hserial d (hscopes ▸ List.mem_append_left _ hd)))
  obtain ⟨_, _, _, rfl⟩ := hacted
  refine ⟨hentered.status.trans hleft.status, ?_, ?_, ?_, ?_,
    fun d hd => hleft.serial ▸ hentered.fresh d hd, hgivenUp, hsame⟩
  · rw [hentered.active, ← hactive₁]
  · rw [hentered.scopes, ← hscopes₁]
  · rw [hentered.live, List.map_append, ← hlive₁]
  · rw [hentered.journal, ← hleft.journal]

theorem Passage.noted (h : Passage g actions kept gone opened s s₃) :
    ∃ notes, s₃.journal = s.journal ++ notes ∧ ∀ x ∈ notes, x.IsOf opened := by
  refine ⟨gone.reverse.flatMap g.exitNotes ++ actions.map .acted ++ opened.flatMap g.entryNotes,
    by rw [h.journal]; simp, fun x hx => ?_⟩
  simp only [List.mem_append, List.mem_map] at hx
  rcases hx with (hx | ⟨a, -, rfl⟩) | hx
  · exact isOf_exitNotes hx
  · trivial
  · exact isOf_entryNotes hx

/-- **Putting down the leaf completes a transition**: it takes work, and gives none. -/
theorem Passage.transition {c : Candidate} {target : String} {node : StateNode}
    (h : Passage g c.actions kept gone opened s s₃) (hnode : node ∈ g.states)
    (hkind : node.kind ≠ .compound) (hleaf : g.leafFor target = .ok node.id)
    (hpath : g.pathTo node.id = .ok (kept.map (·.state) ++ opened.map (·.state)))
    (hscopes : s.scopes = kept ++ gone)
    (hkept : ∀ a, a ∈ kept.map (·.state) ↔ g.IsAround a c.source ∧ g.IsAround a target) :
    Transition g c target node kept gone opened s (settleAt node s₃) := by
  have harrival : Arrival g node kept opened s (settleAt node s₃) :=
    arrival_settleAt hnode hkind hpath h.active h.scopes h.live h.status h.fresh h.noted
  cases hfinal : node.isFinal with
  | false =>
    have hput := settleAt_of_not_final hfinal s₃
    refine ⟨harrival, hleaf, hscopes, hkept, ?_, fun d hd => ?_, fun _ d hd => ?_⟩
    · simpa [hput, hfinal] using h.journal
    · rw [hput]
      exact (h.givenUp d hd).of_less (.refl _) (.refl _) List.prefix_rfl
    · rw [hput]
      exact (h.sameWork d hd).trans ⟨rfl, rfl, fun _ _ => rfl, List.prefix_rfl⟩
  | true =>
    obtain ⟨alarms, calls, turns, hput, halarms, hcalls, hturns⟩ :=
      settleAt_of_final hfinal (h.live.trans (by rw [h.scopes]))
    refine ⟨harrival, hleaf, hscopes, hkept, ?_, fun d hd => ?_,
      fun hnot => absurd (hfinal.symm.trans hnot) (by decide)⟩
    · simp [hput, hfinal, h.journal]
    · rw [hput]
      exact (h.givenUp d hd).of_less halarms hcalls hturns

end Passage

/-- **How many of the active states are kept**: they are the first ones of the new path as well, never
all of it, and the states around both source and target. -/
theorem exists_keptDepth (wf : m.graph.WellFormed) {source target : String} {old new : List String}
    {leaf leaf' : String} (hold : m.graph.pathTo leaf = .ok old)
    (hnew : m.graph.pathTo leaf' = .ok new) (hsource : source ∈ old) (htarget : target ∈ new) :
    ∃ k, keptDepth m source target = .ok k ∧ k < new.length ∧ old.take k = new.take k ∧
      ∀ a, a ∈ new.take k ↔ m.graph.IsAround a source ∧ m.graph.IsAround a target := by
  obtain ⟨p, hp⟩ := wf.exists_pathTo (wf.pathTo_subset hold hsource)
  obtain ⟨q, hq⟩ := wf.exists_pathTo (wf.pathTo_subset hnew htarget)
  obtain ⟨hle, htake⟩ := commonLength_le p.dropLast q.dropLast
  have hle' : commonLength p.dropLast q.dropLast ≤ q.dropLast.length := by
    have hlength := congrArg List.length htake
    simp only [List.length_take] at hlength
    omega
  have hold' := wf.take_pathTo hold hsource hp hle
  have hnew' := wf.take_pathTo hnew htarget hq hle'
  refine ⟨_, keptDepth_eq hp hq, ?_, by rw [hold', htake, hnew'], fun a => ?_⟩
  · have hlength := (wf.pathTo_begins hnew htarget hq).length_le
    rw [wf.pathTo_eq_concat hq, List.length_append, List.length_singleton] at hlength
    omega
  · rw [hnew', ← htake]
    exact wf.mem_take_commonLength_iff hp hq a

/-- **Taking a candidate with a target.**  From a settled configuration the transition comes to its
end, unless something raises. -/
theorem ends_take (wf : m.graph.WellFormed) (e : Event) {c : Candidate} {target : String}
    (hsettled : s.configuration.Settled m.graph) (hactive : s.status = .active) (hs : s.Numbered)
    (hsource : c.source ∈ s.active) (htarget : c.target = some target)
    (hmem : target ∈ m.graph.ids) :
    (take m e c).Ends s fun _ s' => ∃ node kept gone opened,
      Transition m.graph c target node kept gone opened s s' := by
  obtain ⟨hstates, hlive, -⟩ := hsettled.running hactive
  have hstates : s.scopes.map (·.state) = s.active := hstates
  have hold : m.graph.pathTo s.state = .ok s.active := hsettled.path
  obtain ⟨node, hnode, hleaf, hkind, -, hplace⟩ := wf.exists_leafFor hmem
  obtain ⟨path, hnew⟩ := wf.exists_pathTo (List.mem_map.mpr ⟨node, hnode, rfl⟩)
  obtain ⟨k, hdepth, -, hsame, haround⟩ := exists_keptDepth wf hold hnew hsource
    ((wf.mem_pathTo_iff hnew target).mpr hplace)
  have hcut : s.scopes = s.scopes.take k ++ s.scopes.drop k := (List.take_append_drop k _).symm
  have hkept : (s.scopes.take k).map (·.state) = path.take k := by
    rw [List.map_take, hstates, hsame]
  have hgone : (s.scopes.drop k).map (·.state) = s.active.drop k := by
    rw [List.map_drop, hstates]
  have hids : ∀ d ∈ s.scopes.drop k, ∃ n, m.graph.state d.state = .ok n := by
    intro d hd
    have hactive' : d.state ∈ s.active :=
      List.mem_of_mem_drop (hgone ▸ List.mem_map.mpr ⟨d, hd, rfl⟩)
    obtain ⟨n, -, -, hn⟩ := wf.exists_state (wf.pathTo_subset hold hactive')
    exact ⟨n, hn⟩
  simp only [take, htarget]
  refine Ends.seek_bind hleaf <| Ends.seek_bind hdepth <| Ends.get_bind ?_
  rw [← hgone]
  -- first the exits, then the actions, then the entries
  refine Ends.bind (ends_leaves e hs hids hcut hstates.symm hlive.symm hsettled.distinct) ?_
  rintro _ s₁ ⟨hleft, -⟩
  refine Ends.bind (ends_runActions m e c.actions s₁) fun _ s₂ hacted => ?_
  have hscopes₂ : s₂.scopes = s.scopes.take k := by
    obtain ⟨_, _, _, rfl⟩ := hacted
    exact (hleft.stays_kept hcut hstates.symm hlive.symm).1
  refine (ends_arrive wf e hnode hnew (by rw [hscopes₂, hkept])).mono ?_
  rintro _ s' ⟨opened, s₃, hopened, hentered, rfl⟩
  have hpassage := passage_of_parts hcut hstates.symm hlive.symm hs hleft hacted hentered
  refine ⟨node, s.scopes.take k, s.scopes.drop k, opened,
    hpassage.transition hnode hkind hleaf ?_ hcut ?_⟩
  · rw [hkept, hopened, List.take_append_drop]
    exact hnew
  · rw [hkept]
    exact haround

/-- Actions run, or the first of them do, and nothing changes but the context. -/
def OnlyActed (actions : List BoundAction) (s s' : Instance) : Prop :=
  ∃ context world notes, s' = { s with context, world, journal := s.journal ++ notes } ∧
    ∀ x ∈ notes, (∃ a ∈ actions, x = .acted a) ∨ ∃ f, x = .raised .action f

instance (actions : List BoundAction) : IsPreorder Instance (OnlyActed actions) where
  refl s := ⟨s.context, s.world, [], by simp, by simp⟩
  trans s s₁ s₂ := by
    rintro ⟨_, _, notes, rfl, hnotes⟩ ⟨context, world, notes', rfl, hnotes'⟩
    refine ⟨context, world, notes ++ notes', by simp, fun x hx => ?_⟩
    exact (List.mem_append.mp hx).elim (hnotes x) (hnotes' x)

/-- **Taking a candidate without a target** changes only the context, whatever raises on the way. -/
theorem untargeted_take (e : Event) {c : Candidate} (htarget : c.target = none) :
    Moves (OnlyActed c.actions) (take m e c) := by
  have hact : ∀ a ∈ c.actions, ∀ context, Moves (OnlyActed c.actions) (act m e a context) := by
    intro a ha context
    refine Moves.bind (Moves.note fun s => ⟨s.context, s.world, [.acted a], rfl, ?_⟩) fun _ =>
      Moves.watched (Moves.perform fun s world => ⟨s.context, world, [], by simp, by simp⟩)
        fun f s => ⟨s.context, s.world, [.raised .action f], rfl, ?_⟩
    · exact fun x hx => Or.inl ⟨a, ha, List.mem_singleton.mp hx⟩
    · exact fun x hx => Or.inr ⟨f, List.mem_singleton.mp hx⟩
  simp only [take, htarget]
  refine Moves.forM fun a ha => Moves.get_bind fun s => ?_
  exact Moves.bind (hact a ha s.context) (fun context =>
    Moves.modify fun s => ⟨context, s.world, [], by simp, by simp⟩) s

/-- It does so in full unless something raises. -/
theorem ends_untargeted (e : Event) {c : Candidate} (htarget : c.target = none) (s : Instance) :
    (take m e c).Ends s fun _ s' => Noted (c.actions.map .acted) s s' := by
  simp only [take, htarget]
  exact ends_runActions m e c.actions s

/-! ## 6. Processing an event -/

/-- The configuration stays as it is, and so does all work. -/
def Stays (s s' : Instance) : Prop :=
  ∃ context world lastEvent notes,
    s' = { s with context, world, lastEvent, journal := s.journal ++ notes } ∧
      ∀ x ∈ notes, x.IsQuiet

instance : IsPreorder Instance Stays where
  refl s := ⟨s.context, s.world, s.lastEvent, [], by simp, by simp⟩
  trans s s₁ s₂ := by
    rintro ⟨_, _, _, notes, rfl, hnotes⟩ ⟨context, world, lastEvent, notes', rfl, hnotes'⟩
    refine ⟨context, world, lastEvent, notes ++ notes', by simp, fun x hx => ?_⟩
    exact (List.mem_append.mp hx).elim (hnotes x) (hnotes' x)

theorem stays_world (s : Instance) (world : World) : Stays s { s with world } :=
  ⟨s.context, world, s.lastEvent, [], by simp, by simp⟩

theorem OnlyActed.stays {actions : List BoundAction} (h : OnlyActed actions s s') : Stays s s' := by
  obtain ⟨context, world, notes, rfl, hnotes⟩ := h
  refine ⟨context, world, s.lastEvent, notes, rfl, fun x hx => ?_⟩
  rcases hnotes x hx with ⟨a, -, rfl⟩ | ⟨f, rfl⟩ <;> trivial

theorem process_of_selected {e : Event} {c : Candidate}
    (h : (select m e).exec { s with lastEvent := some e.type } = (.ok (some c), s₁)) :
    (process m e).exec s = (take m e c).exec s₁ := by
  rw [process, exec_bind_ok (exec_modify _ s), exec_bind_ok h]

/-- **Processing an event** in a settled configuration leaves the configuration as it is or is a
transition, unless something raises on the way; a guard that raises leaves it as it is. -/
theorem comes_process (wf : m.graph.WellFormed) (e : Event)
    (hsettled : s.configuration.Settled m.graph) (hactive : s.status = .active) (hs : s.Numbered) :
    (process m e).Comes s
      (fun _ s' => Stays s s' ∨ ∃ lastEvent world c target node kept gone opened,
        Transition m.graph c target node kept gone opened { s with lastEvent, world } s')
      fun _ s' => Stays s s' ∨ ¬ s'.Calm := by
  rcases select_cases (s := { s with lastEvent := some e.type }) wf e hsettled.path with
      ⟨c?, world, hselect, hcandidate⟩ | ⟨f, world, hselect⟩
  · have hselected : Stays s { s with lastEvent := some e.type, world } :=
      ⟨s.context, world, some e.type, [], by simp, by simp⟩
    cases c? with
    | none =>
      have hrest : Moves Stays (if e.type.startsWith "error.invoke." then do
          let state := (← get).state
          let data ← Run.lift (liftData (e.value.getD "data").shown)
          Run.perform (Act.say .warning .runtime
            ("Unhandled invoke failure in '" ++ state ++ "': " ++ data))
          else Pure.pure () : Run Unit) := by
        split
        · exact Moves.get_bind fun s => Moves.bind (Moves.lift _)
            (fun _ => Moves.perform fun s world => stays_world s world) s
        · exact Moves.pure ()
      refine Comes.of_exec ?_ ((Comes.of_moves hrest _).mono
        (fun _ _ h => Or.inl (trans_of Stays hselected h))
        fun _ _ h => Or.inl (trans_of Stays hselected h))
      rw [process, exec_bind_ok (exec_modify _ s), exec_bind_ok hselect]
    | some c =>
      obtain ⟨hsource, hmem⟩ := hcandidate c rfl
      refine Comes.of_exec (process_of_selected hselect) ?_
      cases htarget : c.target with
      | none =>
        exact (Comes.of_moves (untargeted_take e htarget) _).mono
          (fun _ _ h => Or.inl (trans_of Stays hselected h.stays))
          fun _ _ h => Or.inl (trans_of Stays hselected h.stays)
      | some target =>
        have htake := ends_take (s := { s with lastEvent := some e.type, world }) wf e
          ⟨hsettled.leaf, hsettled.path, hsettled.distinct, hsettled.running, hsettled.ended⟩ hactive
          ⟨hs.live_lt, hs.live_nodup, hs.scope_lt, hs.call_lt, hs.calls_nodup⟩ hsource htarget
          (hmem target htarget)
        refine Comes.mono htake (fun _ s' ⟨node, kept, gone, opened, htransition⟩ => ?_)
          fun _ _ h => Or.inr h
        exact Or.inr ⟨_, _, c, target, node, kept, gone, opened, htransition⟩
  · refine Comes.of_error (f := f) ?_ (Or.inl ⟨s.context, world, some e.type, [.raised .guard f],
      rfl, fun x hx => (List.mem_singleton.mp hx) ▸ trivial⟩)
    rw [process, exec_bind_ok (exec_modify _ s), exec_bind_error hselect]

/-- What processing an event comes to if nothing has raised. -/
theorem process_cases (wf : m.graph.WellFormed) (e : Event)
    (hsettled : s.configuration.Settled m.graph) (hactive : s.status = .active) (hs : s.Numbered)
    (hcalm : ((process m e).exec s).2.Calm) :
    Stays s ((process m e).exec s).2 ∨
      ∃ lastEvent world c target node kept gone opened,
        Transition m.graph c target node kept gone opened { s with lastEvent, world }
          ((process m e).exec s).2 := by
  rcases (comes_process wf e hsettled hactive hs).cases with ⟨_, -, h⟩ | ⟨_, -, h | h⟩
  · exact h
  · exact Or.inl h
  · exact absurd hcalm h

end Instance

end Statechart
