/-
# The names of internal events

A timer that goes off and a call that is done or has failed report it by an event, and the name of the
event is all that says which of them it is.  The name of a timer's event is put together from the delay,
the state and the place, with full stops between them, and there may be full stops and digits in the name
of a state, too.  It can be taken apart again all the same (`Compile.timerEvent_injective`).

The name of a call's event has the call's identifier in it, which may be any text, and which may be made
of the name of a state.  That no other call has it is nothing that the name shows: it is what the
compilation has checked.

* `Graph.internalEvents`: the events of all timers and calls;
* `Graph.nodup_errands`: no timer and no call belongs to two states;
* **`Definition.nodup_internalEvents`**: they are distinct, in every graph that is compiled, so each
  is that of one timer or of one call.
-/
import Statechart.Proofs.Account
import Statechart.Proofs.Compiled
import Mathlib.Data.List.Lattice
import Mathlib.Data.List.Pairwise

namespace Statechart

/-! ## 1. The errands of a graph -/

/-- Where nothing occurs twice, each member tells what it comes of. -/
theorem eq_of_mem_flatMap {α β : Type} {f : α → List β} {xs : List α} (h : (xs.flatMap f).Nodup) {x y : α}
    (hx : x ∈ xs) (hy : y ∈ xs) {b : β} (hb : b ∈ f x) (hb' : b ∈ f y) : x = y := by
  have hsymm : Std.Symm (Function.onFun List.Disjoint f) := ⟨fun _ _ => List.Disjoint.symm⟩
  by_contra hne
  exact (List.nodup_flatMap.mp h).2.forall hx hy hne hb hb'

namespace Graph

/-- The errands of all states, in order. -/
def errands (g : Graph) : List Errand := g.states.flatMap (·.errands)

/-- The events of all timers, and those that report that a call is done or has failed. -/
def internalEvents (g : Graph) : List String :=
  g.states.flatMap fun n =>
    n.after.map (·.event) ++ n.invokes.flatMap fun i => [i.doneEvent, i.errorEvent]

variable {g : Graph}

/-- They are what errands are reported by. -/
theorem internalEvents_eq : g.internalEvents = g.errands.flatMap (·.reports) := by
  rw [internalEvents, errands, List.flatMap_assoc]
  congr 1
  funext n
  rw [StateNode.errands, List.flatMap_append, List.flatMap_map, List.flatMap_map, List.map_eq_flatMap]
  rfl

/-- **No state starts what another one starts**, if the timers of a state have its name in theirs. -/
theorem nodup_errands (wf : g.WellFormed)
    (htimers : ∀ n ∈ g.states, ∃ through, Compile.AreTimers n.id through n.after) : g.errands.Nodup := by
  have hcalls := wf.invokes_distinct
  rw [List.map_flatMap] at hcalls
  have hstates := (List.pairwise_map.mp wf.distinct).and (List.nodup_flatMap.mp hcalls).2
  refine List.nodup_flatMap.mpr ⟨fun n hn => wf.nodup_errands hn, ?_⟩
  refine hstates.imp_of_mem fun {n m} hn hm ⟨hne, hdisjoint⟩ e hen hem => ?_
  cases e with
  | timer event =>
    obtain ⟨_, hn⟩ := htimers n hn
    obtain ⟨_, hm⟩ := htimers m hm
    obtain ⟨d, i, hevent⟩ := hn.exists_timerEvent _ (by simpa [StateNode.errands] using hen)
    obtain ⟨d', i', hevent'⟩ := hm.exists_timerEvent _ (by simpa [StateNode.errands] using hem)
    exact hne (Compile.timerEvent_injective (hevent.symm.trans hevent')).2.1
  | call id =>
    have hcall : id ∈ n.invokes.map (·.id) := by simpa [StateNode.errands] using hen
    have hcall' : id ∈ m.invokes.map (·.id) := by simpa [StateNode.errands] using hem
    exact hdisjoint hcall hcall'

theorem isProper_of_mem_errands (wf : g.WellFormed) {e : Errand} (he : e ∈ g.errands) : e.IsProper := by
  obtain ⟨n, hn, he⟩ := List.mem_flatMap.mp he
  exact wf.isProper_errands hn he

theorem nodup_reports (e : Errand) : e.reports.Nodup := by
  cases e with
  | timer event => exact List.nodup_singleton event
  | call id =>
    have hne : Invocation.doneEventOf id ≠ Invocation.errorEventOf id :=
      append_ne_of_head (a := 'd') (b := 'e') (by decide) (by decide) (by decide) id id
    exact List.nodup_cons.mpr ⟨List.mem_singleton.not.mpr hne, List.nodup_singleton _⟩

end Graph

/-! ## 2. Compiled graphs -/

namespace Definition

variable {registry : Registry} {config : Config} {source : FlowSource} {c : Compiled}

theorem areTimers_of_compileSource (h : compileSource registry config source = .ok c) :
    ∀ n ∈ c.graph.states, ∃ through, Compile.AreTimers n.id through n.after := by
  obtain ⟨o, ho, hg, he⟩ := run_of_compileSource h
  obtain ⟨s, -, -, hns, -, -⟩ := graph_of_run ho hg he
  intro n hn
  obtain ⟨state, _, hcompiles⟩ := exists_left_of_forall₂ hns hn
  exact hcompiles.id_eq ▸ hcompiles.timers

/-- **The internal events of a graph that is compiled are distinct**, and each is that of one timer or
of one call, in one state. -/
theorem nodup_internalEvents (h : compileSource registry config source = .ok c) :
    c.graph.internalEvents.Nodup ∧
      ∀ n ∈ c.graph.states, ∀ m ∈ c.graph.states, ∀ e ∈ n.errands, ∀ e' ∈ m.errands,
        ∀ type ∈ e.reports, type ∈ e'.reports → n = m ∧ e = e' := by
  have wf := wellFormed_graph h
  have herrands := Graph.nodup_errands wf (areTimers_of_compileSource h)
  refine ⟨?_, fun n hn m hm e he e' he' type htype htype' => ?_⟩
  · rw [Graph.internalEvents_eq]
    refine List.nodup_flatMap.mpr ⟨fun e _ => Graph.nodup_reports e, ?_⟩
    refine herrands.imp_of_mem fun {e e'} he he' hne type htype htype' => hne ?_
    exact Errand.eq_of_reports (Graph.isProper_of_mem_errands wf he)
      (Graph.isProper_of_mem_errands wf he') htype htype'
  · obtain rfl := Errand.eq_of_reports (wf.isProper_errands hn he) (wf.isProper_errands hm he') htype htype'
    exact ⟨eq_of_mem_flatMap herrands hn hm he he', rfl⟩

/-- Names with full stops and digits, and a call that is named as that of another state would be. -/
def dotted : FlowSource := .ofValue (.record [("initial", .text "a.1"),
  ("actors", .record [("nap", .record [("type", .text "timer"), ("ms", .int 5)])]),
  ("states", .record [
    ("a.1", .record [("after", .record [("1", .text "1.a"), ("10", .text "1.a")])]),
    ("1.a", .record [("after", .record [("1", .text "e")]),
      ("invoke", .list [.record [("src", .text "nap")],
        .record [("src", .text "nap"), ("id", .text "a.1:invoke[0]")]])]),
    ("e", .record [("type", .text "final")])])])

theorem nodup_internalEvents_dotted :
    ∃ c, compileSource (.bare {}) {} dotted = .ok c ∧
      c.graph.internalEvents =
        ["xflows.after.1.a.1.0", "xflows.after.10.a.1.1", "xflows.after.1.1.a.0",
          "done.invoke.1.a:invoke[0]", "error.invoke.1.a:invoke[0]",
          "done.invoke.a.1:invoke[0]", "error.invoke.a.1:invoke[0]"] ∧
      c.graph.internalEvents.Nodup ∧
        ∀ n ∈ c.graph.states, ∀ m ∈ c.graph.states, ∀ e ∈ n.errands, ∀ e' ∈ m.errands,
          ∀ type ∈ e.reports, type ∈ e'.reports → n = m ∧ e = e' := by
  have hevents : (compileSource (.bare {}) {} dotted).toOption.map (·.graph.internalEvents) =
      some ["xflows.after.1.a.1.0", "xflows.after.10.a.1.1", "xflows.after.1.1.a.0",
        "done.invoke.1.a:invoke[0]", "error.invoke.1.a:invoke[0]",
        "done.invoke.a.1:invoke[0]", "error.invoke.a.1:invoke[0]"] := by decide +kernel
  cases h : compileSource (.bare {}) {} dotted with
  | error e =>
    rw [h] at hevents
    cases hevents
  | ok c =>
    rw [h] at hevents
    exact ⟨c, rfl, Option.some.inj hevents, nodup_internalEvents h⟩

end Definition

end Statechart
