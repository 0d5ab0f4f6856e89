/-
# What an assignment writes is seen

An assignment is told its place by a text.  It takes the scope off the text and writes inside the context;
whether it may write at all is decided by the text with its scope written out; and whoever reads the place
later, an expression or a guard, takes the scope off once more.  All of them come to the same place.

* `splitScope_of_writable`: a text that may be written to names a place inside the context;
* `Value.Shows`: whoever reads a text finds a value;
* **`BoundAction.shown_of_assign`**: an assignment shows what the event carries, but for null as the whole
  context, which leaves the context as it was.
-/
import Statechart.Proofs.Declared
import Statechart.Proofs.Deposit
import Statechart.Proofs.Reads
import Statechart.Proofs.Spelling

namespace Statechart

/-! ## 1. Places and their readers -/

/-- A text that may be written to names something inside the context. -/
theorem splitScope_of_writable {s : String} (h : beginsWith "context." (qualified s) = true) :
    ∃ rest, rest ≠ "" ∧ splitScope s = (.context, rest) := by
  rcases hsplit : splitScope s with ⟨scope, rest⟩
  rw [qualified, hsplit] at h
  by_cases hrest : rest = ""
  · cases scope <;> simp [hrest, beginsWith, DataScope.label] at h
  · cases scope with
    | context => exact ⟨rest, hrest, rfl⟩
    | event => simp [hrest, beginsWith, DataScope.label] at h

/-- A text names the context as a whole: no segment is left of it inside the context. -/
def NamesWhole (s : String) : Prop := Path.parse (splitScope s).2 = .ok []

/-- Whoever reads a text in a context finds a value: an expression, and a guard on the field. -/
structure Value.Shows (context : Value) (s : String) (v : Value) : Prop where
  evaluated : ∀ event, evaluate (.record [("var", .text s)]) context event = .ok v
  looked_up : ∀ event, lookupScoped (qualified s) context event = .ok v
  tested : ∀ name check literal event,
    (Guard.field name check (qualified s) literal).test context event = liftData (check.holds v literal)

/-- What is at the place that a text names is shown. -/
theorem Value.shows_of_atTextD {context v : Value} {s rest : String} (hsplit : splitScope s = (.context, rest))
    (hrest : rest ≠ "") (h : context.atTextD rest = .ok v) : context.Shows s v := by
  have hs : s ≠ "" := by
    rintro rfl
    exact hrest (congrArg Prod.snd hsplit).symm
  have hfound (event : Value) : lookupScoped s context event = .ok v := by
    rw [lookupScoped, hsplit]
    exact h
  have hqualified (event : Value) : lookupScoped (qualified s) context event = .ok v := by
    rw [lookupScoped, qualified_of_splitScope hsplit hrest, splitScope_below]
    exact h
  refine ⟨fun event => ?_, hqualified, fun name check literal event => ?_⟩
  · have hvar : meaning (.record [("var", .text s)]) (.flow context event) = .ok v := by
      have hread : (Data.flow context event).lookup s = .ok v := by
        rw [Data.lookup, hfound]
        rfl
      have hkey : Operator.ofKey? (.text "var") = some .var := rfl
      have hpath : meaning (.text s) = fun _ => .ok (.text s) := meaning_literal trivial
      rw [Value.record, List.map_singleton, meaning_apply]
      simp only [Meaning.applyNamed, hkey, Meaning.apply, Value.operands, List.map_cons, List.map_nil, hpath,
        Meaning.var_written hs, hread]
      cases v <;> rfl
    rw [evaluate, hvar]
  · rw [Guard.test, hqualified]
    rfl

/-! ## 2. Assignments -/

theorem Value.written_ne_null {p : Path} (hp : p ≠ []) (d v : Value) : (d.written p v).isNull = false := by
  cases p with
  | nil => exact absurd rfl hp
  | cons s p =>
    rw [written, refill]
    split <;> rfl

section Assigning

variable {flow es : Entries} {catalogue : String → Option ActionSpec} {a : BoundAction} {s : String}
  {event v : Value} {p : Path}

/-- An assignment without an operand writes to the text that it is given what the event carries. -/
theorem BoundAction.exec_assign {rest : String} (hspec : a.spec = BuiltinAction.assignField.spec)
    (hfield : Entries.lookup "field" a.params = some (.text s)) (hvalue : Entries.lookup "value" a.params = none)
    (hfrom : Entries.lookup "from" a.params = none) (hsplit : splitScope s = (.context, rest))
    (hrest : Path.parse rest = .ok p) (hp : p.WritesForward) (hdata : event.get? "data" = some v)
    (r : Renderer) (context : Value) (fx : Effects) :
    (a.apply r context event).exec fx =
      (.ok (if (context.written p v).isNull then context else context.written p v), fx) := by
  have hoperand : Action.operand r a.params context event = .ok v := by
    simp only [Action.operand, hvalue, hfrom, eventValue, hdata]
  have hassign : Action.assign r context event a.params = .ok (context.written p v) := by
    simp only [Action.assign, Action.required, hfield, contextPath_text hsplit, hoperand, bind, Except.bind,
      Value.stored_eq hrest hp]
  simp only [apply, result, hspec, BuiltinAction.spec_code, Action.runBuiltin, hassign, Act.exec_bind,
    Act.exec_lift]
  rfl

/-- An assignment that is accepted has the parameters that it is given, and may write to its text. -/
theorem Action.assign_of_bind (hknown : catalogue "assignField" = some BuiltinAction.assignField.spec)
    (htype : Entries.lookup "type" es = some (.text "assignField"))
    (hfield : Entries.lookup "field" es = some (.text s)) (hbind : bind flow catalogue (.dict es) = .ok a) :
    a.spec = BuiltinAction.assignField.spec ∧
      (∀ name, name ≠ "type" → Entries.lookup name a.params = Entries.lookup name es) ∧
      beginsWith "context." (qualified s) = true := by
  rw [bind, bindFrom, htype] at hbind
  obtain ⟨spec, hspec, hbound⟩ := bind_eq_ok.mp hbind
  rw [known, hknown] at hspec
  cases hspec
  obtain ⟨hspec, hparams, -⟩ := bindSpec_eq_ok hbound
  refine ⟨hspec, fun name hname => ?_, bindSpec_writes hbound _ (mem_writes_of_param (.head _) ?_)⟩
  · rw [hparams, Entries.lookup_erase_ne es hname]
  · rw [Entries.lookup_erase_ne es (by decide), hfield]
    exact .head _

/-- **What an assignment writes is seen**: whatever text it is told its place by and whatever the context
holds, the readers of that text find what the event carries.  Only null is not put down as the whole
context, which then stays as it was. -/
theorem BoundAction.shown_of_assign
    (hknown : catalogue "assignField" = some BuiltinAction.assignField.spec)
    (htype : Entries.lookup "type" es = some (.text "assignField"))
    (hfield : Entries.lookup "field" es = some (.text s)) (hvalue : Entries.lookup "value" es = none)
    (hfrom : Entries.lookup "from" es = none) (hbind : Action.bind flow catalogue (.dict es) = .ok a)
    (hs : Path.parse s = .ok p) (hp : p.WritesForward) (hdata : event.get? "data" = some v) (r : Renderer)
    (context : Value) (fx : Effects) :
    ∃ context', (a.apply r context event).exec fx = (.ok context', fx) ∧
      (¬ (NamesWhole s ∧ v = .null) → context'.Shows s v) ∧
      (NamesWhole s ∧ v = .null → context' = context) := by
  obtain ⟨hspec, hparams, hwritable⟩ := Action.assign_of_bind hknown htype hfield hbind
  obtain ⟨rest, hne, hsplit⟩ := splitScope_of_writable hwritable
  obtain ⟨q, hrest, hq⟩ := Path.parse_inside hsplit hs
  have hforward : q.WritesForward := by
    rcases hq with rfl | rfl
    · exact hp
    · exact fun t ht => hp t (List.mem_cons_of_mem _ ht)
  have hwhole : NamesWhole s ↔ q = [] := by
    rw [NamesWhole, hsplit, hrest]
    exact ⟨fun h => by cases h; rfl, fun h => by rw [h]⟩
  have hexec := exec_assign hspec ((hparams "field" (by decide)).trans hfield)
    ((hparams "value" (by decide)).trans hvalue) ((hparams "from" (by decide)).trans hfrom) hsplit hrest
    hforward hdata r context fx
  refine ⟨_, hexec, fun hsome => ?_, fun hnull => ?_⟩
  · have hkept : (context.written q v).isNull = false := by
      by_cases hnil : q = []
      · have hv : v ≠ .null := fun hv => hsome ⟨hwhole.mpr hnil, hv⟩
        subst hnil
        exact Value.isNull_eq_false hv
      · exact Value.written_ne_null hnil context v
    rw [hkept, if_neg Bool.false_ne_true]
    exact Value.shows_of_atTextD hsplit hne (Value.atTextD_written hrest hforward context v)
  · obtain ⟨hnil, rfl⟩ := hnull
    rw [hwhole.mp hnil, Value.written]
    rfl

end Assigning

/-- A reference that puts down what the event carries at a place. -/
def assignTo (s : String) : Entries := [(.text "type", .text "assignField"), (.text "field", .text s)]

/-- The name of an author becomes an entry of an item, where a text stands in place of the list. -/
theorem BoundAction.shown_of_assign_author : ∃ a context',
    Action.bind [] BuiltinAction.ofName? (.dict (assignTo "context.drafts[1]['by.name']")) = .ok a ∧
      (a.apply .standard (.record [("drafts", .text "none")]) (.record [("data", .text "Ann")])).exec {} =
        (.ok context', {}) ∧
      ¬ NamesWhole "context.drafts[1]['by.name']" ∧
      context'.Shows "context.drafts[1]['by.name']" (.text "Ann") := by
  obtain ⟨a, ha, -⟩ := exists_ok_of_any
    (x := Action.bind [] BuiltinAction.ofName? (.dict (assignTo "context.drafts[1]['by.name']")))
    (f := fun _ => true) (by decide +kernel)
  have hpath : Path.parse "context.drafts[1]['by.name']" =
      .ok [.key "context", .key "drafts", .index 1, .key "by.name"] := by decide +kernel
  have hinside : ¬ NamesWhole "context.drafts[1]['by.name']" := by
    rw [NamesWhole]
    decide +kernel
  have hdata : (Value.record [("data", .text "Ann")]).get? "data" = some (.text "Ann") := rfl
  obtain ⟨context', hexec, hshows, -⟩ := shown_of_assign rfl rfl rfl rfl rfl ha hpath
    (by simp [Path.WritesForward, Segment.WritesForward]) hdata .standard (.record [("drafts", .text "none")]) {}
  exact ⟨a, context', ha, hexec, hinside, hshows fun h => hinside h.1⟩

/-- **Null is not put down as the whole context**: a dot names it, and a reader of the dot still finds what
was there. -/
theorem BoundAction.not_shown_of_null : ∃ a,
    Action.bind [] BuiltinAction.ofName? (.dict (assignTo ".")) = .ok a ∧ Path.parse "." = .ok [] ∧
      (a.apply .standard (.record [("a", .int 1)]) (.record [("data", .null)])).exec {} =
        (.ok (.record [("a", .int 1)]), {}) ∧
      evaluate (.record [("var", .text ".")]) (.record [("a", .int 1)]) .null =
        .ok (.record [("a", .int 1)]) := by
  obtain ⟨a, ha, -⟩ := exists_ok_of_any (x := Action.bind [] BuiltinAction.ofName? (.dict (assignTo ".")))
    (f := fun _ => true) (by decide +kernel)
  obtain ⟨hspec, hparams, -⟩ := Action.assign_of_bind rfl rfl rfl ha
  have hdot : Path.parse "." = .ok [] := by decide +kernel
  have hsplit : splitScope "." = (.context, ".") := by decide +kernel
  have hforward : Path.WritesForward [] := by simp [Path.WritesForward]
  have hdata : (Value.record [("data", .null)]).get? "data" = some .null := rfl
  have hexec := exec_assign hspec (hparams "field" (by decide))
    (hparams "value" (by decide)) (hparams "from" (by decide)) hsplit hdot hforward hdata .standard
    (.record [("a", .int 1)]) {}
  have hwhole := Value.atTextD_written hdot hforward .null (.record [("a", .int 1)])
  exact ⟨a, ha, hdot, hexec, (Value.shows_of_atTextD hsplit (by decide) hwhole).evaluated .null⟩

end Statechart
