/-
# What built-in actions write

A built-in action writes where some of its parameters say, each kind of action where parameters of its own
say.  Everything about what an action may change is said here once:

* `BuiltinAction.targets`, `BoundAction.targets`: the values that name the places an action writes;
* `BuiltinAction.qualified_mem_writes`: a target that is a text, or the key of a mapping, is among the
  places that the action is said to write;
* **`BoundAction.apply_keeps`**: what outlives whatever is stored or taken away at the targets is true of
  the result.
-/
import Statechart.Proofs.Bound
import Statechart.Proofs.Context
import Statechart.Proofs.Verdict

namespace Statechart

/-! ## 1. Places in the context -/

/-- A value names a place in the context. -/
def Value.Addresses (v : Value) (q : Path) : Prop :=
  ∃ path, contextPath v = .ok path ∧ Path.parse path = .ok q

theorem splitScope_below (path : String) : splitScope ("context." ++ path) = (.context, path) :=
  splitScope_join .context path

/-- The place that a text names. -/
theorem contextPath_text {s rest : String} (h : splitScope s = (.context, rest)) :
    contextPath (.text s) = .ok rest := by
  unfold contextPath
  refine bind_eq_ok.mpr ⟨s, rfl, ?_⟩
  rw [h]
  rfl

theorem qualified_of_splitScope {s rest : String} (h : splitScope s = (.context, rest))
    (hrest : rest ≠ "") : qualified s = "context." ++ rest := by
  have hempty : rest.isEmpty = false := by simpa using hrest
  rw [qualified, h]
  simp only [hempty, Bool.false_eq_true, if_false]
  rfl

/-! ## 2. Targets -/

/-- The values of parameters that name the places a built-in action writes. -/
def BuiltinAction.targets (b : BuiltinAction) (params : Entries) : List Value :=
  match b with
  | .assignField | .accumulateArray | .clearField => (Entries.lookup "field" params).toList
  | .copyField => (Entries.lookup "to" params).toList
  | .generateId => [(Entries.lookup "field" params).getD (.text "id")]
  | .log => []
  | .renderTemplateInto | .evaluateExpressionInto | .assignResult =>
    (Entries.lookup "target" params).toList
  | .validateWithRules => [.text "errors"]
  | .mapResult => ((Entries.lookup "mapping" params).getD (.dict [])).entries.map (·.1.toValue)

/-- The values that name the places an action writes. -/
def BoundAction.targets (a : BoundAction) : List Value :=
  match a.spec.code with
  | .builtin b => b.targets a.params
  | .host _ => []

/-- Whether a built-in action takes something away instead of storing it. -/
def BuiltinAction.removes (b : BuiltinAction) (params : Entries) : Bool :=
  match b with
  | .clearField => ((Entries.lookup "remove" params).getD .null).isTruthy
  | _ => false

theorem BuiltinAction.spec_code (b : BuiltinAction) : b.spec.code = .builtin b := by
  cases b <;> rfl

theorem BoundAction.targets_eq {a : BoundAction} {b : BuiltinAction} (h : a.spec = b.spec) :
    a.targets = b.targets a.params := by
  rw [targets, h, b.spec_code]

theorem mem_writes_of_param {spec : ActionSpec} {params : Entries} {name s : String}
    (hname : name ∈ spec.writeParams) (h : .text s ∈ (Entries.lookup name params).toList) :
    qualified s ∈ Action.writes spec params := by
  have hlookup : Entries.lookup name params = some (.text s) := Option.mem_toList.mp h
  refine List.mem_append_left _ (List.mem_append_right _ (List.mem_flatMap.mpr ⟨name, hname, ?_⟩))
  rw [hlookup]
  exact .head _

/-- What a parameter of a built-in action names is among the places that the action is said to write, if
the parameter is a text; a mapping names places by its keys, whatever they are. -/
theorem BuiltinAction.qualified_mem_writes {b : BuiltinAction} {params : Entries} {t : Value}
    (h : t ∈ b.targets params) (htext : b = .mapResult ∨ ∃ s, t = .text s) :
    qualified t.display ∈ Action.writes b.spec params := by
  by_cases hb : b = .mapResult
  · subst hb
    obtain ⟨⟨k, v⟩, hk, rfl⟩ := List.mem_map.mp h
    refine List.mem_append_left _ (List.mem_append_right _
      (List.mem_flatMap.mpr ⟨"mapping", .head _, ?_⟩))
    cases hlookup : Entries.lookup "mapping" params with
    | none =>
      rw [hlookup] at hk
      cases hk
    | some mapping =>
      rw [hlookup] at hk
      cases mapping with
      | dict es => exact List.mem_map.mpr ⟨_, hk, rfl⟩
      | _ => cases hk
  · obtain ⟨s, rfl⟩ := htext.resolve_left hb
    rw [Value.display]
    cases b with
    | log => cases h
    | mapResult => exact absurd rfl hb
    | validateWithRules =>
      cases List.mem_singleton.mp h
      exact List.mem_append_left _ (List.mem_append_left _ (.head _))
    | generateId =>
      cases hlookup : Entries.lookup "field" params with
      | some v =>
        rw [targets, hlookup] at h
        exact mem_writes_of_param (.head _) (by simpa [hlookup] using h)
      | none =>
        rw [targets, hlookup] at h
        cases List.mem_singleton.mp h
        refine List.mem_append_right _ ?_
        rw [if_pos ⟨rfl, by simp [Entries.has, hlookup]⟩]
        exact .head _
    | _ => exact mem_writes_of_param (.head _) h

/-! ## 3. What built-in actions keep

Whatever a built-in action does, it stores something at the places of its targets, one after another, or
takes away what is at the place of one of them.  So what is said of a context is true of the result if
these two keep it. -/

/-- What is said of a context outlives whatever is stored at the place that a value names. -/
def Value.StoresKeep (t : Value) (P : Value → Prop) : Prop :=
  ∀ {path context v w}, contextPath t = .ok path → P context → context.stored path v = .ok w → P w

section Keeping

variable {P : Value → Prop} {p : Path} {context event v w target : Value} {params : Entries}

namespace Action

theorem mem_of_required {name : String} (h : required params name = .ok v) :
    v ∈ (Entries.lookup name params).toList := by
  unfold required at h
  split at h
  · rename_i w hlookup
    cases h
    simp [hlookup]
  · cases h

section

variable (hcontext : P context)
include hcontext

theorem assign_keeps {r : Renderer}
    (hv : ∀ t ∈ (Entries.lookup "field" params).toList, t.StoresKeep P)
    (h : assign r context event params = .ok w) : P w := by
  obtain ⟨t, ht, h⟩ := bind_eq_ok.mp h
  obtain ⟨path, hpath, h⟩ := bind_eq_ok.mp h
  obtain ⟨v, -, h⟩ := bind_eq_ok.mp h
  exact hv t (mem_of_required ht) hpath hcontext h

theorem copy_keeps (hv : ∀ t ∈ (Entries.lookup "to" params).toList, t.StoresKeep P)
    (h : copy context event params = .ok w) : P w := by
  obtain ⟨from', -, h⟩ := bind_eq_ok.mp h
  obtain ⟨v, -, h⟩ := bind_eq_ok.mp h
  obtain ⟨t, ht, h⟩ := bind_eq_ok.mp h
  obtain ⟨path, hpath, h⟩ := bind_eq_ok.mp h
  exact hv t (mem_of_required ht) hpath hcontext h

theorem clear_keeps
    (hv : BuiltinAction.clearField.removes params = false →
      ∀ t ∈ (Entries.lookup "field" params).toList, t.StoresKeep P)
    (hr : BuiltinAction.clearField.removes params = true →
      ∀ t ∈ (Entries.lookup "field" params).toList, ∀ path w, contextPath t = .ok path →
        context.removed path = .ok w → P w)
    (h : clear context params = .ok w) : P w := by
  obtain ⟨t, ht, h⟩ := bind_eq_ok.mp h
  obtain ⟨path, hpath, h⟩ := bind_eq_ok.mp h
  split at h
  · rename_i htrue
    exact hr htrue t (mem_of_required ht) path w hpath h
  · rename_i hfalse
    exact hv (Bool.not_eq_true _ ▸ hfalse) t (mem_of_required ht) hpath hcontext h

theorem accumulate_keeps {r : Renderer}
    (hv : ∀ t ∈ (Entries.lookup "field" params).toList, t.StoresKeep P)
    (h : accumulate r context event params = .ok w) : P w := by
  obtain ⟨t, ht, h⟩ := bind_eq_ok.mp h
  obtain ⟨path, hpath, h⟩ := bind_eq_ok.mp h
  obtain ⟨found, -, h⟩ := bind_eq_ok.mp h
  obtain ⟨v, -, h⟩ := bind_eq_ok.mp h
  exact hv t (mem_of_required ht) hpath hcontext h

theorem assignResult_keeps (hv : ∀ t ∈ (Entries.lookup "target" params).toList, t.StoresKeep P)
    (h : assignResult context event params = .ok w) : P w := by
  obtain ⟨t, ht, h⟩ := bind_eq_ok.mp h
  obtain ⟨path, hpath, h⟩ := bind_eq_ok.mp h
  exact hv t (mem_of_required ht) hpath hcontext h

end

theorem mapInto_keeps {es : Entries} (hcontext : P context)
    (hv : ∀ t ∈ es.map (·.1.toValue), t.StoresKeep P) (h : mapInto event es context = .ok w) : P w := by
  induction es generalizing context with
  | nil =>
    cases h
    exact hcontext
  | cons e es ih =>
    obtain ⟨k, from'⟩ := e
    obtain ⟨path, hpath, h⟩ := bind_eq_ok.mp h
    obtain ⟨source, -, h⟩ := bind_eq_ok.mp h
    obtain ⟨v, -, h⟩ := bind_eq_ok.mp h
    obtain ⟨context', hstored, h⟩ := bind_eq_ok.mp h
    exact ih (hv _ (by simp) hpath hcontext hstored) (fun t ht => hv t (by simp_all)) h

theorem mapResult_keeps (hcontext : P context)
    (hv : ∀ t ∈ BuiltinAction.mapResult.targets params, t.StoresKeep P)
    (h : mapResult context event params = .ok w) : P w := by
  unfold mapResult at h
  rw [BuiltinAction.targets] at hv
  split at h
  · rename_i es hes
    rw [hes] at hv
    exact mapInto_keeps hcontext hv h
  · cases h

/-- **A built-in action keeps what is said of a context** if whatever it stores or takes away does. -/
theorem runBuiltin_keeps (r : Renderer) (b : BuiltinAction) (hcontext : P context)
    (hv : b.removes params = false → ∀ t ∈ b.targets params, t.StoresKeep P)
    (hr : b.removes params = true → ∀ t ∈ b.targets params, ∀ path w, contextPath t = .ok path →
      context.removed path = .ok w → P w) :
    (runBuiltin r b context event params).Results P := by
  cases b with
  | assignField => exact (Act.results_lift _).mono fun _ h => assign_keeps hcontext (hv rfl) h
  | copyField => exact (Act.results_lift _).mono fun _ h => copy_keeps hcontext (hv rfl) h
  | clearField => exact (Act.results_lift _).mono fun _ h => clear_keeps hcontext hv hr h
  | accumulateArray => exact (Act.results_lift _).mono fun _ h => accumulate_keeps hcontext (hv rfl) h
  | mapResult => exact (Act.results_lift _).mono fun _ h => mapResult_keeps hcontext (hv rfl) h
  | assignResult => exact (Act.results_lift _).mono fun _ h => assignResult_keeps hcontext (hv rfl) h
  | log =>
    exact Act.Results.after fun _ => Act.Results.after fun _ => Act.Results.after fun _ =>
      Act.Results.pure hcontext
  | generateId =>
    refine Act.Results.after fun _ => Act.Results.after fun _ => Act.Results.after fun _ =>
      (Act.results_lift _).mono fun w h => ?_
    obtain ⟨path, hpath, h⟩ := bind_eq_ok.mp h
    exact hv rfl _ (.head _) hpath hcontext h
  | renderTemplateInto =>
    refine Act.Results.after fun _ => Act.Results.after fun _ => Act.Results.after fun _ =>
      (Act.results_lift _).mono fun w h => ?_
    obtain ⟨t, ht, h⟩ := bind_eq_ok.mp h
    obtain ⟨path, hpath, h⟩ := bind_eq_ok.mp h
    exact hv rfl t (mem_of_required ht) hpath hcontext h
  | evaluateExpressionInto =>
    refine Act.Results.after fun _ => (Act.results_lift _).bind fun t ht => Act.Results.after fun _ =>
      (Act.results_lift _).mono fun w h => ?_
    obtain ⟨path, hpath, h⟩ := bind_eq_ok.mp h
    exact hv rfl t (mem_of_required ht) hpath hcontext h
  | validateWithRules =>
    refine Act.Results.after fun _ => Act.Results.after fun complaints => ?_
    dsimp only
    split
    · exact Act.Results.pure hcontext
    · refine (Act.results_lift _).mono fun w h => ?_
      obtain ⟨errors, -, h⟩ := bind_eq_ok.mp h
      exact hv rfl _ (.head _) rfl hcontext h

end Action

/-- **So does a bound action**, which keeps the old context when it has no result. -/
theorem BoundAction.apply_keeps {a : BoundAction} {b : BuiltinAction} (hspec : a.spec = b.spec)
    (r : Renderer) (hcontext : P context)
    (hv : b.removes a.params = false → ∀ t ∈ a.targets, t.StoresKeep P)
    (hr : b.removes a.params = true → ∀ t ∈ a.targets, ∀ path w, contextPath t = .ok path →
      context.removed path = .ok w → P w) :
    (a.apply r context event).Results P := by
  have hresult : (a.result r context event).Results P := by
    rw [targets_eq hspec] at hv hr
    rw [result, hspec, b.spec_code]
    exact Action.runBuiltin_keeps r b hcontext hv hr
  refine hresult.bind fun w hw => Act.Results.pure ?_
  split
  · exact hcontext
  · exact hw

end Keeping

end Statechart
