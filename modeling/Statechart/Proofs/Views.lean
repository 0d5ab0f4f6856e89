/-
# Rendered views

The description of a view is rendered from the inside out.  So what a flag says counts once the flag is
resolved, be it written as a truth value, an operation, the shorthand of a guard or a template, and a list
loses the items that say by then that they are not to be shown.  Nothing else is lost, added or moved, and
what holds neither texts nor other values is left as it is.

* `Act.ComesTo`: a step that comes to the same at all times, and only logs;
* `View.Hides`: an item that says that it is not to be shown;
* `View.Rendered`: what becomes of a part, by the kind of it;
* `View.yields_renderPart`: rendering makes that of every part, unless it fails;
* `View.Rendered.exists_of_part`: every part of what comes out is a flag, or what becomes of a part;
* **`View.clean_of_render`**: so mappings keep their keys, flags are truth values, and what is left of a
  list is what is to be shown.
-/
import Statechart.Proofs.Disabled
import Statechart.Proofs.Vocabulary

namespace Statechart

/-! ## 1. Steps that only log -/

namespace Act

variable {α β : Type} {m : Act α} {f : α → Act β} {a : α}

/-- At all times the step comes to the same, and leaves behind no more than lines in the log. -/
def ComesTo (m : Act α) (r : Except Fault α) : Prop :=
  ∀ fx, ∃ lines, m.exec fx = (r, fx.logging lines)

theorem comesTo_lift (r : Except Fault α) : (lift r).ComesTo r :=
  fun fx => ⟨[], by rw [fx.logging_nil, exec_lift]⟩

theorem comesTo_pure (a : α) : (pure a : Act α).ComesTo (.ok a) := comesTo_lift (.ok a)

theorem comesTo_say (level : LogLevel) (source : LogSource) (message : String) :
    (say level source message).ComesTo (.ok ()) :=
  fun fx => ⟨[⟨level, source, message⟩], exec_say level source message fx⟩

theorem ComesTo.bind {r : Except Fault β} (hm : m.ComesTo (.ok a)) (hf : (f a).ComesTo r) :
    (m >>= f).ComesTo r := by
  intro fx
  obtain ⟨lines, hfirst⟩ := hm fx
  obtain ⟨more, hrest⟩ := hf (fx.logging lines)
  refine ⟨lines ++ more, ?_⟩
  rw [exec_bind, hfirst, ← fx.logging_append]
  exact hrest

theorem ComesTo.bind_error {e : Fault} (hm : m.ComesTo (.error e)) : (m >>= f).ComesTo (.error e) := by
  intro fx
  obtain ⟨lines, hfirst⟩ := hm fx
  exact ⟨lines, by rw [exec_bind, hfirst]⟩

/-- It comes to something at all times, and if to a value, then to one with the property. -/
def Yields (m : Act α) (P : α → Prop) : Prop := ∃ r, m.ComesTo r ∧ ∀ a, r = .ok a → P a

theorem ComesTo.yields {r : Except Fault α} (h : m.ComesTo r) : m.Yields fun a => m.ComesTo (.ok a) :=
  ⟨r, h, fun _ ha => by rwa [ha] at h⟩

theorem yields_pure {P : α → Prop} (h : P a) : (pure a : Act α).Yields P :=
  ⟨.ok a, comesTo_pure a, fun _ ha => Except.ok.inj ha ▸ h⟩

theorem Yields.bind {P : α → Prop} {Q : β → Prop} (hm : m.Yields P) (hf : ∀ a, P a → (f a).Yields Q) :
    (m >>= f).Yields Q := by
  obtain ⟨r, hr, hP⟩ := hm
  cases r with
  | error e => exact ⟨.error e, hr.bind_error, fun _ hb => nomatch hb⟩
  | ok a =>
    obtain ⟨r', hr', hQ⟩ := hf a (hP a rfl)
    exact ⟨r', hr.bind hr', hQ⟩

theorem Yields.map {P : α → Prop} {Q : β → Prop} {g : α → β} (hm : m.Yields P)
    (hg : ∀ a, P a → Q (g a)) : (g <$> m).Yields Q := by
  rw [map_eq_pure_bind]
  exact hm.bind fun a ha => yields_pure (hg a ha)

/-- Without effects, only the handling of a failure can log. -/
theorem exists_comesTo_catchEval {r : Except Fault α} {handler : EvalError → Act α}
    (h : ∀ e, ∃ r', (handler e).ComesTo r') :
    ∃ r', (catchEval (lift r) handler).ComesTo r' := by
  cases r with
  | ok a => exact ⟨.ok a, fun fx => ⟨[], by rw [fx.logging_nil, catchEval_of_ok (exec_lift _ fx)]⟩⟩
  | error e =>
    cases e with
    | evaluation e =>
      obtain ⟨r', hr'⟩ := h e
      refine ⟨r', fun fx => ?_⟩
      rw [catchEval_of_eval (exec_lift _ fx)]
      exact hr' fx
    | _ => exact ⟨_, comesTo_lift _⟩

theorem Yields.of_exec {P : α → Prop} {fx : Effects} (hm : m.Yields P) (h : (m.exec fx).1 = .ok a) :
    P a := by
  obtain ⟨r, hr, hP⟩ := hm
  obtain ⟨lines, hexec⟩ := hr fx
  exact hP a (by rw [← h, hexec])

end Act

/-! ## 2. What becomes of a part -/

namespace View

/-- It says that it is not to be shown. -/
def Hides (w : Value) : Prop :=
  w.get? "visible" = some (.bool false) ∨ w.get? "hidden" = some (.bool true)

theorem isHidden_iff {w : Value} : isHidden w = true ↔ Hides w := by
  rw [isHidden, Bool.or_eq_true, Hides]
  refine or_congr ?_ ?_ <;> split <;> simp_all

instance : DecidablePred Hides := fun _ => decidable_of_iff _ isHidden_iff

theorem shown_eq (ws : List Value) : shown ws = ws.filter (¬ Hides ·) :=
  List.filter_congr fun w _ => by simp [← isHidden_iff]

/-- Neither a text nor anything that holds other values. -/
def IsPlain (v : Value) : Prop := v.kind ∉ [Kind.text, .list, .dict]

instance : DecidablePred IsPlain := fun v => inferInstanceAs (Decidable (v.kind ∉ _))

@[simp] theorem not_isPlain_text (s : String) : ¬ IsPlain (.text s) := by simp [IsPlain, Value.kind]

@[simp] theorem not_isPlain_list (vs : List Value) : ¬ IsPlain (.list vs) := by simp [IsPlain, Value.kind]

@[simp] theorem not_isPlain_dict (es : Entries) : ¬ IsPlain (.dict es) := by simp [IsPlain, Value.kind]

theorem not_hides_of_isPlain {w : Value} (h : IsPlain w) : ¬ Hides w := by
  cases w with
  | dict es => exact absurd h (not_isPlain_dict es)
  | _ => simp [Hides, Value.get?, Value.entries]

mutual

/-- `Rendered r context event v w`: it is `w` that becomes of `v`. -/
inductive Rendered (r : Renderer) (context event : Value) : Value → Value → Prop
  | dict {es es' : Entries} (h : List.Forall₂ (RenderedEntry r context event) es es') :
    Rendered r context event (.dict es) (.dict es')
  /-- Each item is rendered before it is looked at. -/
  | list {vs ws : List Value} (h : List.Forall₂ (Rendered r context event) vs ws) :
    Rendered r context event (.list vs) (.list (ws.filter (¬ Hides ·)))
  | text {s t : String} (h : (r.render s context event).ComesTo (.ok t)) :
    Rendered r context event (.text s) (.text t)
  | plain {v : Value} (h : IsPlain v) : Rendered r context event v v

/-- The same for an entry of a mapping, which is a flag by its key. -/
inductive RenderedEntry (r : Renderer) (context event : Value) : Key × Value → Key × Value → Prop
  | flag {k : Key} {v : Value} {b : Bool} (hk : isConditionKey k = true)
    (h : (condition r context event v).ComesTo (.ok b)) :
    RenderedEntry r context event (k, v) (k, .bool b)
  | part {k : Key} {v w : Value} (hk : isConditionKey k = false) (h : Rendered r context event v w) :
    RenderedEntry r context event (k, v) (k, w)

end

theorem exists_comesTo_render (r : Renderer) (context event : Value) (s : String) :
    ∃ t, (r.render s context event).ComesTo t :=
  Act.exists_comesTo_catchEval fun _ => ⟨_, (Act.comesTo_say _ _ _).bind (Act.comesTo_pure _)⟩

/-- **A flag comes to the same at all times.** -/
theorem exists_comesTo_condition (r : Renderer) (context event v : Value) :
    ∃ b, (condition r context event v).ComesTo b := by
  unfold condition
  split
  · exact ⟨_, Act.comesTo_pure _⟩
  · rename_i s
    split
    · split
      · rename_i g _
        exact ⟨_, g.exec_check context event⟩
      · exact ⟨_, (Act.comesTo_say _ _ _).bind (Act.comesTo_pure _)⟩
    · obtain ⟨t, ht⟩ := exists_comesTo_render r context event s
      cases t with
      | error e => exact ⟨_, ht.bind_error⟩
      | ok t => exact ⟨_, ht.bind (Act.comesTo_pure _)⟩
  · rename_i v _ _
    split
    · refine Act.exists_comesTo_catchEval fun e => ?_
      split
      · exact ⟨_, (Act.comesTo_say _ _ _).bind (Act.comesTo_pure _)⟩
      · exact ⟨_, (Act.comesTo_lift _).bind_error⟩
    · exact ⟨_, Act.comesTo_pure _⟩

section

variable {r : Renderer} {context event : Value}

mutual

/-- **Rendering makes of a part what becomes of it**, unless it fails. -/
theorem yields_renderPart :
    ∀ v, (renderPart r context event v).Yields (Rendered r context event v)
  | .dict es => by
    rw [renderPart]
    exact (yields_renderEntries es).bind fun es' h => Act.yields_pure (.dict h)
  | .list vs => by
    rw [renderPart]
    refine (yields_renderItems vs).bind fun ws h => Act.yields_pure ?_
    rw [shown_eq]
    exact .list h
  | .text s => by
    rw [renderPart]
    obtain ⟨t, ht⟩ := exists_comesTo_render r context event s
    exact ht.yields.map fun t h => .text h
  | .null => Act.yields_pure (.plain (by decide))
  | .bool _ => Act.yields_pure (.plain (by simp [IsPlain, Value.kind]))
  | .int _ => Act.yields_pure (.plain (by simp [IsPlain, Value.kind]))
  | .float _ => Act.yields_pure (.plain (by simp [IsPlain, Value.kind]))

theorem yields_renderItems :
    ∀ vs, (renderItems r context event vs).Yields (List.Forall₂ (Rendered r context event) vs)
  | [] => Act.yields_pure .nil
  | v :: vs => by
    rw [renderItems]
    refine (yields_renderPart v).bind fun w hw => ?_
    exact (yields_renderItems vs).bind fun ws hws => Act.yields_pure (.cons hw hws)

theorem yields_renderEntries :
    ∀ es, (renderEntries r context event es).Yields (List.Forall₂ (RenderedEntry r context event) es)
  | [] => Act.yields_pure .nil
  | (k, v) :: es => by
    rw [renderEntries]
    have hrest (w : Value) (hw : RenderedEntry r context event (k, v) (k, w)) :
        (do return (k, w) :: (← renderEntries r context event es)).Yields
          (List.Forall₂ (RenderedEntry r context event) ((k, v) :: es)) :=
      (yields_renderEntries es).bind fun es' hes => Act.yields_pure (.cons hw hes)
    split
    · rename_i hk
      obtain ⟨b, hb⟩ := exists_comesTo_condition r context event v
      have hflag : (Value.bool <$> condition r context event v).Yields
          fun w => RenderedEntry r context event (k, v) (k, w) := hb.yields.map fun b h => .flag hk h
      exact hflag.bind hrest
    · rename_i hk
      exact (yields_renderPart v).bind fun w h => hrest w (.part (Bool.eq_false_of_not_eq_true hk) h)

end

/-! ## 3. The parts of what comes out -/

/-- What is plain is left as it is. -/
theorem Rendered.eq_of_isPlain {v w : Value} (h : Rendered r context event v w) (hv : IsPlain v) : w = v := by
  cases h with
  | plain => rfl
  | _ => simp at hv

/-- **Every part of what comes out** is a truth value, or it is what becomes of a part of what is rendered. -/
theorem Rendered.exists_of_part {w p : Value} (hp : w.HasPart p) :
    ∀ {v}, Rendered r context event v w →
      (∃ q, v.HasPart q ∧ Rendered r context event q p) ∨ ∃ b, p = .bool b := by
  induction hp with
  | self w => exact fun {v} h => .inl ⟨v, .self v, h⟩
  | item mem _ ih =>
    intro v h
    cases h with
    | list hall =>
      obtain ⟨u, hu, hitem⟩ := exists_left_of_forall₂ hall (List.mem_of_mem_filter mem)
      exact (ih hitem).imp_left fun ⟨q, hq, hrendered⟩ => ⟨q, .item hu hq, hrendered⟩
    | plain h => exact absurd h (not_isPlain_list _)
  | @entry k x p es' mem part ih =>
    intro v h
    cases h with
    | dict hall =>
      obtain ⟨e, he, hentry⟩ := exists_left_of_forall₂ hall mem
      cases hentry with
      | @flag _ _ b =>
        -- A truth value has no part but itself.
        cases part
        exact .inr ⟨b, rfl⟩
      | part _ hitem =>
        exact (ih hitem).imp_left fun ⟨q, hq, hrendered⟩ => ⟨q, .entry he hq, hrendered⟩
    | plain h => exact absurd h (not_isPlain_dict _)

/-- How a mapping comes out: with its keys in order, truth values for flags, and what is plain as it was. -/
structure CleanMapping (r : Renderer) (context event : Value) (es es' : Entries) : Prop where
  entries : List.Forall₂ (RenderedEntry r context event) es es'
  keys_eq : es'.keys = es.keys
  isBool : ∀ e ∈ es', isConditionKey e.1 = true → ∃ b, e.2 = .bool b
  unchanged : ∀ p ∈ es.zip es', isConditionKey p.1.1 = false → IsPlain p.1.2 → p.2.2 = p.1.2

/-- How a list comes out: as what becomes of its items, but for those that are not to be shown. -/
structure CleanList (r : Renderer) (context event : Value) (vs ws : List Value) : Prop where
  items : ∃ us, List.Forall₂ (Rendered r context event) vs us ∧ ws = us.filter (¬ Hides ·)
  notHides : ∀ w ∈ ws, ¬ Hides w
  unchanged : ws.filter (IsPlain ·) = vs.filter (IsPlain ·)

theorem cleanMapping_of_forall₂ {es es' : Entries} (h : List.Forall₂ (RenderedEntry r context event) es es') :
    CleanMapping r context event es es' where
  entries := h
  keys_eq := by
    induction h with
    | nil => rfl
    | cons hentry _ ih =>
      rw [Entries.keys, List.map_cons, ← Entries.keys, ih]
      cases hentry <;> rfl
  isBool e he hk := by
    obtain ⟨_, _, hentry⟩ := exists_left_of_forall₂ h he
    cases hentry with
    | @flag _ _ b => exact ⟨b, rfl⟩
    | part hother => cases hk.symm.trans hother
  unchanged p hp hk hplain := by
    have hentry := (List.forall₂_iff_zip.mp h).2 hp
    obtain ⟨⟨k, v⟩, k', w⟩ := p
    cases hentry with
    | flag hflag => cases hk.symm.trans hflag
    | part _ hrendered => exact hrendered.eq_of_isPlain hplain

/-- What is not plain does not come out plain. -/
theorem Rendered.isPlain_iff {v w : Value} (h : Rendered r context event v w) : IsPlain w ↔ IsPlain v := by
  cases h with
  | plain => rfl
  | _ => simp

theorem filter_isPlain_of_forall₂ {vs us : List Value} (h : List.Forall₂ (Rendered r context event) vs us) :
    us.filter (IsPlain ·) = vs.filter (IsPlain ·) := by
  induction h with
  | nil => rfl
  | @cons v u vs us hitem _ ih =>
    by_cases hv : IsPlain v
    · obtain rfl := hitem.eq_of_isPlain hv
      rw [List.filter_cons_of_pos (by simpa using hv), List.filter_cons_of_pos (by simpa using hv), ih]
    · have hu : ¬ IsPlain u := fun hu => hv (hitem.isPlain_iff.mp hu)
      rw [List.filter_cons_of_neg (by simpa using hu), List.filter_cons_of_neg (by simpa using hv), ih]

theorem cleanList_of_forall₂ {vs us : List Value} (h : List.Forall₂ (Rendered r context event) vs us) :
    CleanList r context event vs (us.filter (¬ Hides ·)) where
  items := ⟨us, h, rfl⟩
  notHides w hw := by simpa using List.of_mem_filter hw
  unchanged := by
    rw [List.filter_filter, ← filter_isPlain_of_forall₂ h]
    refine List.filter_congr fun u _ => ?_
    by_cases hu : IsPlain u
    · simp [hu, not_hides_of_isPlain hu]
    · simp [hu]

/-- **What is rendered is clean.** -/
theorem clean_of_render {es : Entries} {fx : Effects} {out : Value}
    (h : ((render r (.dict es) context event).exec fx).1 = .ok out) :
    Rendered r context event (.dict es) out ∧
      (∀ es', out.HasPart (.dict es') →
        ∃ es₀, (Value.dict es).HasPart (.dict es₀) ∧ CleanMapping r context event es₀ es') ∧
      ∀ ws, out.HasPart (.list ws) →
        ∃ vs, (Value.dict es).HasPart (.list vs) ∧ CleanList r context event vs ws := by
  have hrender : (render r (.dict es) context event).Yields (Rendered r context event (.dict es)) := by
    refine (yields_renderPart (.dict es)).bind fun w hw => Act.yields_pure ?_
    cases hw with
    | dict hall => exact .dict hall
    | plain h => exact absurd h (not_isPlain_dict _)
  have hout := hrender.of_exec h
  refine ⟨hout, fun es' hpart => ?_, fun ws hpart => ?_⟩
  · obtain ⟨q, hq, hrendered⟩ | ⟨b, hb⟩ := Rendered.exists_of_part hpart hout
    · cases hrendered with
      | dict hall => exact ⟨_, hq, cleanMapping_of_forall₂ hall⟩
      | plain h => exact absurd h (not_isPlain_dict _)
    · cases hb
  · obtain ⟨q, hq, hrendered⟩ | ⟨b, hb⟩ := Rendered.exists_of_part hpart hout
    · cases hrendered with
      | list hall => exact ⟨_, hq, cleanList_of_forall₂ hall⟩
      | plain h => exact absurd h (not_isPlain_list _)
    · cases hb

end

/-- A list in a list, with flags that are written in four ways. -/
def offers : Entries :=
  [(.text "enabled", .int 0),
    (.text "offers", .list
      [.dict [(.text "visible", .text "isNull:context.name"), (.text "price", .int 3)],
        .dict [(.text "visible", .dict [(.text "==", .list [.int 1, .int 1])]),
          (.text "parts", .list
            [.dict [(.text "hidden", .text "isNotNull:context.name")], .int 7,
              .dict [(.text "hidden", .null)]])],
        .null])]

/-- What is left of it for her whose name is known. -/
def offersLeft : Value :=
  .dict [(.text "enabled", .bool false),
    (.text "offers", .list
      [.dict [(.text "visible", .bool true),
          (.text "parts", .list [.int 7, .dict [(.text "hidden", .bool false)]])],
        .null])]

/-- An item of the list is gone, and one of the list in the other. -/
theorem clean_of_render_offers :
    ((render .standard (.dict offers) (.dict [(.text "name", .text "Ana")]) .null).exec {}).1 =
        .ok offersLeft ∧
      ∀ ws, offersLeft.HasPart (.list ws) → ∃ vs, (Value.dict offers).HasPart (.list vs) ∧
        CleanList .standard (.dict [(.text "name", .text "Ana")]) .null vs ws := by
  have hrender : ((render .standard (.dict offers) (.dict [(.text "name", .text "Ana")]) .null).exec {}).1 =
      .ok offersLeft := rfl
  exact ⟨hrender, (clean_of_render hrender).2.2⟩

end View

end Statechart
