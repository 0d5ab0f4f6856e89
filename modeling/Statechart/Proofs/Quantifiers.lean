/-
# Operators over lists

Four operators evaluate a body on the items of a list.  Two of them look at every item and need a value of
the body on each; the other two stop at the first item that decides.  Where the body has a value on every
item they are all read off one list of verdicts, so they cannot contradict each other:

* `Meaning.filterItems_eq_ok_iff`, `Meaning.mapItems_eq_ok_iff`: when the first two come to a list, and to
  which;
* `Meaning.someItem_eq_any`, `Meaning.everyItem_eq_all`: what the other two come to then;
* `Quantifier.evaluate_expression_eq_ok_iff`: an operator over a list, for any body, other such operators
  in it included;
* **`Quantifier.coherent`**: the items that are kept decide whether some and whether all items hold.

A body that fails on some item fails the first two operators.  The other two may then still come to a value,
since they do not look behind the item that decides.
-/
import Statechart.Proofs.Evaluation
import Mathlib.Data.List.Forall2

namespace Statechart

namespace Meaning

variable {body items : Meaning} {vs ws kept : List Value} {d : Data}

/-! ## 1. Bodies on items -/

/-- The body has a value on every item. -/
def TotalOn (body : Meaning) (vs : List Value) : Prop := ∀ v ∈ vs, ∃ w, body (.item v) = .ok w

/-- Whether the body has a value on an item that holds. -/
def holdsOn (body : Meaning) (v : Value) : Bool := (body (.item v)).toOption.any (·.holds)

theorem holdsOn_of_ok {v w : Value} (h : body (.item v) = .ok w) : body.holdsOn v = w.holds := by
  rw [holdsOn, h]
  rfl

theorem totalOn_cons {v : Value} :
    body.TotalOn (v :: vs) ↔ (∃ w, body (.item v) = .ok w) ∧ body.TotalOn vs :=
  List.forall_mem_cons

/-- **The items that are kept**: every item is looked at, and those on which the body holds stay in their
order. -/
theorem filterItems_eq_ok_iff :
    filterItems body vs = .ok kept ↔ body.TotalOn vs ∧ kept = vs.filter body.holdsOn := by
  induction vs generalizing kept with
  | nil => simp [filterItems, TotalOn, eq_comm]
  | cons v vs ih =>
    rw [filterItems, totalOn_cons]
    constructor
    · intro h
      obtain ⟨w, hw, h⟩ := bind_eq_ok.mp h
      obtain ⟨rest, hrest, h⟩ := bind_eq_ok.mp h
      obtain ⟨htotal, rfl⟩ := ih.mp hrest
      cases h
      exact ⟨⟨⟨w, hw⟩, htotal⟩, by rw [List.filter_cons, holdsOn_of_ok hw]⟩
    · rintro ⟨⟨⟨w, hw⟩, htotal⟩, rfl⟩
      rw [hw, ih.mpr ⟨htotal, rfl⟩, List.filter_cons, holdsOn_of_ok hw]
      rfl

/-- **The values of the body**, one for each item. -/
theorem mapItems_eq_ok_iff :
    mapItems body vs = .ok ws ↔ List.Forall₂ (fun v w => body (.item v) = .ok w) vs ws := by
  induction vs generalizing ws with
  | nil => simp [mapItems, eq_comm]
  | cons v vs ih =>
    rw [mapItems, List.forall₂_cons_left_iff]
    constructor
    · intro h
      obtain ⟨w, hw, h⟩ := bind_eq_ok.mp h
      obtain ⟨rest, hrest, h⟩ := bind_eq_ok.mp h
      cases h
      exact ⟨w, rest, hw, ih.mp hrest, rfl⟩
    · rintro ⟨w, rest, hw, hrest, rfl⟩
      rw [hw, ih.mpr hrest]
      rfl

/-- Some item holds if one is found, and it is found if nothing fails before. -/
theorem someItem_eq_any (h : body.TotalOn vs) : someItem body vs = .ok (vs.any body.holdsOn) := by
  induction vs with
  | nil => rfl
  | cons v vs ih =>
    obtain ⟨⟨w, hw⟩, hrest⟩ := totalOn_cons.mp h
    rw [someItem, hw, List.any_cons, holdsOn_of_ok hw]
    cases hholds : w.holds with
    | true => simp [bind, Except.bind, hholds, pure, Except.pure]
    | false => simpa [bind, Except.bind, hholds] using ih hrest

theorem everyItem_eq_all (h : body.TotalOn vs) : everyItem body vs = .ok (vs.all body.holdsOn) := by
  induction vs with
  | nil => rfl
  | cons v vs ih =>
    obtain ⟨⟨w, hw⟩, hrest⟩ := totalOn_cons.mp h
    rw [everyItem, hw, List.all_cons, holdsOn_of_ok hw]
    cases hholds : w.holds with
    | true => simpa [bind, Except.bind, hholds] using ih hrest
    | false => simp [bind, Except.bind, hholds, pure, Except.pure]

/-! ## 2. What the items are taken from -/

/-- What the items of an operator are taken from has come to a list, or to null, which counts as a list
without items. -/
def Supplies (items : Meaning) (d : Data) (vs : List Value) : Prop :=
  items d = .ok (.list vs) ∨ items d = .ok .null ∧ vs = []

theorem itemsOf_eq_ok_iff {q : Quantifier} {v : Value} :
    itemsOf q v = .ok vs ↔ v = .list vs ∨ v = .null ∧ vs = [] := by
  cases v <;> simp [itemsOf, eq_comm]

/-- An operator over a list comes to what it makes of the items that its first operand supplies. -/
theorem each_eq_ok_iff {q : Quantifier} {r : Value} :
    each q [items, body] d = .ok r ↔ ∃ vs, items.Supplies d vs ∧ overItems q body vs = .ok r := by
  change (items d >>= fun v => itemsOf q v >>= overItems q body) = .ok r ↔ _
  constructor
  · intro h
    obtain ⟨v, hv, h⟩ := bind_eq_ok.mp h
    obtain ⟨vs, hvs, h⟩ := bind_eq_ok.mp h
    rcases itemsOf_eq_ok_iff.mp hvs with rfl | ⟨rfl, rfl⟩
    · exact ⟨vs, .inl hv, h⟩
    · exact ⟨[], .inr ⟨hv, rfl⟩, h⟩
  · rintro ⟨vs, hv | ⟨hv, rfl⟩, h⟩
    all_goals exact bind_eq_ok.mpr ⟨_, hv, h⟩

end Meaning

/-! ## 3. Expressions -/

namespace Quantifier

open Meaning

variable {q : Quantifier} {xs body context event r : Value} {vs : List Value}

/-- An operator applied to the items of a list and a body. -/
def expression (q : Quantifier) (xs body : Value) : Value := .application q.label [xs, body]

theorem meaning_expression (q : Quantifier) (xs body : Value) :
    meaning (q.expression xs body) = each q [meaning xs, meaning body] := by
  have hop : Operator.ofKey? (.text q.label) = Option.some (.each q) := by cases q <;> rfl
  rw [expression, meaning_application, applyNamed, hop]
  rfl

/-- The list an expression comes to in a flow; null counts as a list without items. -/
def Yields (xs context event : Value) (vs : List Value) : Prop :=
  evaluate xs context event = .ok (.list vs) ∨ evaluate xs context event = .ok .null ∧ vs = []

theorem yields_iff : Yields xs context event vs ↔ (meaning xs).Supplies (.flow context event) vs := by
  rw [Yields, Supplies, Statechart.evaluate_eq_ok_iff, Statechart.evaluate_eq_ok_iff]

/-- **What an operator over a list comes to** in a flow. -/
theorem evaluate_expression_eq_ok_iff : evaluate (q.expression xs body) context event = .ok r ↔
    ∃ vs, Yields xs context event vs ∧ overItems q (meaning body) vs = .ok r := by
  rw [Statechart.evaluate_eq_ok_iff, meaning_expression, each_eq_ok_iff]
  simp only [yields_iff]

/-- Something is kept exactly if some item holds. -/
theorem any_eq_filter_ne_nil {α : Type} (p : α → Bool) (xs : List α) :
    xs.any p = decide (xs.filter p ≠ []) := by
  induction xs with
  | nil => rfl
  | cons x xs ih => cases hx : p x <;> simp [hx, ih]

/-- As many items are kept as there are exactly if all hold. -/
theorem all_eq_length_filter {α : Type} (p : α → Bool) (xs : List α) :
    xs.all p = decide ((xs.filter p).length = xs.length) := by
  rw [Bool.eq_iff_iff, List.all_eq_true, decide_eq_true_iff, List.length_filter_eq_length_iff]

theorem overItems_some (h : (meaning body).TotalOn vs) : overItems .some (meaning body) vs =
    .ok (.bool (vs.filter (meaning body).holdsOn ≠ [])) := by
  rw [overItems, someItem_eq_any h, any_eq_filter_ne_nil]
  rfl

theorem overItems_all (h : (meaning body).TotalOn vs) : overItems .all (meaning body) vs =
    .ok (.bool (vs ≠ [] ∧ (vs.filter (meaning body).holdsOn).length = vs.length)) := by
  rw [overItems, everyItem_eq_all h, all_eq_length_filter]
  cases vs <;> simp [bind, Except.bind, pure, Except.pure]

/-- **The operators over a list cohere**, whatever the list, the body and the data.  If the items on which
the body holds can be told, they are items of the list in its order; then some item holds exactly if there is
one among them, and all items hold exactly if there are items and as many among them.  If the values of the
body can be told, there is one for each item. -/
theorem coherent (xs body context event : Value) :
    (∀ r, evaluate (expression .filter xs body) context event = .ok r →
      ∃ vs kept, Yields xs context event vs ∧ r = .list kept ∧ kept.Sublist vs ∧
        kept = vs.filter (meaning body).holdsOn ∧
        evaluate (expression .some xs body) context event = .ok (.bool (kept ≠ [])) ∧
        evaluate (expression .all xs body) context event =
          .ok (.bool (vs ≠ [] ∧ kept.length = vs.length))) ∧
      ∀ r, evaluate (expression .map xs body) context event = .ok r →
        ∃ vs ws, Yields xs context event vs ∧ r = .list ws ∧ ws.length = vs.length ∧
          List.Forall₂ (fun v w => meaning body (.item v) = .ok w) vs ws := by
  constructor
  · intro r h
    obtain ⟨vs, hvs, h⟩ := evaluate_expression_eq_ok_iff.mp h
    obtain ⟨kept, hkept, h⟩ := bind_eq_ok.mp h
    cases h
    obtain ⟨htotal, rfl⟩ := filterItems_eq_ok_iff.mp hkept
    exact ⟨vs, _, hvs, rfl, List.filter_sublist, rfl,
      evaluate_expression_eq_ok_iff.mpr ⟨vs, hvs, overItems_some htotal⟩,
      evaluate_expression_eq_ok_iff.mpr ⟨vs, hvs, overItems_all htotal⟩⟩
  · intro r h
    obtain ⟨vs, hvs, h⟩ := evaluate_expression_eq_ok_iff.mp h
    obtain ⟨ws, hws, h⟩ := bind_eq_ok.mp h
    cases h
    have hall := mapItems_eq_ok_iff.mp hws
    exact ⟨vs, ws, hvs, rfl, hall.length_eq.symm, hall⟩

/-- The item at hand, inside a body. -/
def item : Value := .dict [(.text "var", .text "")]

/-- Baskets of a flow, and whether a basket holds anything that counts. -/
def baskets : Value := .dict [(.text "var", .text "context.baskets")]

def hasContent : Value := expression .some item item

def shop : Value :=
  .record [("baskets", .list [.list [.int 0, .int 2], .list [.int 0], .null])]

/-- A body that goes over items itself, one of them null. -/
theorem coherent_nested :
    evaluate (expression .filter baskets hasContent) shop .null =
        .ok (.list [.list [.int 0, .int 2]]) ∧
      evaluate (expression .map baskets hasContent) shop .null =
        .ok (.list [.bool true, .bool false, .bool false]) ∧
      (∃ vs kept, Yields baskets shop .null vs ∧
        Value.list [.list [.int 0, .int 2]] = .list kept ∧ kept.Sublist vs ∧
        kept = vs.filter (meaning hasContent).holdsOn ∧
        evaluate (expression .some baskets hasContent) shop .null = .ok (.bool (kept ≠ [])) ∧
        evaluate (expression .all baskets hasContent) shop .null =
          .ok (.bool (vs ≠ [] ∧ kept.length = vs.length))) ∧
      ∃ vs ws, Yields baskets shop .null vs ∧
        Value.list [.bool true, .bool false, .bool false] = .list ws ∧ ws.length = vs.length ∧
        List.Forall₂ (fun v w => meaning hasContent (.item v) = .ok w) vs ws := by
  have hfilter : evaluate (expression .filter baskets hasContent) shop .null =
      .ok (.list [.list [.int 0, .int 2]]) := by rfl
  have hmap : evaluate (expression .map baskets hasContent) shop .null =
      .ok (.list [.bool true, .bool false, .bool false]) := by rfl
  obtain ⟨hkept, hvalues⟩ := coherent baskets hasContent shop .null
  exact ⟨hfilter, hmap, hkept _ hfilter, hvalues _ hmap⟩

end Quantifier

end Statechart
