/-
# What is put into a store comes back

When a state is left, an output puts a value of the context into a store; when a state is entered, an
input takes one out again.  The two know nothing of each other, and a store is no plain table: the keys
of a query are flat, while those of the storages are paths, into whatever the storage holds already.
What makes them fit is that a write is read back at its own path (`Proofs/Frame.lean`).

* `Store.split_reference`: a reference names the store and the key that it is made of;
* `Value.stored_eq`, `Value.atTextD_written`: writing and reading at the text of a path;
* `Store.Takes`, `Stores.read_of_write`: the keys that a store takes a value under, and what a write does
  to that store and to the others;
* `Binding.parse_output`, `Binding.parse_input`: the bindings of plain descriptors;
* **`Binding.brings_back`**: what an output has put into a store an input brings back.
-/
import Statechart.Binding
import Statechart.Proofs.Frame
import Statechart.Proofs.Run
import Statechart.Proofs.Target

namespace Statechart

/-! ## 1. References -/

/-- A reference names the store and the key that it is made of: no two stores begin alike. -/
theorem Store.split_reference (store : Store) {key : String} (h : key ≠ "") :
    Store.split (store.reference key) = some (store, key) := by
  have hempty : key.isEmpty = false := by simpa using h
  have hown : afterStart? (store.label ++ ".") (store.reference key) = some key :=
    afterStart?_eq_some_iff.mpr rfl
  have hother : ∀ other, other ≠ store → afterStart? (other.label ++ ".") (store.reference key) = none := by
    intro other hne
    cases other <;> cases store <;> simp [afterStart?, reference, label] at hne ⊢
  unfold split all
  cases store <;> simp [List.findSome?, hown, hother, hempty]

/-! ## 2. Writing to a store -/

/-- What is in an external store. -/
def Stores.contents (stores : Stores) : Store → Value
  | .query => .dict stores.query
  | .localStorage => stores.localStorage
  | .sessionStorage => stores.sessionStorage
  | .context => .null

/-- The keys that an external store takes a value under: a query takes any, a storage those that are paths
without a negative index. -/
def Store.Takes (store : Store) (key : String) : Prop :=
  match store with
  | .query => True
  | .localStorage | .sessionStorage => ∃ p, Path.parse key = .ok p ∧ p.WritesForward
  | .context => False

theorem Value.stored_eq {path : String} {p : Path} (hpath : Path.parse path = .ok p) (hp : p.WritesForward)
    (container v : Value) : container.stored path v = .ok (container.written p v) := by
  simp [stored, hpath, put?_eq hp, liftData, liftPath, Except.mapError, bind, Except.bind, pure, Except.pure]

/-- What is written at a path is found at its text. -/
theorem Value.atTextD_written {path : String} {p : Path} (hpath : Path.parse path = .ok p)
    (hp : p.WritesForward) (container v : Value) : (container.written p v).atTextD path = .ok v := by
  simp [atTextD, atText, hpath, at?_written hp, Functor.map, Except.map]

/-- **What is written to a store is read back**, and the other stores are left alone. -/
theorem Stores.read_of_write {store : Store} {key : String} (h : store.Takes key) (stores : Stores)
    (v : Value) :
    ∃ stores', stores.write store key v = .ok stores' ∧ stores'.read store key = .ok v ∧
      ∀ other, other ≠ store → stores'.contents other = stores.contents other := by
  have hread {w : Value} (hw : w.atTextD key = .ok v) : liftData (liftPath (w.atTextD key)) = .ok v := by
    rw [hw]
    rfl
  cases store with
  | context => exact h.elim
  | query =>
    refine ⟨_, rfl, read_write_query rfl, ?_⟩
    intro other hne
    cases other with
    | query => exact absurd rfl hne
    | _ => rfl
  | localStorage =>
    obtain ⟨p, hkey, hp⟩ := h
    refine ⟨{ stores with localStorage := stores.localStorage.written p v },
      by rw [write, Value.stored_eq hkey hp]; rfl, hread (Value.atTextD_written hkey hp _ v), ?_⟩
    intro other hne
    cases other with
    | localStorage => exact absurd rfl hne
    | _ => rfl
  | sessionStorage =>
    obtain ⟨p, hkey, hp⟩ := h
    refine ⟨{ stores with sessionStorage := stores.sessionStorage.written p v },
      by rw [write, Value.stored_eq hkey hp]; rfl, hread (Value.atTextD_written hkey hp _ v), ?_⟩
    intro other hne
    cases other with
    | sessionStorage => exact absurd rfl hne
    | _ => rfl

namespace Binding

/-! ## 3. Descriptors without a transform -/

/-- The descriptor of a binding without a transform. -/
def descriptor (source target : Place) : Value :=
  .record [("source", .text source.reference), ("target", .text target.reference)]

theorem place?_reference (store : Store) {key : String} (h : key ≠ "") :
    place? (store.reference key) = some ⟨store, key⟩ := by
  rw [place?, Store.split_reference store h]
  rfl

theorem parse_descriptor (transforms : String → Option Transform) (direction : Direction)
    {source target : Place} (hs : source.key ≠ "") (ht : target.key ≠ "")
    (hends : endProblems direction source.reference target.reference = []) :
    parse transforms direction (descriptor source target) = .ok { source, target } := by
  have hne (p : Place) : p.reference.isEmpty = false := by
    simp [Place.reference, Store.reference]
  have hsource : ref? (descriptor source target) "source" = some source.reference := by
    simp [ref?, descriptor, Value.record, Value.get?, Value.entries, hne]
  have htarget : ref? (descriptor source target) "target" = some target.reference := by
    simp [ref?, descriptor, Value.record, Value.get?, Value.entries, hne]
  have hnone : (descriptor source target).getD "transform" = .null := by
    simp [descriptor, Value.record, Value.getD, Value.get?, Value.entries]
  simp only [parse, hsource, htarget, hnone, transformOf, hends]
  rw [Place.reference, Place.reference, place?_reference _ hs, place?_reference _ ht]
  rfl

/-- The output that a descriptor stands for. -/
theorem parse_output (transforms : String → Option Transform) {store : Store} (hstore : store ≠ .context)
    {p k : String} (hp : p ≠ "") (hk : k ≠ "") :
    parse transforms .output (descriptor ⟨.context, p⟩ ⟨store, k⟩) =
      .ok { source := ⟨.context, p⟩, target := ⟨store, k⟩ } := by
  refine parse_descriptor transforms .output hp hk ?_
  simp [endProblems, Place.reference, place?_reference _ hp, place?_reference _ hk, hstore]

/-- The input that a descriptor stands for. -/
theorem parse_input (transforms : String → Option Transform) (store : Store) {k q : String} (hk : k ≠ "")
    (hq : q ≠ "") :
    parse transforms .input (descriptor ⟨store, k⟩ ⟨.context, q⟩) =
      .ok { source := ⟨store, k⟩, target := ⟨.context, q⟩ } := by
  refine parse_descriptor transforms .input hk hq ?_
  simp [endProblems, Place.reference, place?_reference _ hk, place?_reference _ hq]

/-! ## 4. There and back -/

variable {b : Binding} {context v : Value}

theorem transformed_of_none (hb : b.transform = none) (v : Value) :
    b.transformed v = pure (some v) := by
  simp only [transformed, hb]

/-- An output without a transform writes what it finds. -/
theorem exec_applyOutputs (hb : b.transform = none) (hv : context.atTextD b.source.key = .ok v)
    (fx : Effects) {stores' : Stores} (hwrite : fx.stores.write b.target.store b.target.key v = .ok stores') :
    (applyOutputs [b] context).exec fx = (.ok (), { fx with stores := stores' }) := by
  have hfound : liftData (liftPath (context.atTextD b.source.key)) = .ok v := by
    rw [hv]
    rfl
  have hwritten : (Act.writeStore b.target.store b.target.key v).exec fx =
      (.ok (), { fx with stores := stores' }) := by
    simp only [Act.exec, Act.writeStore, hwrite]
  have hone : (applyOutput context b).exec fx = (.ok (), { fx with stores := stores' }) := by
    simp only [applyOutput, hfound, Act.exec_bind, Act.exec_lift, transformed_of_none hb, pure_bind]
    exact hwritten
  simp only [applyOutputs, List.forM_eq_forM, List.forM_cons, Act.exec_bind, hone]
  rfl

/-- An input without a transform stores what it finds in an external store. -/
theorem exec_applyInputs (hb : b.transform = none) (hstore : b.source.store ≠ .context) {fx : Effects}
    (hread : fx.stores.read b.source.store b.source.key = .ok v) (hnull : v.isNull = false) {w : Value}
    (hstored : context.stored b.target.key v = .ok w) :
    (applyInputs [b] context).exec fx = (.ok w, fx) := by
  have hfound : (Act.readStore b.source.store b.source.key).exec fx = (.ok v, fx) := by
    simp only [Act.exec, Act.readStore, hread]
  have hone : (applyInput context b).exec fx = (.ok w, fx) := by
    simp only [applyInput, if_neg hstore, Act.exec_bind, hfound, hnull, Bool.false_eq_true, if_false,
      transformed_of_none hb, pure_bind, Act.exec_lift, hstored]
  simp only [applyInputs, List.foldlM_cons, Act.exec_bind, hone]
  rfl

/-- **What an output has put into a store an input brings back**, whatever the store and the context held
before, and no other store is touched on the way. -/
theorem brings_back {out inn : Binding} (hout : out.transform = none) (hinn : inn.transform = none)
    (hplace : inn.source = out.target) (htakes : out.target.store.Takes out.target.key) {q : Path}
    (hq : Path.parse inn.target.key = .ok q) (hforward : q.WritesForward)
    (hv : context.atTextD out.source.key = .ok v) (hnull : v ≠ .null) (entered : Value) (fx : Effects) :
    ∃ stores' context', (applyOutputs [out] context).exec fx = (.ok (), { fx with stores := stores' }) ∧
      (applyInputs [inn] entered).exec { fx with stores := stores' } =
        (.ok context', { fx with stores := stores' }) ∧
      context'.atTextD inn.target.key = .ok v ∧
      ∀ other, other ≠ out.target.store → stores'.contents other = fx.stores.contents other := by
  obtain ⟨stores', hwrite, hread, hothers⟩ := Stores.read_of_write htakes fx.stores v
  have hexternal : inn.source.store ≠ .context := by
    rw [hplace]
    rintro hcontext
    rw [hcontext] at htakes
    exact htakes
  exact ⟨stores', entered.written q v, exec_applyOutputs hout hv fx hwrite,
    exec_applyInputs hinn hexternal (by rw [hplace]; exact hread) (Value.isNull_eq_false hnull)
      (Value.stored_eq hq hforward entered v),
    Value.atTextD_written hq hforward entered v, hothers⟩

/-- An output that puts a draft into a list of drafts, and an input that takes it out as an item. -/
def draftOutput : Binding :=
  { source := ⟨.context, "form.draft"⟩, target := ⟨.localStorage, "drafts[0].text"⟩ }

def draftInput : Binding :=
  { source := ⟨.localStorage, "drafts[0].text"⟩, target := ⟨.context, "found[1]"⟩ }

/-- A context with a draft, and stores in which a text stands where the list is to be. -/
def drafting : Value := .record [("form", .record [("draft", .text "Dear")])]

def draftless : Stores := { localStorage := .record [("drafts", .text "none")] }

theorem brings_back_draft : ∃ stores' context',
    parse (fun _ => none) .output (descriptor draftOutput.source draftOutput.target) = .ok draftOutput ∧
    parse (fun _ => none) .input (descriptor draftInput.source draftInput.target) = .ok draftInput ∧
    drafting.atTextD "form.draft" = .ok (.text "Dear") ∧
    (applyOutputs [draftOutput] drafting).exec { stores := draftless } = (.ok (), { stores := stores' }) ∧
    (applyInputs [draftInput] .null).exec { stores := stores' } = (.ok context', { stores := stores' }) ∧
    context'.atTextD "found[1]" = .ok (.text "Dear") ∧
    ∀ other, other ≠ Store.localStorage → stores'.contents other = draftless.contents other := by
  have hdraft : Path.parse "form.draft" = .ok [.key "form", .key "draft"] := by decide +kernel
  have hkey : Path.parse "drafts[0].text" = .ok [.key "drafts", .index 0, .key "text"] := by decide +kernel
  have hitem : Path.parse "found[1]" = .ok [.key "found", .index 1] := by decide +kernel
  have htakes : draftOutput.target.store.Takes draftOutput.target.key :=
    ⟨_, hkey, by simp [Path.WritesForward, Segment.WritesForward]⟩
  have hv : drafting.atTextD draftOutput.source.key = .ok (.text "Dear") := by
    rw [Value.atTextD, Value.atText, draftOutput, hdraft]
    rfl
  have hplace : draftInput.source = draftOutput.target := rfl
  obtain ⟨stores', context', hout, hinn, hfound, hothers⟩ := brings_back rfl rfl hplace htakes hitem
    (by simp [Path.WritesForward, Segment.WritesForward]) hv (by simp) .null { stores := draftless }
  exact ⟨stores', context', parse_output _ (by decide) (by decide) (by decide),
    parse_input _ _ (by decide) (by decide), hv, hout, hinn, hfound, hothers⟩

end Binding

end Statechart
