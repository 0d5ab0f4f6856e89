/-
# What an expression reads

The paths that an expression reads from a flow can be listed without evaluating it (`pathsRead`).  When
its paths are written out, the values at these paths are all that its outcome can depend on: the body
of a quantifier is evaluated on items, and what belongs to no operator is not evaluated at all.  Two
kinds of paths are not in the list, though they are read: those in a variable's default, and those that
`missing` is given in one list.

* `ReadsLiterally`: wherever a flow is read, the path is written out;
* `pathsUnlisted`: the paths that are read and not listed;
* `meaning_eq_of_agree`, **`evaluate_eq_of_agree`**: data that agree on these paths give one outcome;
* `Guard.test_eq_of_agree`: the verdict of a guard depends on the paths that the guard says it reads.
-/
import Statechart.Proofs.Vocabulary

namespace Statechart

/-! ## 1. Expressions whose paths are written out -/

/-- A path that is written out: a text that is not empty. -/
def Value.IsPath (v : Value) : Prop := ∃ s, v = .text s ∧ s ≠ ""

/-- Operators that see the data through their operands only, and these on the data they get. -/
def Operator.IsPlain : Operator → Prop
  | eager _ | cond | and | or => True
  | var | missing | each _ => False

/-- Wherever an expression reads a flow, the path is written out.  Nothing is asked of the body of a
quantifier nor of what belongs to no operator: a flow is not what they are evaluated on. -/
inductive ReadsLiterally : Value → Prop
  | literal {v : Value} (h : v.IsLiteral) : ReadsLiterally v
  | list {vs : List Value} (items : ∀ v ∈ vs, ReadsLiterally v) : ReadsLiterally (.list vs)
  | var {k : Key} {v path : Value} {rest : List Value} (hk : Operator.ofKey? k = some .var)
    (hv : v.operands = path :: rest) (written : path.IsPath)
    (default : ∀ w, rest.head? = some w → ReadsLiterally w) : ReadsLiterally (.dict [(k, v)])
  | missing {k : Key} {v : Value} (hk : Operator.ofKey? k = some .missing)
    (written : ∀ w ∈ v.operands, w.IsPath) : ReadsLiterally (.dict [(k, v)])
  | missingInList {k : Key} {v : Value} {ps : List Value} (hk : Operator.ofKey? k = some .missing)
    (hv : v.operands = [.list ps]) (written : ∀ w ∈ ps, w.IsPath) : ReadsLiterally (.dict [(k, v)])
  | each {k : Key} {v : Value} {q : Quantifier} (hk : Operator.ofKey? k = some (.each q))
    (items : ∀ w, v.operands.head? = some w → ReadsLiterally w) : ReadsLiterally (.dict [(k, v)])
  | plain {k : Key} {v : Value} {op : Operator} (hk : Operator.ofKey? k = some op) (plain : op.IsPlain)
    (operands : ∀ w ∈ v.operands, ReadsLiterally w) : ReadsLiterally (.dict [(k, v)])
  | unknown {k : Key} {v : Value} (hk : Operator.ofKey? k = none) : ReadsLiterally (.dict [(k, v)])
  | malformed {es : Entries} (h : es.length ≠ 1) : ReadsLiterally (.dict es)

/-- The paths among operands that are one list. -/
def pathsInList : List Value → List String
  | [.list ps] => ps.filterMap Value.text?
  | _ => []

mutual

/-- The paths that an expression reads from a flow and that are not listed: those of defaults, and
those that `missing` is given in one list. -/
def pathsUnlisted : Value → List String
  | .list vs => pathsUnlistedIn vs
  | .dict [(k, .list vs)] =>
    match Operator.ofKey? k with
    | some .var => pathsInDefault vs
    | some .missing => pathsInList vs
    | some (.each _) => pathsUnlistedInFirst vs
    | _ => pathsUnlistedIn vs
  | .dict [(k, v)] =>
    match Operator.ofKey? k with
    | some .var | some .missing => []
    | _ => pathsUnlisted v
  | _ => []

def pathsUnlistedIn : List Value → List String
  | [] => []
  | v :: vs => pathsUnlisted v ++ pathsUnlistedIn vs

def pathsUnlistedInFirst : List Value → List String
  | [] => []
  | v :: _ => pathsUnlisted v

/-- The paths read by the default of a variable, which is its second operand. -/
def pathsInDefault : List Value → List String
  | _ :: v :: _ => pathsRead v ++ pathsUnlisted v
  | _ => []

end

theorem pathsUnlistedIn_eq (vs : List Value) : pathsUnlistedIn vs = vs.flatMap pathsUnlisted := by
  induction vs with
  | nil => rw [pathsUnlistedIn, List.flatMap_nil]
  | cons v vs ih => rw [pathsUnlistedIn, ih, List.flatMap_cons]

theorem pathsUnlistedInFirst_eq (vs : List Value) :
    pathsUnlistedInFirst vs = vs.head?.toList.flatMap pathsUnlisted := by
  cases vs <;> simp [pathsUnlistedInFirst]

/-- What an application leaves out, in terms of its operands. -/
theorem pathsUnlisted_apply (k : Key) (v : Value) :
    pathsUnlisted (.dict [(k, v)]) = match Operator.ofKey? k with
      | some .var => pathsInDefault v.operands
      | some .missing => pathsInList v.operands
      | some (.each _) => v.operands.head?.toList.flatMap pathsUnlisted
      | _ => v.operands.flatMap pathsUnlisted := by
  cases v with
  | list vs =>
    rw [pathsUnlisted]
    cases Operator.ofKey? k with
    | none => simp [Value.operands, pathsUnlistedIn_eq]
    | some op => cases op <;> simp [Value.operands, pathsUnlistedIn_eq, pathsUnlistedInFirst_eq]
  | _ =>
    -- a single operand, which is no list and leaves no room for a default
    rw [pathsUnlisted]
    · cases Operator.ofKey? k with
      | none => simp [Value.operands]
      | some op => cases op <;> simp [Value.operands, pathsInDefault, pathsInList]
    · exact fun _ h => by cases h

theorem pathsRead_plain {k : Key} {op : Operator} (hk : Operator.ofKey? k = some op)
    (plain : op.IsPlain) (v : Value) : pathsRead (.dict [(k, v)]) = v.operands.flatMap pathsRead := by
  rw [pathsRead_apply, hk]
  cases op <;> first | rfl | exact plain.elim

theorem pathsUnlisted_plain {k : Key} {op : Operator} (hk : Operator.ofKey? k = some op)
    (plain : op.IsPlain) (v : Value) :
    pathsUnlisted (.dict [(k, v)]) = v.operands.flatMap pathsUnlisted := by
  rw [pathsUnlisted_apply, hk]
  cases op <;> first | rfl | exact plain.elim

/-! ## 2. Operators on operands that agree -/

namespace Meaning

variable {d d' : Data} {ms : List Meaning}

theorem values_congr (h : ∀ m ∈ ms, m d = m d') : values ms d = values ms d' := by
  induction ms with
  | nil => rfl
  | cons m ms ih =>
    have hrest : values ms d = values ms d' := ih fun n hn => h n (List.mem_cons_of_mem m hn)
    simp only [values, List.mapM_cons] at hrest ⊢
    rw [h m List.mem_cons_self, hrest]

theorem cond_congr (h : ∀ m ∈ ms, m d = m d') : cond ms d = cond ms d' := by
  induction ms, d using cond.induct with
  | case1 => rfl
  | case2 m d => exact h m List.mem_cons_self
  | case3 c t rest d ih =>
    have hrest : cond rest d = cond rest d' := ih fun m hm => h m (by simp [hm])
    simp only [cond, h c (by simp), h t (by simp), hrest]

theorem andFrom_congr (h : ∀ m ∈ ms, m d = m d') (value : Value) :
    andFrom value ms d = andFrom value ms d' := by
  induction ms generalizing value with
  | nil => rfl
  | cons m ms ih =>
    have hrest : ∀ v, andFrom v ms d = andFrom v ms d' :=
      ih fun n hn => h n (List.mem_cons_of_mem m hn)
    simp only [andFrom, h m List.mem_cons_self, hrest]

theorem orFrom_congr (h : ∀ m ∈ ms, m d = m d') (value : Value) :
    orFrom value ms d = orFrom value ms d' := by
  induction ms generalizing value with
  | nil => rfl
  | cons m ms ih =>
    have hrest : ∀ v, orFrom v ms d = orFrom v ms d' :=
      ih fun n hn => h n (List.mem_cons_of_mem m hn)
    simp only [orFrom, h m List.mem_cons_self, hrest]

/-- A plain operator makes one thing of operands that agree. -/
theorem apply_congr {op : Operator} (hop : op.IsPlain) (h : ∀ m ∈ ms, m d = m d') :
    apply op ms d = apply op ms d' := by
  cases op with
  | eager e => simp only [apply, values_congr h]
  | cond => exact cond_congr h
  | and => simp only [apply, and, andFrom_congr h]
  | or => simp only [apply, or, orFrom_congr h]
  | var => exact hop.elim
  | missing => exact hop.elim
  | each q => exact hop.elim

/-- The body of a quantifier does not see the data. -/
theorem each_congr (q : Quantifier) (h : ∀ m, ms.head? = some m → m d = m d') :
    each q ms d = each q ms d' := by
  match ms with
  | [items, body] => simp only [each, h items rfl]
  | [] | [_] | _ :: _ :: _ :: _ => rfl

/-- A variable whose path is written out is looked up, after its default has been evaluated. -/
theorem var_written {s : String} (hs : s ≠ "") (ms : List Meaning) (d : Data) :
    var ((fun _ => .ok (.text s)) :: ms) d = do
      let default ← (ms.head?.getD fun _ => .ok .null) d
      let v ← d.lookup s
      return if v.isNull then default else v := by
  have hpath : variablePath? (.text s) = .ok (some s) := by simp [variablePath?, hs]
  cases ms with
  | nil => simp only [var, bind, Except.bind, hpath, List.head?_nil, Option.getD_none]
  | cons m ms => simp only [var, bind, Except.bind, hpath, List.head?_cons, Option.getD_some]

theorem missingOf_text (s : String) (ps : List Value) (d : Data) :
    missingOf d (.text s :: ps) = do
      let v ← d.lookup s
      let rest ← missingOf d ps
      return if isMissing v then .text s :: rest else rest := rfl

theorem missingOf_congr {ps : List Value} (hp : ∀ p ∈ ps, p.IsPath)
    (h : ∀ s ∈ ps.filterMap Value.text?, d.lookup s = d'.lookup s) :
    missingOf d ps = missingOf d' ps := by
  induction ps with
  | nil => rfl
  | cons p ps ih =>
    obtain ⟨s, rfl, -⟩ := hp p List.mem_cons_self
    have hs : d.lookup s = d'.lookup s := h s (by simp [Value.text?])
    have hrest : missingOf d ps = missingOf d' ps :=
      ih (fun q hq => hp q (List.mem_cons_of_mem _ hq)) fun t ht => h t (by simp [Value.text?, ht])
    rw [missingOf_text, missingOf_text, hs, hrest]

/-- Paths that are written out mean themselves. -/
theorem values_written {ps : List Value} (h : ∀ p ∈ ps, p.IsPath) (d : Data) :
    values (ps.map meaning) d = .ok ps := by
  induction ps with
  | nil => rfl
  | cons p ps ih =>
    obtain ⟨s, rfl, -⟩ := h p List.mem_cons_self
    have hrest := ih fun q hq => h q (List.mem_cons_of_mem _ hq)
    simp only [values, List.map_cons, List.mapM_cons] at hrest ⊢
    rw [hrest]
    rfl

theorem missing_written {ps : List Value} (h : ∀ p ∈ ps, p.IsPath) (d : Data) :
    missing (ps.map meaning) d = Value.list <$> missingOf d ps := by
  simp only [missing, values_written h d]
  match ps, h with
  | [], _ => rfl
  | p :: ps, h =>
    -- a path is no list
    obtain ⟨s, rfl, -⟩ := h p List.mem_cons_self
    cases ps <;> rfl

/-- Paths in one list are looked up as if they were written singly. -/
theorem missing_writtenInList {ps : List Value} (h : ∀ p ∈ ps, p.IsPath) (d : Data) :
    missing [meaning (.list ps)] d = Value.list <$> missingOf d ps := by
  have hlist : meaning (.list ps) d = .ok (.list ps) := by
    rw [meaning_list]
    simp only [values_written h d]
    rfl
  have hvalues : values [meaning (.list ps)] d = .ok [.list ps] := by
    simp only [values, List.mapM_cons, List.mapM_nil, hlist]
    rfl
  simp only [missing, hvalues]
  rfl

end Meaning

/-! ## 3. Expressions on data that agree -/

variable {d d' : Data}

/-- Parts that mean the same on data that agree on the paths which they read. -/
theorem meanings_eq_of_agree {vs : List Value}
    (ih : ∀ v ∈ vs, (∀ p ∈ pathsRead v, d.lookup p = d'.lookup p) →
      (∀ p ∈ pathsUnlisted v, d.lookup p = d'.lookup p) → meaning v d = meaning v d')
    (hlisted : ∀ p ∈ vs.flatMap pathsRead, d.lookup p = d'.lookup p)
    (hunlisted : ∀ p ∈ vs.flatMap pathsUnlisted, d.lookup p = d'.lookup p) :
    ∀ m ∈ vs.map meaning, m d = m d' :=
  List.forall_mem_map.mpr fun v hv => ih v hv
    (fun p hp => hlisted p (List.mem_flatMap.mpr ⟨v, hv, hp⟩))
    (fun p hp => hunlisted p (List.mem_flatMap.mpr ⟨v, hv, hp⟩))

/-- **The outcome of an expression depends on the paths it reads alone**: data that agree on them,
listed and unlisted, are the same to it. -/
theorem meaning_eq_of_agree {e : Value} (he : ReadsLiterally e)
    (hlisted : ∀ p ∈ pathsRead e, d.lookup p = d'.lookup p)
    (hunlisted : ∀ p ∈ pathsUnlisted e, d.lookup p = d'.lookup p) : meaning e d = meaning e d' := by
  induction he with
  | literal h => rw [meaning_literal h]
  | @list vs _ ih =>
    rw [pathsRead, pathsReadIn_eq] at hlisted
    rw [pathsUnlisted, pathsUnlistedIn_eq] at hunlisted
    simp only [meaning_list, Meaning.values_congr (meanings_eq_of_agree ih hlisted hunlisted)]
  | @var k v path rest hk hv written _ ih =>
    obtain ⟨s, rfl, hs⟩ := written
    simp only [pathsRead_apply, hk, literalVariable, Value.firstOperand?_eq, hv] at hlisted
    simp only [pathsUnlisted_apply, hk, hv] at hunlisted
    have hread : d.lookup s = d'.lookup s := hlisted s (by simp [hs])
    have hdefault : ((rest.map meaning).head?.getD fun _ => .ok .null) d =
        ((rest.map meaning).head?.getD fun _ => .ok .null) d' := by
      cases rest with
      | nil => rfl
      | cons w rest =>
        -- all that the default reads is unlisted
        exact ih w rfl (fun p hp => hunlisted p (List.mem_append_left _ hp))
          fun p hp => hunlisted p (List.mem_append_right _ hp)
    have hpath : meaning (.text s) = fun _ => .ok (.text s) := meaning_literal trivial
    simp only [meaning_apply, Meaning.applyNamed, hk, Meaning.apply, hv, List.map_cons, hpath,
      Meaning.var_written hs, hread, hdefault]
  | @missing k v hk written =>
    simp only [pathsRead_apply, hk] at hlisted
    simp only [meaning_apply, Meaning.applyNamed, hk, Meaning.apply, Meaning.missing_written written,
      Meaning.missingOf_congr written hlisted]
  | @missingInList k v ps hk hv written =>
    simp only [pathsUnlisted_apply, hk, hv, pathsInList] at hunlisted
    simp only [meaning_apply, Meaning.applyNamed, hk, Meaning.apply, hv, List.map_cons, List.map_nil,
      Meaning.missing_writtenInList written, Meaning.missingOf_congr written hunlisted]
  | @each k v q hk _ ih =>
    simp only [pathsRead_apply, hk] at hlisted
    simp only [pathsUnlisted_apply, hk] at hunlisted
    simp only [meaning_apply, Meaning.applyNamed, hk, Meaning.apply]
    refine Meaning.each_congr q fun m hm => ?_
    obtain ⟨w, hw, rfl⟩ := Option.map_eq_some_iff.mp (List.head?_map ▸ hm)
    simp only [hw, Option.toList_some, List.flatMap_singleton] at hlisted hunlisted
    exact ih w hw hlisted hunlisted
  | @plain k v op hk plain _ ih =>
    rw [pathsRead_plain hk plain] at hlisted
    rw [pathsUnlisted_plain hk plain] at hunlisted
    simp only [meaning_apply, Meaning.applyNamed, hk]
    exact Meaning.apply_congr plain (meanings_eq_of_agree ih hlisted hunlisted)
  | unknown hk => simp only [meaning_apply, Meaning.applyNamed, hk]
  | malformed h => rw [meaning_malformed h]; rfl

theorem lookup_flow_eq {p : String} {context event context' event' : Value}
    (h : lookupScoped p context event = lookupScoped p context' event') :
    (Data.flow context event).lookup p = (Data.flow context' event').lookup p := by
  simp only [Data.lookup, h]

/-- **Two flows that agree on the paths an expression reads give it one outcome**, a value or a failure.
Those that are not listed have to be asked for separately. -/
theorem evaluate_eq_of_agree {e context event context' event' : Value} (he : ReadsLiterally e)
    (hlisted : ∀ p ∈ pathsRead e, lookupScoped p context event = lookupScoped p context' event')
    (hunlisted : ∀ p ∈ pathsUnlisted e,
      lookupScoped p context event = lookupScoped p context' event') :
    evaluate e context event = evaluate e context' event' := by
  have hmeaning := meaning_eq_of_agree he (fun p hp => lookup_flow_eq (hlisted p hp))
    fun p hp => lookup_flow_eq (hunlisted p hp)
  simp only [evaluate, hmeaning]

/-- The limit of a context, or else that of the event. -/
def limit : Value :=
  .record [("var", .list [.text "context.limit", .record [("var", .text "event.limit")]])]

/-- Whether an order can be sent: nothing that it takes is missing, some line weighs three, and the
limit lies above two. -/
def sendable : Value :=
  .record [("and", .list [
    .record [("!", .record [("missing", .list [.list [.text "address", .text "event.by"]])])],
    .record [("some", .list [.record [("var", .text "lines")],
      .record [("==", .list [.record [("var", .text "weight")], .int 3])]])],
    .record [("<", .list [.int 2, limit])]])]

/-- A variable without a default. -/
theorem readsLiterally_var {s : String} (hs : s ≠ "") : ReadsLiterally (.record [("var", .text s)]) :=
  .var (k := .text "var") rfl rfl ⟨s, rfl, hs⟩ nofun

theorem readsLiterally_limit : ReadsLiterally limit :=
  .var rfl rfl ⟨"context.limit", rfl, by decide⟩ fun _ hw =>
    Option.some.inj hw ▸ readsLiterally_var (by decide)

theorem readsLiterally_sendable : ReadsLiterally sendable := by
  have hmissing : ReadsLiterally
      (.record [("missing", .list [.list [.text "address", .text "event.by"]])]) :=
    .missingInList rfl rfl (by simp [Value.IsPath])
  have hlines : ReadsLiterally (.record [("some", .list [.record [("var", .text "lines")],
      .record [("==", .list [.record [("var", .text "weight")], .int 3])]])]) :=
    .each rfl fun _ hw => Option.some.inj hw ▸ readsLiterally_var (by decide)
  refine .plain rfl trivial (List.forall_mem_cons.mpr ⟨.plain rfl trivial ?_,
    List.forall_mem_cons.mpr ⟨hlines, List.forall_mem_singleton.mpr (.plain rfl trivial ?_)⟩⟩)
  · exact List.forall_mem_singleton.mpr hmissing
  · exact List.forall_mem_cons.mpr
      ⟨.literal trivial, List.forall_mem_singleton.mpr readsLiterally_limit⟩

/-- An order with a place to send to and a line that weighs three, after some notes. -/
def orderWith (notes : List (String × Value)) : Value :=
  .record (notes ++ [("address", .text "here"), ("lines", .list [.record [("weight", .int 3)]])])

/-- Notes, and what else comes with an event, make no difference. -/
theorem evaluate_eq_of_agree_order :
    (evaluate sendable (orderWith []) (.record [("by", .text "post"), ("limit", .int 4)])).toOption.map
        Value.holds = some true ∧
      evaluate sendable (orderWith []) (.record [("by", .text "post"), ("limit", .int 4)]) =
        evaluate sendable (orderWith [("limit", .null), ("note", .text "urgent")])
          (.record [("limit", .int 4), ("at", .int 9), ("by", .text "post")]) := by
  refine ⟨by decide +kernel, evaluate_eq_of_agree readsLiterally_sendable ?_ ?_⟩
  · have hlisted : pathsRead sendable = ["lines", "context.limit"] := by decide +kernel
    rw [hlisted]
    simp only [List.forall_mem_cons]
    exact ⟨rfl, rfl, by simp⟩
  · have hunlisted : pathsUnlisted sendable = ["address", "event.by", "event.limit"] := by
      decide +kernel
    rw [hunlisted]
    simp only [List.forall_mem_cons]
    exact ⟨rfl, rfl, rfl, by simp⟩

/-- **The list alone does not determine the outcome**: the path of a default is read and not listed. -/
theorem unlisted_of_default :
    ¬ ∀ e context event context' event', ReadsLiterally e →
      (∀ p ∈ pathsRead e, lookupScoped p context event = lookupScoped p context' event') →
        evaluate e context event = evaluate e context' event' := by
  intro h
  have hlisted : pathsRead limit = ["context.limit"] := by decide +kernel
  have hsame : evaluate limit .null (.record [("limit", .int 1)]) = evaluate limit .null .null :=
    h limit _ _ _ _ readsLiterally_limit (by
      rw [hlisted]
      exact List.forall_mem_singleton.mpr rfl)
  exact absurd hsame nofun

/-! ## 4. Guards -/

theorem splitScope_fullyScoped (path : String) : splitScope (fullyScoped path) = splitScope path :=
  splitScope_join _ _

theorem lookupScoped_fullyScoped (path : String) (context event : Value) :
    lookupScoped (fullyScoped path) context event = lookupScoped path context event := by
  rw [lookupScoped, splitScope_fullyScoped, lookupScoped]

namespace Guard

/-- What a guard says it reads is all that it reads: the paths of an expression are written out and
listed, and code of the host keeps to its word. -/
def ReadsAsListed : Guard → Prop
  | field .. => True
  | logic _ e => ReadsLiterally e ∧ pathsUnlisted e = []
  | host _ code => ∀ context event context' event',
    (∀ p ∈ code.reads, lookupScoped p context event = lookupScoped p context' event') →
      code.decide context event = code.decide context' event'

/-- **The verdict of a guard depends on the paths that it says it reads**, if it reads as listed. -/
theorem test_eq_of_agree {g : Guard} {context event context' event' : Value} (hg : g.ReadsAsListed)
    (h : ∀ p ∈ g.reads, lookupScoped p context event = lookupScoped p context' event') :
    g.test context event = g.test context' event' := by
  cases g with
  | field name check path literal =>
    have hpath := h (fullyScoped path) List.mem_cons_self
    rw [lookupScoped_fullyScoped, lookupScoped_fullyScoped] at hpath
    simp only [test, hpath]
  | logic name e =>
    obtain ⟨he, hnone⟩ := hg
    have hlisted : ∀ p ∈ Statechart.pathsRead e,
        lookupScoped p context event = lookupScoped p context' event' := fun p hp => by
      have hpath := h (fullyScoped p) (mem_distinctSorted.mpr (List.mem_map_of_mem hp))
      rwa [lookupScoped_fullyScoped, lookupScoped_fullyScoped] at hpath
    have hmeaning := meaning_eq_of_agree he (fun p hp => lookup_flow_eq (hlisted p hp))
      (by simp [hnone])
    simp only [test, evaluateBool, evaluate, hmeaning]
  | host name code =>
    have hsame := hg context event context' event' fun p hp => h p (mem_distinctSorted.mpr hp)
    simp only [test, hsame]

end Guard

end Statechart
