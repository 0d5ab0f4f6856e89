/-
# Values

Definitions, contexts, events and results are all made of one kind of data: JSON values.
Integers and floats are told apart, entries of a mapping keep their order, and a mapping read
from YAML may have keys that are not text.

* `Value.lookup`, `Value.insert`, `Value.erase`: the entries of a mapping by text key;
* `lookup_insert_self`, `lookup_insert_ne`, `lookup_erase_ne`: what a write leaves unchanged;
* `Value.kind`: the name of a value's kind, as messages spell it.
-/
namespace Statechart

/-! ## 1. Keys and values -/

/-- A key of a mapping: text in JSON, any scalar in YAML. -/
inductive Key where
  | text (s : String)
  | int (n : Int)
  | float (x : Float)
  | bool (b : Bool)
  | null
deriving DecidableEq, Repr, Inhabited

/-- A JSON value whose mappings keep the order of their entries. -/
inductive Value where
  | null
  | bool (b : Bool)
  | int (n : Int)
  | float (x : Float)
  | text (s : String)
  | list (items : List Value)
  | dict (entries : List (Key × Value))
deriving Inhabited, Repr

/-- The entries of a mapping, in order. -/
abbrev Entries := List (Key × Value)

/-- The kinds of value that messages tell apart. -/
inductive Kind where
  | null | bool | int | float | text | list | dict
deriving DecidableEq, Repr, Inhabited

namespace Kind

/-- The word for a kind inside messages. -/
def label : Kind → String
  | null => "NoneType"
  | bool => "bool"
  | int => "int"
  | float => "float"
  | text => "str"
  | list => "list"
  | dict => "dict"

end Kind

namespace Key

/-- A key as a value of its own. -/
def toValue : Key → Value
  | text s => .text s
  | int n => .int n
  | float x => .float x
  | bool b => .bool b
  | null => .null

def kind : Key → Kind
  | text _ => .text
  | int _ => .int
  | float _ => .float
  | bool _ => .bool
  | null => .null

end Key

/-! ## 2. Entries of a mapping -/

namespace Entries

/-- The value under a text key. -/
def lookup (s : String) : Entries → Option Value
  | [] => none
  | (k, v) :: rest => if k = .text s then some v else lookup s rest

/-- Store under a text key: in place when the key is there, at the end otherwise. -/
def insert (s : String) (v : Value) : Entries → Entries
  | [] => [(.text s, v)]
  | (k, w) :: rest => if k = .text s then (k, v) :: rest else (k, w) :: insert s v rest

/-- Drop the entry under a text key. -/
def erase (s : String) : Entries → Entries
  | [] => []
  | (k, w) :: rest => if k = .text s then rest else (k, w) :: erase s rest

/-- Whether a text key has an entry. -/
def has (s : String) (es : Entries) : Bool := (lookup s es).isSome

/-- The keys, in order. -/
def keys (es : Entries) : List Key := es.map (·.1)

@[simp] theorem lookup_nil (s : String) : lookup s [] = none := rfl

@[simp] theorem lookup_cons (s : String) (k : Key) (v : Value) (es : Entries) :
    lookup s ((k, v) :: es) = if k = .text s then some v else lookup s es := rfl

@[simp] theorem lookup_insert_self (s : String) (v : Value) (es : Entries) :
    lookup s (insert s v es) = some v := by
  induction es with
  | nil => simp [insert]
  | cons e es ih =>
    obtain ⟨k, w⟩ := e
    by_cases h : k = .text s <;> simp [insert, h, ih]

theorem lookup_insert_ne {s t : String} (v : Value) (es : Entries) (h : t ≠ s) :
    lookup t (insert s v es) = lookup t es := by
  induction es with
  | nil => simp [insert, Ne.symm h]
  | cons e es ih =>
    obtain ⟨k, w⟩ := e
    by_cases hk : k = .text s
    · subst hk; simp [insert, Ne.symm h]
    · simp [insert, hk, ih]

/-- Storing twice under one key is storing once. -/
theorem insert_insert (s : String) (v w : Value) (es : Entries) :
    insert s w (insert s v es) = insert s w es := by
  induction es with
  | nil => simp [insert]
  | cons e es ih =>
    obtain ⟨k, u⟩ := e
    by_cases h : k = .text s <;> simp [insert, h, ih]

/-- Storing the value that is already there changes nothing. -/
theorem insert_of_lookup {s : String} {v : Value} {es : Entries} (h : lookup s es = some v) :
    insert s v es = es := by
  induction es with
  | nil => simp at h
  | cons e es ih =>
    obtain ⟨k, u⟩ := e
    by_cases hk : k = .text s
    · simp_all [insert]
    · simp only [lookup_cons, hk, if_false] at h
      simp [insert, hk, ih h]

theorem lookup_erase_ne {s t : String} (es : Entries) (h : t ≠ s) :
    lookup t (erase s es) = lookup t es := by
  induction es with
  | nil => rfl
  | cons e es ih =>
    obtain ⟨k, w⟩ := e
    by_cases hk : k = .text s
    · subst hk; simp [erase, Ne.symm h]
    · simp [erase, hk, ih]

/-- Storing adds no key but its own. -/
theorem keys_insert (s : String) (v : Value) (es : Entries) :
    keys (insert s v es) = if .text s ∈ keys es then keys es else keys es ++ [.text s] := by
  induction es with
  | nil => simp [insert, keys]
  | cons e es ih =>
    obtain ⟨k, w⟩ := e
    by_cases hk : k = .text s
    · simp [insert, hk, keys]
    · have hk' : (Key.text s = k) = False := by simpa [eq_comm] using hk
      simp only [keys] at ih
      simp only [insert, hk, if_false, keys, List.map_cons, ih, List.mem_cons, hk', false_or]
      split <;> simp_all

end Entries

/-! ## 3. Looking into a value -/

namespace Value

def kind : Value → Kind
  | null => .null
  | bool _ => .bool
  | int _ => .int
  | float _ => .float
  | text _ => .text
  | list _ => .list
  | dict _ => .dict

/-- The entries of a mapping, none for any other value. -/
def entries : Value → Entries
  | dict es => es
  | _ => []

/-- The value under a text key of a mapping. -/
def get? (v : Value) (s : String) : Option Value := Entries.lookup s v.entries

/-- The value under a text key, null when it is missing. -/
def getD (v : Value) (s : String) (default : Value := .null) : Value := (v.get? s).getD default

def isDict : Value → Bool
  | dict _ => true
  | _ => false

def isNull : Value → Bool
  | null => true
  | _ => false

theorem isNull_eq_false {v : Value} (h : v ≠ null) : v.isNull = false := by
  cases v with
  | null => exact absurd rfl h
  | _ => rfl

/-- The text of a text value. -/
def text? : Value → Option String
  | text s => some s
  | _ => none

/-- The items of a list, none for any other value. -/
def items : Value → List Value
  | list vs => vs
  | _ => []

/-- A mapping with text keys. -/
def record (fields : List (String × Value)) : Value :=
  .dict (fields.map fun (k, v) => (.text k, v))

/-- A text or null. -/
def ofText? : Option String → Value
  | some s => .text s
  | none => .null

/-- A list of texts. -/
def texts (ss : List String) : Value := .list (ss.map .text)

/-- A value counts as absent when it is null. -/
def orNull : Option Value → Value
  | some v => v
  | none => .null

end Value

end Statechart
