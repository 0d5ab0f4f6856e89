/-
# Stores

Outside its context a flow can reach three stores: the query of the current address, whose keys are
flat, and two storages, whose keys are paths. References to data name the store before the key.

* `Store.split`: the store and the key of a reference;
* `Stores.read`, `Stores.write`: access to the external stores;
* `read_write_query`: what has been written to the query is read back.
-/
import Statechart.Fault

namespace Statechart

/-- The places a binding can read from or write to. -/
inductive Store where
  | context | query | localStorage | sessionStorage
deriving DecidableEq, Repr, Inhabited

namespace Store

/-- The name of a store, which begins every reference to it. -/
def label : Store → String
  | context => "context"
  | query => "url.query"
  | localStorage => "localStorage"
  | sessionStorage => "sessionStorage"

def all : List Store := [sessionStorage, localStorage, query, context]

/-- The store of a name. -/
def ofLabel? (s : String) : Option Store := all.find? (·.label = s)

/-- The store and the key of a reference; the key is not empty. -/
def split (ref : String) : Option (Store × String) :=
  all.findSome? fun store =>
    match afterStart? (store.label ++ ".") ref with
    | some key => if key.isEmpty then none else some (store, key)
    | none => none

/-- A reference to a key of a store. -/
def reference (store : Store) (key : String) : String := store.label ++ "." ++ key

end Store

/-- A value with another stored at a path text. -/
def Value.stored (container : Value) (path : String) (v : Value) : Except Fault Value := do
  match container.put? (← liftData (liftPath (Path.parse path))) v with
  | some w => return w
  | none => .error (.data .outOfRange)

/-- The contents of the external stores. -/
structure Stores where
  query : Entries := []
  localStorage : Value := .dict []
  sessionStorage : Value := .dict []
deriving Inhabited, Repr

namespace Stores

/-- The value under a key of an external store, null when there is none. -/
def read (stores : Stores) (store : Store) (key : String) : Except Fault Value :=
  match store with
  | .query => .ok ((Entries.lookup key stores.query).getD .null)
  | .localStorage => liftData (liftPath (stores.localStorage.atTextD key))
  | .sessionStorage => liftData (liftPath (stores.sessionStorage.atTextD key))
  | .context => .error (.notExternal store.label)

/-- The stores with a value under a key of an external store. -/
def write (stores : Stores) (store : Store) (key : String) (v : Value) : Except Fault Stores :=
  match store with
  | .query => .ok { stores with query := Entries.insert key v stores.query }
  | .localStorage => do
    return { stores with localStorage := ← stores.localStorage.stored key v }
  | .sessionStorage => do
    return { stores with sessionStorage := ← stores.sessionStorage.stored key v }
  | .context => .error (.notExternal store.label)

/-- What has been written to the query is read back. -/
theorem read_write_query {stores stores' : Stores} {key : String} {v : Value}
    (h : stores.write .query key v = .ok stores') : stores'.read .query key = .ok v := by
  simp only [write, Except.ok.injEq] at h
  subst h
  simp [read]

end Stores

end Statechart
