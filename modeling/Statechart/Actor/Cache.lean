/-
# Cached results

The result of a call may be kept under a key for some time. An entry that has expired is dropped
when it is asked for.

* `Cache.get`, `Cache.put`, `Cache.contains`, `Cache.clear`;
* `put_eq`: what is put is kept until the expiry it is given;
* `get_put`: an entry is found until it expires.
-/
import Statechart.Quantity

namespace Statechart

/-- A kept result and the second at which it expires. -/
structure CacheEntry where
  key : String
  value : Value
  expiresAt : Number
deriving Inhabited, Repr

/-- The kept results. -/
abbrev Cache := List CacheEntry

namespace Cache

/-- The entry of a key. -/
def find? (cache : Cache) (key : String) : Option CacheEntry := List.find? (·.key = key) cache

/-- The cache without a key. -/
def without (cache : Cache) (key : String) : Cache := cache.filter (·.key ≠ key)

/-- The live entry of a key, and the cache without it when it has expired. -/
def get (cache : Cache) (now : Number) (key : String) : Option CacheEntry × Cache :=
  match cache.find? key with
  | none => (none, cache)
  | some e => if now.ge e.expiresAt then (none, cache.without key) else (some e, cache)

/-- Keep a value for a number of milliseconds. -/
def put (cache : Cache) (now : Number) (key : String) (value ttl : Value) :
    Except DataFault (CacheEntry × Cache) := do
  let entry : CacheEntry := ⟨key, value, ← liftArith (now.add (← ttl.seconds))⟩
  return (entry, cache.without key ++ [entry])

/-- Whether a key has a live entry; its expired entry is dropped as `get` drops it. -/
def contains (cache : Cache) (now : Number) (key : String) : Bool × Cache :=
  let (e, cache) := cache.get now key
  (e.isSome, cache)

/-- Nothing is kept any more. -/
def clear (_ : Cache) : Cache := []

/-- The second at which something put now expires. -/
def expiry (now : Number) (ttl : Value) : Except DataFault Number := do
  liftArith (now.add (← ttl.seconds))

theorem put_eq (cache : Cache) (now : Number) (key : String) (value ttl : Value) :
    cache.put now key value ttl = (expiry now ttl).map fun second =>
      (⟨key, value, second⟩, cache.without key ++ [⟨key, value, second⟩]) := by
  unfold put expiry
  simp only [bind, Except.bind]
  cases ttl.seconds with
  | error e => rfl
  | ok seconds => cases now.add seconds <;> rfl

theorem find?_without_self (cache : Cache) (key : String) : (cache.without key).find? key = none := by
  simp [find?, without]

theorem find?_without_of_ne {key other : String} (h : other ≠ key) (cache : Cache) :
    (cache.without key).find? other = cache.find? other := by
  unfold find? without
  rw [List.find?_filter]
  congr 1
  funext e
  by_cases he : e.key = other
  · simp [he, h]
  · simp [he]

theorem find?_append_self (cache : Cache) (e : CacheEntry) :
    find? (cache.without e.key ++ [e]) e.key = some e := by
  have h := find?_without_self cache e.key
  unfold find? at h ⊢
  rw [List.find?_append, h]
  simp

theorem find?_append_of_ne {e : CacheEntry} {key : String} (h : key ≠ e.key) (cache : Cache) :
    find? (cache.without e.key ++ [e]) key = cache.find? key := by
  have hother := find?_without_of_ne h cache
  unfold find? at hother ⊢
  rw [List.find?_append, hother]
  simp [Ne.symm h]

theorem get_of_none {cache : Cache} {key : String} (h : cache.find? key = none) (now : Number) :
    cache.get now key = (none, cache) := by
  rw [get, h]

theorem get_of_ge {cache : Cache} {key : String} {now : Number} {e : CacheEntry}
    (h : cache.find? key = some e) (hge : now.ge e.expiresAt = true) :
    cache.get now key = (none, cache.without key) := by
  rw [get, h]
  exact if_pos hge

theorem get_of_not_ge {cache : Cache} {key : String} {now : Number} {e : CacheEntry}
    (h : cache.find? key = some e) (hge : ¬ now.ge e.expiresAt = true) :
    cache.get now key = (some e, cache) := by
  rw [get, h]
  exact if_neg hge

/-- Looking for one key leaves what is kept under the others. -/
theorem find?_get_of_ne {key other : String} (h : other ≠ key) (cache : Cache) (now : Number) :
    (cache.get now key).2.find? other = cache.find? other := by
  unfold get
  split
  · rfl
  · split
    · exact find?_without_of_ne h cache
    · rfl

/-- What is found was kept under the key, -/
theorem mem_of_get {cache cache' : Cache} {now : Number} {key : String} {e : CacheEntry}
    (h : cache.get now key = (some e, cache')) : e ∈ cache ∧ e.key = key := by
  unfold get find? at h
  split at h
  · cases h
  · rename_i e' hfind
    split at h
    · cases h
    · cases h
      exact ⟨List.mem_of_find?_eq_some hfind, by simpa using List.find?_some hfind⟩

/-- and looking for it keeps nothing else. -/
theorem get_subset {cache : Cache} {now : Number} {key : String} :
    (cache.get now key).2 ⊆ cache := by
  unfold get
  split
  · exact List.Subset.refl _
  · split
    · intro e he
      exact (List.mem_filter.mp he).1
    · exact List.Subset.refl _

/-- A value that is kept takes the place of what was kept under its key. -/
theorem put_eq_ok {cache cache' : Cache} {now : Number} {key : String} {value ttl : Value}
    {e : CacheEntry} (h : cache.put now key value ttl = .ok (e, cache')) :
    e.key = key ∧ e.value = value ∧ cache' = cache.without key ++ [e] := by
  rw [put_eq] at h
  cases hexpiry : expiry now ttl with
  | error f =>
    rw [hexpiry] at h
    cases h
  | ok second =>
    rw [hexpiry] at h
    cases h
    exact ⟨rfl, rfl, rfl⟩

/-- What is kept after a value has been is that value under its key, or was kept before. -/
theorem mem_of_put {cache cache' : Cache} {now : Number} {key : String} {value ttl : Value}
    {entry e : CacheEntry} (h : cache.put now key value ttl = .ok (entry, cache')) (he : e ∈ cache') :
    e ∈ cache ∨ (e.key = key ∧ e.value = value) := by
  obtain ⟨hkey, hvalue, rfl⟩ := put_eq_ok h
  rcases List.mem_append.mp he with he | he
  · exact .inl (List.mem_filter.mp he).1
  · obtain rfl := List.mem_singleton.mp he
    exact .inr ⟨hkey, hvalue⟩

/-- An entry that has been kept is found until it expires. -/
theorem get_put {cache cache' : Cache} {now later : Number} {key : String} {value ttl : Value}
    {e : CacheEntry} (h : cache.put now key value ttl = .ok (e, cache')) :
    (cache'.get later key).1 = if later.ge e.expiresAt then none else some e := by
  obtain ⟨rfl, -, rfl⟩ := put_eq_ok h
  rw [get, find?_append_self]
  dsimp only
  split <;> rfl

end Cache

end Statechart
