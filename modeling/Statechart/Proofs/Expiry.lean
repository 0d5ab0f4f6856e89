/-
# Evicting an entry only when it is asked for

A cache drops an expired entry when its key is looked up, and not before.  So which entries it still
has depends on who asked for what and when, and two caches that were put the same values may hold
different entries.  No lookup can tell them apart: what it answers is what a table would answer that
never drops anything and looks at the clock instead (`latest`, `Live`).

* `latest_eq_some_iff`: the latest entry of a key, spelled out over the history;
* `Tracks`: every entry of the cache is the latest of its key, and the latest entry of a key is
  missing only if the clock has shown its expiry already;
* `Tracks.use`: every use of the cache keeps that, whatever the clock shows;
* **`get_iff_of_forward`**: under a clock that never goes backwards the entry found is the latest of
  its key, if it is live, and nothing otherwise; looking for one key leaves the others alone.

The clock has to move forward for the last step only: an expiry that has been reached once stays
reached (`Number.ge_trans`).  An expiry that is not a number is reached by no clock.
-/
import Statechart.Actor.Cache
import Statechart.Proofs.Order

namespace Statechart

namespace Cache

/-! ## 1. Uses of a cache -/

/-- A use of a cache, with what the clock shows at the time. -/
inductive Use where
  | put (now : Number) (key : String) (value ttl : Value)
  | get (now : Number) (key : String)
  | contains (now : Number) (key : String)
  | clear

/-- What the clock shows, for a use that may ask. -/
def Use.reading? : Use → Option Number
  | .put now _ _ _ => some now
  | .get now _ => some now
  | .contains now _ => some now
  | .clear => none

/-- The cache after a use; a value whose expiry cannot be told is not put. -/
def use (cache : Cache) : Use → Cache
  | .put now key value ttl =>
    match cache.put now key value ttl with
    | .ok (_, cache') => cache'
    | .error _ => cache
  | .get now key => (cache.get now key).2
  | .contains now key => (cache.contains now key).2
  | .clear => cache.clear

/-- The cache after a history of uses. -/
def after (uses : List Use) : Cache := uses.foldl use []

/-- What the clock has shown. -/
def readings (uses : List Use) : List Number := uses.filterMap Use.reading?

/-- A clock that never goes backwards. -/
def Forward (readings : List Number) : Prop :=
  readings.IsChain fun earlier later => later.ge earlier = true

instance (readings : List Number) : Decidable (Forward readings) :=
  inferInstanceAs (Decidable (readings.IsChain fun earlier later => later.ge earlier = true))

/-! ## 2. The latest entries -/

/-- The table of what was put last, in which nothing expires. -/
def keep (table : String → Option CacheEntry) : Use → String → Option CacheEntry
  | .put now key value ttl =>
    match expiry now ttl with
    | .ok second => fun other => if other = key then some ⟨key, value, second⟩ else table other
    | .error _ => table
  | .get _ _ => table
  | .contains _ _ => table
  | .clear => fun _ => none

/-- The entry of the most recent put for a key since everything was cleared. -/
def latest (uses : List Use) : String → Option CacheEntry := uses.foldl keep fun _ => none

/-- An entry whose expiry the clock is still below, or that has none to reach. -/
def Live (now : Number) (e : CacheEntry) : Prop :=
  now.lt e.expiresAt = true ∨ e.expiresAt.isNaN = true

/-- A use that puts nothing under a key and does not clear it. -/
def Use.Spares (key : String) : Use → Prop
  | .put now k _ ttl => k = key → ∃ f, expiry now ttl = .error f
  | .get _ _ => True
  | .contains _ _ => True
  | .clear => False

theorem keep_put_of_ok {now second : Number} {ttl : Value} (h : expiry now ttl = .ok second)
    (table : String → Option CacheEntry) (key : String) (value : Value) :
    keep table (.put now key value ttl) =
      fun other => if other = key then some ⟨key, value, second⟩ else table other := by
  simp only [keep, h]

theorem keep_put_of_error {now : Number} {ttl : Value} {f : DataFault} (h : expiry now ttl = .error f)
    (table : String → Option CacheEntry) (key : String) (value : Value) :
    keep table (.put now key value ttl) = table := by
  simp only [keep, h]

theorem keep_of_spares {u : Use} {key : String} (h : u.Spares key) (table : String → Option CacheEntry) :
    keep table u key = table key := by
  cases u with
  | put now k value ttl =>
    cases hexpiry : expiry now ttl with
    | error f => rw [keep_put_of_error hexpiry]
    | ok second =>
      have hne : key ≠ k := by
        intro heq
        obtain ⟨f, hf⟩ := h heq.symm
        rw [hexpiry] at hf
        cases hf
      rw [keep_put_of_ok hexpiry]
      exact if_neg hne
  | get now k => rfl
  | contains now k => rfl
  | clear => exact h.elim

theorem latest_concat (uses : List Use) (u : Use) : latest (uses ++ [u]) = keep (latest uses) u :=
  List.foldl_concat ..

theorem latest_append {since : List Use} {key : String} (h : ∀ u ∈ since, u.Spares key)
    (uses : List Use) : latest (uses ++ since) key = latest uses key := by
  induction since using List.reverseRecOn with
  | nil => rw [List.append_nil]
  | append_singleton since u ih =>
    rw [← List.append_assoc, latest_concat, keep_of_spares (h u (by simp))]
    exact ih fun w hw => h w (List.mem_append_left _ hw)

theorem latest_put {now : Number} {ttl : Value} {e : CacheEntry} (h : expiry now ttl = .ok e.expiresAt)
    (uses : List Use) : latest (uses ++ [.put now e.key e.value ttl]) e.key = some e := by
  rw [latest_concat, keep_put_of_ok h]
  exact if_pos rfl

/-- A use that does not spare a key puts something under it, or clears everything. -/
theorem put_or_clear_of_not_spares {u : Use} {key : String} (h : ¬ u.Spares key) :
    (∃ now value ttl second, u = .put now key value ttl ∧ expiry now ttl = .ok second) ∨ u = .clear := by
  cases u with
  | put now k value ttl =>
    obtain ⟨rfl, hput⟩ : k = key ∧ ∀ f, expiry now ttl ≠ .error f := by simpa [Use.Spares] using h
    cases hexpiry : expiry now ttl with
    | error f => exact absurd hexpiry (hput f)
    | ok second => exact .inl ⟨now, value, ttl, second, rfl, hexpiry⟩
  | get now k => exact absurd trivial h
  | contains now k => exact absurd trivial h
  | clear => exact .inr rfl

/-- The latest entry of a key, spelled out: it was put, and nothing has happened to the key since. -/
theorem latest_eq_some_iff {uses : List Use} {key : String} {e : CacheEntry} :
    latest uses key = some e ↔ ∃ before now value ttl since,
      uses = before ++ .put now key value ttl :: since ∧ expiry now ttl = .ok e.expiresAt ∧
        e.key = key ∧ e.value = value ∧ ∀ u ∈ since, u.Spares key := by
  constructor
  · intro h
    induction uses using List.reverseRecOn with
    | nil => cases h
    | append_singleton uses u ih =>
      rw [latest_concat] at h
      by_cases hspares : u.Spares key
      · rw [keep_of_spares hspares] at h
        obtain ⟨before, now, value, ttl, since, rfl, hexpiry, hkey, hvalue, hsince⟩ := ih h
        refine ⟨before, now, value, ttl, since ++ [u], by simp, hexpiry, hkey, hvalue, ?_⟩
        intro w hw
        rcases List.mem_append.mp hw with hw | hw
        · exact hsince w hw
        · obtain rfl := List.mem_singleton.mp hw
          exact hspares
      · rcases put_or_clear_of_not_spares hspares with ⟨now, value, ttl, second, rfl, hexpiry⟩ | rfl
        · have hput := latest_put (e := ⟨key, value, second⟩) hexpiry uses
          rw [latest_concat, h] at hput
          cases hput
          exact ⟨uses, now, value, ttl, [], rfl, hexpiry, rfl, rfl, by simp⟩
        · cases h
  · rintro ⟨before, now, value, ttl, since, rfl, hexpiry, rfl, rfl, hsince⟩
    rw [List.append_cons, latest_append hsince]
    exact latest_put hexpiry before

/-! ## 3. What evicting leaves of it -/

/-- A cache has the latest entries, but for those whose expiry the clock has shown. -/
structure Tracks (cache : Cache) (table : String → Option CacheEntry) (shown : List Number) : Prop where
  kept : ∀ key e, cache.find? key = some e → table key = some e
  gone : ∀ key e, cache.find? key = none → table key = some e → ∃ r ∈ shown, r.ge e.expiresAt = true
  shown_of_some : ∀ key e, table key = some e → shown ≠ []

theorem tracks_nil (shown : List Number) : Tracks [] (fun _ => none) shown := by
  constructor
  · intro key e hfind
    cases hfind
  · intro key e _ hsome
    cases hsome
  · intro key e hsome
    cases hsome

theorem Tracks.mono {cache : Cache} {table : String → Option CacheEntry} {shown shown' : List Number}
    (h : Tracks cache table shown) (hsub : shown ⊆ shown') : Tracks cache table shown' where
  kept := h.kept
  gone key e hnone hsome := by
    obtain ⟨r, hr, hge⟩ := h.gone key e hnone hsome
    exact ⟨r, hsub hr, hge⟩
  shown_of_some key e hsome := by
    intro hempty
    obtain ⟨r, hr⟩ := List.exists_mem_of_ne_nil _ (h.shown_of_some key e hsome)
    rw [hempty] at hsub
    exact List.not_mem_nil (hsub hr)

theorem Tracks.put {cache : Cache} {table : String → Option CacheEntry} {shown : List Number}
    (h : Tracks cache table shown) (now : Number) (e : CacheEntry) :
    Tracks (cache.without e.key ++ [e]) (fun other => if other = e.key then some e else table other)
      (shown ++ [now]) where
  kept key e' hfind := by
    by_cases hkey : key = e.key
    · rw [hkey, find?_append_self] at hfind
      rw [if_pos hkey, hfind]
    · rw [find?_append_of_ne hkey] at hfind
      rw [if_neg hkey]
      exact h.kept key e' hfind
  gone key e' hnone hsome := by
    by_cases hkey : key = e.key
    · rw [hkey, find?_append_self] at hnone
      cases hnone
    · rw [find?_append_of_ne hkey] at hnone
      rw [if_neg hkey] at hsome
      exact (h.mono (List.subset_append_left _ _)).gone key e' hnone hsome
  shown_of_some _ _ _ := by simp

/-- Looking for a key drops its entry only when the clock shows its expiry. -/
theorem Tracks.get {cache : Cache} {table : String → Option CacheEntry} {shown : List Number}
    (h : Tracks cache table shown) (now : Number) (key : String) :
    Tracks (cache.get now key).2 table (shown ++ [now]) := by
  have hmono := h.mono (List.subset_append_left shown [now])
  cases hfind : cache.find? key with
  | none =>
    rw [get_of_none hfind]
    exact hmono
  | some e =>
    by_cases hexpired : now.ge e.expiresAt = true
    · rw [get_of_ge hfind hexpired]
      constructor
      · intro other e' hfind'
        by_cases hkey : other = key
        · rw [hkey, find?_without_self] at hfind'
          cases hfind'
        · rw [find?_without_of_ne hkey] at hfind'
          exact h.kept other e' hfind'
      · intro other e' hnone hsome
        by_cases hkey : other = key
        · rw [hkey, h.kept key e hfind] at hsome
          cases hsome
          exact ⟨now, by simp, hexpired⟩
        · rw [find?_without_of_ne hkey] at hnone
          exact hmono.gone other e' hnone hsome
      · exact hmono.shown_of_some
    · rw [get_of_not_ge hfind hexpired]
      exact hmono

theorem Tracks.use {cache : Cache} {table : String → Option CacheEntry} {shown : List Number}
    (h : Tracks cache table shown) (u : Use) :
    Tracks (cache.use u) (keep table u) (shown ++ u.reading?.toList) := by
  cases u with
  | put now key value ttl =>
    have hput := put_eq cache now key value ttl
    cases hexpiry : expiry now ttl with
    | error f =>
      rw [hexpiry] at hput
      have hsame : cache.use (.put now key value ttl) = cache := by
        simp only [Cache.use, hput, Except.map]
      rw [hsame, keep_put_of_error hexpiry]
      exact h.mono (List.subset_append_left _ _)
    | ok second =>
      rw [hexpiry] at hput
      have hadded : cache.use (.put now key value ttl) = cache.without key ++ [⟨key, value, second⟩] := by
        simp only [Cache.use, hput, Except.map]
      rw [hadded, keep_put_of_ok hexpiry]
      exact h.put now ⟨key, value, second⟩
  | get now key => exact h.get now key
  | contains now key => exact h.get now key
  | clear => exact tracks_nil _

/-- After any history the cache has the latest entries, but for those whose expiry was shown. -/
theorem tracks_after (uses : List Use) : Tracks (after uses) (latest uses) (readings uses) := by
  induction uses using List.reverseRecOn with
  | nil => exact tracks_nil _
  | append_singleton uses u ih =>
    have hreadings : readings (uses ++ [u]) = readings uses ++ u.reading?.toList := by
      unfold readings
      rw [List.filterMap_append]
      cases hr : u.reading? <;> simp [hr]
    have hafter : after (uses ++ [u]) = (after uses).use u := List.foldl_concat ..
    rw [hreadings, hafter, latest_concat]
    exact ih.use u

/-! ## 4. What a lookup answers -/

/-- A clock that never goes backwards shows at last no less than it ever did. -/
theorem Forward.ge_last {shown : List Number} {now : Number} (h : Forward (shown ++ [now])) :
    ∀ r ∈ shown, now.ge r = true := by
  have htrans : IsTrans Number fun earlier later => later.ge earlier = true :=
    ⟨fun _ _ _ hab hbc => Number.ge_trans hbc hab⟩
  have hpairs := List.isChain_iff_pairwise.mp h
  intro r hr
  exact (List.pairwise_append.mp hpairs).2.2 r hr now (by simp)

theorem not_live_of_ge {now : Number} {e : CacheEntry} (h : now.ge e.expiresAt = true) :
    ¬ Live now e := by
  intro hlive
  have hnot := Number.not_ge_iff.mpr (hlive.imp_right .inr)
  rw [h] at hnot
  cases hnot

/-- An entry that has not expired is live, if the clock shows a number. -/
theorem live_of_not_ge {now : Number} {e : CacheEntry} (hnow : now.isNaN = false)
    (h : ¬ now.ge e.expiresAt = true) : Live now e := by
  rcases Number.not_ge_iff.mp (Bool.not_eq_true _ ▸ h) with hlt | hnan | hnan
  · exact .inl hlt
  · rw [hnow] at hnan
    cases hnan
  · exact .inr hnan

theorem not_isNaN_of_ge {now r : Number} (h : now.ge r = true) : now.isNaN = false := by
  obtain ⟨_, _, hworth, -, -⟩ := Number.ge_iff.mp h
  rw [← Bool.not_eq_true, Number.isNaN_iff, hworth]
  intro hnone
  cases hnone

/-- A cache that has the latest entries answers with that of the key, as long as it is live. -/
theorem Tracks.get_iff {cache : Cache} {table : String → Option CacheEntry} {shown : List Number}
    (h : Tracks cache table shown) {now : Number} (hge : ∀ r ∈ shown, now.ge r = true) (key : String)
    (e : CacheEntry) : (cache.get now key).1 = some e ↔ table key = some e ∧ Live now e := by
  cases hfind : cache.find? key with
  | none =>
    rw [get_of_none hfind]
    constructor
    · intro hsome
      cases hsome
    · rintro ⟨hlatest, hlive⟩
      obtain ⟨r, hr, hexpired⟩ := h.gone key e hfind hlatest
      exact absurd hlive (not_live_of_ge (Number.ge_trans (hge r hr) hexpired))
  | some kept =>
    have hlatest := h.kept key kept hfind
    by_cases hexpired : now.ge kept.expiresAt = true
    · rw [get_of_ge hfind hexpired]
      constructor
      · intro hsome
        cases hsome
      · rintro ⟨hlatest', hlive⟩
        rw [hlatest] at hlatest'
        cases hlatest'
        exact absurd hlive (not_live_of_ge hexpired)
    · rw [get_of_not_ge hfind hexpired, hlatest]
      -- the clock shows a number, since it is no less than what it showed before
      obtain ⟨r, hr⟩ := List.exists_mem_of_ne_nil _ (h.shown_of_some key _ hlatest)
      have hlive := live_of_not_ge (not_isNaN_of_ge (hge r hr)) hexpired
      constructor
      · intro hsame
        cases hsame
        exact ⟨rfl, hlive⟩
      · exact And.left

/-- **What a lookup finds is the latest entry of its key, as long as that is live.** -/
theorem get_iff_of_forward (uses : List Use) (now : Number) (key : String)
    (h : Forward (readings uses ++ [now])) :
    (∀ e, ((after uses).get now key).1 = some e ↔ latest uses key = some e ∧ Live now e) ∧
      (((after uses).contains now key).1 = true ↔ ∃ e, latest uses key = some e ∧ Live now e) ∧
      ((after uses).contains now key).2 = ((after uses).get now key).2 ∧
      ∀ other, other ≠ key → ((after uses).get now key).2.find? other = (after uses).find? other := by
  have hget := (tracks_after uses).get_iff h.ge_last key
  refine ⟨hget, ?_, rfl, ?_⟩
  · exact Option.isSome_iff_exists.trans (exists_congr hget)
  · intro other hne
    exact find?_get_of_ne hne _ now

/-- A key that is put, looked up when it has expired, and put again. -/
def renewed : List Use :=
  [.put (.int 0) "k" (.int 1) (.int 1000), .put (.int 0) "j" .null (.int 60000), .get (.int 1) "k",
    .put (.int 2) "k" (.int 2) (.int 3000), .contains (.int 3) "j"]

theorem get_of_renewed : Forward (readings renewed ++ [.int 4]) ∧
    ∃ e, ((after renewed).get (.int 4) "k").1 = some e ∧ e.value = .int 2 := by
  have hforward : Forward (readings renewed ++ [.int 4]) := by decide +kernel
  refine ⟨hforward, ?_⟩
  obtain ⟨second, hexpiry, hbelow⟩ :
      ∃ second, expiry (.int 2) (.int 3000) = .ok second ∧ (Number.int 4).lt second = true :=
    ⟨_, rfl, by decide +kernel⟩
  have hlatest : latest renewed "k" = some ⟨"k", .int 2, second⟩ :=
    latest_eq_some_iff.mpr ⟨renewed.take 3, .int 2, .int 2, .int 3000, [.contains (.int 3) "j"], rfl,
      hexpiry, rfl, rfl, by simp [Use.Spares]⟩
  exact ⟨_, ((get_iff_of_forward renewed (.int 4) "k" hforward).1 _).mpr ⟨hlatest, .inl hbelow⟩, rfl⟩

/-- A value that is put for a time that is not a number. -/
def endless : List Use := [.put (.float 0) "k" (.int 1) (.float notANumber)]

/-- It is found, though no clock is below its expiry. -/
theorem get_of_endless : Forward (readings endless ++ [.float 0]) ∧
    ∃ e, latest endless "k" = some e ∧ ((after endless).get (.float 0) "k").1 = some e ∧
      ∀ now, Number.lt now e.expiresAt = false := by
  obtain ⟨second, hexpiry, hnan⟩ :
      ∃ second, expiry (.float 0) (.float notANumber) = .ok second ∧ second.isNaN = true :=
    ⟨_, rfl, by decide +kernel⟩
  have hput := put_eq [] (.float 0) "k" (.int 1) (.float notANumber)
  rw [hexpiry] at hput
  have hafter : after endless = [⟨"k", .int 1, second⟩] := by
    change Cache.use [] (.put (.float 0) "k" (.int 1) (.float notANumber)) = _
    simp only [Cache.use, hput, Except.map]
    rfl
  have hnever : ∀ now : Number, now.lt second = false := by
    intro now
    rw [← Bool.not_eq_true, Number.lt_iff]
    rintro ⟨_, _, -, hworth, -⟩
    rw [Number.isNaN_iff.mp hnan] at hworth
    cases hworth
  have hunreached : ¬ (Number.float 0).ge second = true := by
    rw [Bool.not_eq_true, Number.not_ge_iff]
    exact .inr (.inr hnan)
  refine ⟨by decide +kernel, ⟨"k", .int 1, second⟩, ?_, ?_, hnever⟩
  · exact latest_eq_some_iff.mpr
      ⟨[], .float 0, .int 1, .float notANumber, [], rfl, hexpiry, rfl, rfl, by simp⟩
  · rw [hafter, get_of_not_ge rfl hunreached]

end Cache
end Statechart
