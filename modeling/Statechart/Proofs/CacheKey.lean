/-
# What the key of a kept result says

A result is kept under a key, and whoever comes with the key gets the result.  By default the key of a
request is made of the request, and that of any other call of its input; here it is read back.

* **`Invocation.inputs_alike_of_key?`**: calls of other actors that share a key have alike inputs;
* **`HttpActor.requests_agree_of_cacheKey`**: requests that share a key agree in method, address,
  parameters and body;
* `HttpActor.headers_unseen`: they need not agree in their headers, so that what was kept for one user
  is handed to another one.
-/
import Statechart.Actor.Call
import Statechart.Proofs.Canonical
import Statechart.Proofs.Evaluation

namespace Statechart

open Json

/-! ## 1. Calls of other actors -/

/-- Calls of an actor that sends no request, without a key of their own, share a key only if their
inputs are alike. -/
theorem Invocation.inputs_alike_of_key? (r : Renderer) {i : Invocation} {key : String}
    (hactor : ∀ a, i.actor ≠ .http a) (hown : i.cacheKey.isTruthy = false)
    {input input' context context' event event' : Value} {fx fx' : Effects}
    (h : ((i.key? r input context event).exec fx).1 = .ok (some key))
    (h' : ((i.key? r input' context' event').exec fx').1 = .ok (some key)) : Alike input input' := by
  have hsays {input context event : Value} {fx : Effects}
      (h : ((i.key? r input context event).exec fx).1 = .ok (some key)) :
      ∃ s, canonical input = .ok s ∧ key = i.src ++ ":" ++ s := by
    simp only [Invocation.key?, hown, Bool.false_eq_true, if_false] at h
    split at h
    · cases h
    cases hi : i.actor with
    | http a => exact absurd hi (hactor a)
    | host a | timer ms | randomNumber =>
      cases hs : canonical input with
      | error e =>
        rw [hs] at h
        cases h
      | ok s =>
        rw [hs] at h
        cases h
        exact ⟨s, rfl, rfl⟩
  obtain ⟨s, hs, hkey⟩ := hsays h
  obtain ⟨t, ht, hkey'⟩ := hsays h'
  obtain rfl := (String.append_right_inj _).mp (hkey.symm.trans hkey')
  exact alike_of_canonical hs ht

namespace HttpActor

/-! ## 2. Requests -/

/-- Requests of one signature agree in all but their headers. -/
theorem agree_of_signature {p q : RequestSpec} {s : String} (hp : p.signature = .ok s)
    (hq : q.signature = .ok s) : p.method = q.method ∧ p.url = q.url ∧
      Alike (.dict p.params) (.dict q.params) ∧ Alike p.body q.body := by
  have h := alike_of_canonical hp hq
  have hparts : List.Forall₂ Alike [.text p.method, .text p.url, .dict p.params, p.body]
      [.text q.method, .text q.url, .dict q.params, q.body] := by
    generalize hl : [Value.text p.method, .text p.url, .dict p.params, p.body] = l at h ⊢
    cases h with
    | refl => exact List.forall₂_same.mpr fun v _ => .refl v
    | list h => exact h
  obtain _ | ⟨hmethod, _ | ⟨hurl, _ | ⟨hparams, _ | ⟨hbody, -⟩⟩⟩⟩ := hparts
  exact ⟨hmethod.text_inj, hurl.text_inj, hparams, hbody⟩

theorem request_of_cacheKey {r : Renderer} {a : HttpActor} {input context event : Value} {key : String}
    (h : a.cacheKey r input context event = .ok key) :
    ∃ spec s, a.request r input context event = .ok spec ∧ spec.signature = .ok s ∧
      key = a.name ++ ":" ++ s := by
  simp only [cacheKey, bind, Except.bind, pure, Except.pure] at h
  split at h
  · cases h
  next spec hspec =>
    cases hs : spec.signature with
    | error e => simp [hs, liftData, Except.mapError] at h
    | ok s =>
      simp only [hs, liftData, Except.mapError, Except.ok.injEq] at h
      exact ⟨spec, s, hspec, hs, h.symm⟩

/-- The key of a request tells requests of one actor apart by method, address, parameters and body.
The headers are no part of it. -/
theorem requests_agree_of_cacheKey (r : Renderer) (a : HttpActor)
    {input input' context context' event event' : Value} {key : String}
    (h : a.cacheKey r input context event = .ok key)
    (h' : a.cacheKey r input' context' event' = .ok key) :
    ∃ spec spec', a.request r input context event = .ok spec ∧
      a.request r input' context' event' = .ok spec' ∧
      spec.method = spec'.method ∧ spec.url = spec'.url ∧
      Alike (.dict spec.params) (.dict spec'.params) ∧ Alike spec.body spec'.body := by
  obtain ⟨p, s, hp, hs, rfl⟩ := request_of_cacheKey h
  obtain ⟨q, t, hq, ht, heq⟩ := request_of_cacheKey h'
  obtain rfl := (String.append_right_inj _).mp heq
  exact ⟨p, q, hp, hq, agree_of_signature hs ht⟩

/-- An actor without templates of its own. -/
def profile : HttpActor where
  config := [(.text "url", .text "https://api.test/profile")]
  timeoutMs := 30000.0

theorem profile_key {input : Value} {key : String}
    (h : (profile.cacheKey Renderer.standard input .null .null).toOption.any (· = key) = true) :
    profile.cacheKey Renderer.standard input .null .null = .ok key := by
  obtain ⟨k, hk, heq⟩ := exists_ok_of_any h
  rw [hk, of_decide_eq_true heq]

/-- A pair whose key is a number, and an entry whose key is a text: one parameter in two spellings. -/
def spellings : Value × Value :=
  (.record [("params", .list [.list [.int 1, .text "last"]])],
    .record [("params", .record [("1", .text "last")])])

theorem requests_agree_of_cacheKey_spellings :
    ∃ (key : String) (spec spec' : RequestSpec),
      profile.cacheKey Renderer.standard spellings.1 .null .null = .ok key ∧
      profile.cacheKey Renderer.standard spellings.2 .null .null = .ok key ∧
      profile.request Renderer.standard spellings.1 .null .null = .ok spec ∧
      profile.request Renderer.standard spellings.2 .null .null = .ok spec' ∧
      spec.method = spec'.method ∧ spec.url = spec'.url ∧
      Alike (.dict spec.params) (.dict spec'.params) ∧ Alike spec.body spec'.body := by
  have hpair : profile.cacheKey Renderer.standard spellings.1 .null .null =
      .ok "httpRequest:[\"GET\", \"https://api.test/profile\", \x7b\"1\": \"last\"\x7d, null]" :=
    profile_key (by decide +kernel)
  have hentry : profile.cacheKey Renderer.standard spellings.2 .null .null =
      .ok "httpRequest:[\"GET\", \"https://api.test/profile\", \x7b\"1\": \"last\"\x7d, null]" :=
    profile_key (by decide +kernel)
  obtain ⟨spec, spec', hspec, hspec', hagree⟩ := requests_agree_of_cacheKey _ _ hpair hentry
  exact ⟨_, spec, spec', hpair, hentry, hspec, hspec', hagree⟩

/-- Requests of two users, which differ in a header only, have one key. -/
theorem headers_unseen :
    ¬ ∀ (r : Renderer) (a : HttpActor) (input input' context context' event event' : Value) (key : String)
      (spec spec' : RequestSpec), a.cacheKey r input context event = .ok key →
      a.cacheKey r input' context' event' = .ok key → a.request r input context event = .ok spec →
      a.request r input' context' event' = .ok spec' → spec.headers = spec'.headers := by
  intro h
  let user (name : String) : Value := .record [("headers", .record [("x-user", .text name)])]
  have hada : profile.cacheKey Renderer.standard (user "ada") .null .null =
      .ok "httpRequest:[\"GET\", \"https://api.test/profile\", \x7b\x7d, null]" :=
    profile_key (by decide +kernel)
  have hbob : profile.cacheKey Renderer.standard (user "bob") .null .null =
      .ok "httpRequest:[\"GET\", \"https://api.test/profile\", \x7b\x7d, null]" :=
    profile_key (by decide +kernel)
  obtain ⟨spec, -, hspec, -, -⟩ := request_of_cacheKey hada
  obtain ⟨spec', -, hspec', -, -⟩ := request_of_cacheKey hbob
  have hheaders := h _ _ _ _ _ _ _ _ _ _ _ hada hbob hspec hspec'
  have hdiffer :
      ((profile.request Renderer.standard (user "ada") .null .null).toOption.map (·.headers) ==
        (profile.request Renderer.standard (user "bob") .null .null).toOption.map (·.headers)) = false := by
    decide +kernel
  rw [hspec, hspec'] at hdiffer
  simp [Except.toOption, hheaders] at hdiffer

end HttpActor

end Statechart
