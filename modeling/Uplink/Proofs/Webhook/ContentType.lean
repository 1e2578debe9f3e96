import Uplink.Proofs.Webhook.Fields
import Uplink.Proofs.Webhook.Trail

namespace Uplink.Webhook

open Backend Notification

variable {s : Settings} {e : Endpoints} {n : Encoded} {url : Url} {far : FarSide}
  {made rs : List Request} {r x next : Request} {h : Headers} {key : String}

/-- What a request says of the type of its body, field by field. -/
def contentTypes (r : Request) : List String :=
  (r.headers.filter fun f => f.1 == contentType.1).map (·.2)

/-- Under one name, header fields hold one value at most. -/
theorem filter_of_nodup (hd : (names h).Nodup) (key : String) :
    (h.filter fun f => f.1 == key).map (·.2) = (h.lookup key).toList := by
  induction h with
  | nil => rfl
  | cons f h ih =>
    obtain ⟨name, value⟩ := f
    rw [names, List.map_cons, List.nodup_cons] at hd
    rw [List.filter_cons, List.lookup_cons]
    by_cases hk : key = name
    · subst hk
      have hnone : h.lookup key = none := lookup_eq_none.mpr hd.1
      simp [ih hd.2, hnone]
    · have hk' : (name == key) = false := beq_eq_false_iff_ne.mpr (Ne.symm hk)
      rw [beq_eq_false_iff_ne.mpr hk, hk']
      exact ih hd.2

/-- A delivery declares the configured type, if there is one, and then the fixed one. -/
theorem contentTypes_post (hs : Endpoints.ofSettings s = .ok e) (url : Url) (n : Encoded) :
    contentTypes (post (.new e) url n) =
      (last? contentType.1 s.headers).toList ++ [contentType.2] := by
  have hh : e.headers = keep [] s.headers := (Endpoints.ofSettings_ok_iff.mp hs).2.1
  change ((e.headers ++ [contentType]).filter fun f => f.1 == contentType.1).map (·.2) = _
  rw [List.filter_append, List.map_append, hh, filter_of_nodup (keep_nodup s.headers), lookup_keep]
  rfl

theorem last?_eq_none {l : List (String × String)} :
    last? key l = none ↔ ∀ f ∈ l, lowered f.1 ≠ key := by
  rw [← lookup_keep, lookup_eq_none, mem_names_keep]
  simp only [not_exists, not_and, ne_eq]

/-- A redirection repeats a POST with its header fields, or it makes no POST. -/
theorem post_of_next? {reply : Reply} (hn : reply.next? r = some next) (hp : next.method = .post) :
    r.method = .post ∧ next.headers = r.headers := by
  cases reply with
  | failed => cases hn
  | answered status location =>
    obtain ⟨text, _, ht⟩ := Option.bind_eq_some_iff.mp hn
    split at ht
    · rw [Request.redirected] at ht
      split at ht
      · cases ht
        cases hp
      · split at ht
        · cases ht
          exact ⟨hp, rfl⟩
        · cases ht
    · cases ht

theorem Trail.post_headers (h : Trail far made rs) (hr : rs.head? = some r) :
    ∀ x ∈ rs, x.method = .post → r.method = .post ∧ x.headers = r.headers := by
  induction h generalizing r with
  | single made first =>
    cases hr
    intro x hx hp
    rw [List.mem_singleton] at hx
    subst hx
    exact ⟨hp, rfl⟩
  | cons made first next rest leads tail ih =>
    cases hr
    intro x hx hp
    rcases List.mem_cons.mp hx with rfl | hx
    · exact ⟨hp, rfl⟩
    · obtain ⟨hnext, hsame⟩ := ih rfl x hx hp
      obtain ⟨hfirst, hkept⟩ := post_of_next? leads hnext
      exact ⟨hfirst, hsame.trans hkept⟩

/-- Every POST that a delivery makes declares what the first one does. -/
theorem send_posts (e : Endpoints) (hu : e.url? n.event = some url) (far : FarSide) :
    ∃ rest, ((WebhookBackend.new e).send far n).1 = post (.new e) url n :: rest ∧
      ∀ r ∈ rest, r.method = .post → contentTypes r = contentTypes (post (.new e) url n) := by
  obtain ⟨prior, last, hf⟩ := exchange_follows far [] (post (.new e) url n) redirectLimit
  obtain ⟨rest, hrest⟩ := List.head?_eq_some_iff.mp hf.first
  refine ⟨rest, ?_, ?_⟩
  · rw [send_of_some rfl hu far, ← hrest]
    exact hf.requests
  · intro r hr hp
    have hmem : r ∈ prior ++ [last] := hrest ▸ List.mem_cons_of_mem _ hr
    obtain ⟨_, hh⟩ := hf.trail.post_headers hf.first r hmem hp
    rw [contentTypes, hh, contentTypes]

/-- A delivery begins with its POST, and each POST it makes declares the configured type of the
body, if there is one, and then JSON. So they declare JSON, once and nothing else, exactly where the
settings name no type. -/
theorem content_type_alone_iff (hs : Endpoints.ofSettings s = .ok e)
    (hu : e.url? n.event = some url) (far : FarSide) :
    (∃ rest, ((WebhookBackend.new e).send far n).1 = post (.new e) url n :: rest) ∧
      (∀ r ∈ ((WebhookBackend.new e).send far n).1, r.method = .post →
        contentTypes r = (last? "content-type" s.headers).toList ++ ["application/json"]) ∧
      ((∀ r ∈ ((WebhookBackend.new e).send far n).1, r.method = .post →
          contentTypes r = ["application/json"]) ↔
        ∀ f ∈ s.headers, lowered f.1 ≠ "content-type") := by
  have hfirst := contentTypes_post hs url n
  obtain ⟨rest, hsend, hrest⟩ := send_posts e hu far
  have hall : ∀ r ∈ ((WebhookBackend.new e).send far n).1, r.method = .post →
      contentTypes r = (last? "content-type" s.headers).toList ++ ["application/json"] := by
    intro r hr hp
    rw [hsend] at hr
    rcases List.mem_cons.mp hr with rfl | hr
    · exact hfirst
    · rw [hrest r hr hp]
      exact hfirst
  refine ⟨⟨rest, hsend⟩, hall, ?_⟩
  rw [← last?_eq_none]
  constructor
  · intro hone
    have hm : post (.new e) url n ∈ ((WebhookBackend.new e).send far n).1 := by
      rw [hsend]
      exact List.mem_cons_self
    have he := (hall _ hm rfl).symm.trans (hone _ hm rfl)
    cases hl : last? "content-type" s.headers with
    | none => rfl
    | some value =>
      rw [hl] at he
      cases he
  · intro hnone r hr hp
    rw [hall r hr hp, hnone]
    rfl

/-- A webhook for what happens at joining, with a field for its own use. -/
def keyed : Settings := { Settings.blank with join := "http://a/", headers := [("X-Key", "k")] }

theorem content_type_alone_keyed :
    Endpoints.ofSettings keyed = .ok ⟨none, some home, none, none, [("x-key", "k")]⟩ ∧
      ∀ r ∈ ((WebhookBackend.new ⟨none, some home, none, none, [("x-key", "k")]⟩).send moved
        greeting).1, r.method = .post → contentTypes r = ["application/json"] := by
  have hs : Endpoints.ofSettings keyed = .ok ⟨none, some home, none, none, [("x-key", "k")]⟩ := by
    rfl
  refine ⟨hs, (content_type_alone_iff hs rfl moved).2.2.mpr ?_⟩
  intro f hf
  rw [keyed, List.mem_singleton] at hf
  subst hf
  decide

/-- A webhook whose settings name a type of their own. -/
def typed : Settings :=
  { Settings.blank with join := "http://a/", headers := [("Content-Type", "text/plain")] }

/-- Settings that name a type are accepted, and a delivery then declares two. -/
theorem typed_declares_two :
    ∃ e, Endpoints.ofSettings typed = .ok e ∧
      ((WebhookBackend.new e).send (fun _ _ => .answered 204 none) greeting).1 =
        [post (.new e) home greeting] ∧
      contentTypes (post (.new e) home greeting) = ["text/plain", "application/json"] := by
  refine ⟨⟨none, some home, none, none, [("content-type", "text/plain")]⟩, ?_, ?_, ?_⟩
  · rfl
  · rfl
  · decide

end Uplink.Webhook
