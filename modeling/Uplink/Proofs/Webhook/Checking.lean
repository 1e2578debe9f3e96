import Uplink.Proofs.Webhook.Fields
import Uplink.Webhook.Client

namespace Uplink.Webhook

open Notification Url

variable {c : Client} {s : Settings} {text field : String} {u : Option Url} {y : EndpointError}
  {f : String × String} {l : List (String × String)}

/-- A text of nothing but blanks, which is how a URL is left out. -/
def IsBlank (text : String) : Prop := Text.trim text.toList = []

/-- What a text is read as, without the blanks around it. -/
def Client.target (c : Client) (text : String) : Except UrlError Target :=
  c.parse (String.ofList (Text.trim text.toList))

/-- Where an event goes by the text of its URL. -/
inductive Leads (c : Client) (text : String) : Option Url → Prop where
  | nowhere (blank : IsBlank text) : Leads c text none
  | somewhere {url : Url} (there : ¬IsBlank text) (parsed : c.target text = .ok (.web url))
    (scheme : url.scheme = "http" ∨ url.scheme = "https") : Leads c text (some url)

/-- What is wrong with the text of a URL. -/
inductive UrlFault (c : Client) (field text : String) : EndpointError → Prop where
  | unparsed {reason : UrlError} (there : ¬IsBlank text) (failed : c.target text = .error reason) :
    UrlFault c field text (.badUrl field reason)
  | scheme {found : Target} (there : ¬IsBlank text) (parsed : c.target text = .ok found)
    (other : ¬(found.schemeName = "http" ∨ found.schemeName = "https")) :
    UrlFault c field text (.unsupportedScheme field found.schemeName)

namespace Endpoints

theorem checkUrl_blank (h : IsBlank text) (field : String) :
    checkUrl c.parse field text = .ok none := by
  rw [checkUrl, show Text.trim text.toList = [] from h]

theorem checkUrl_there (h : ¬IsBlank text) (field : String) :
    checkUrl c.parse field text =
      match c.target text with
      | .error reason => .error (.badUrl field reason)
      | .ok (.other scheme) => .error (.unsupportedScheme field scheme)
      | .ok (.web url) =>
        if url.scheme = "http" ∨ url.scheme = "https" then .ok (some url)
        else .error (.unsupportedScheme field url.scheme) := by
  rw [checkUrl, Client.target]
  cases ht : Text.trim text.toList with
  | nil => exact absurd ht h
  | cons c cs => rfl

/-- A text of a URL leads somewhere or nowhere, or something is wrong with it. -/
theorem checkUrl_cases (field text : String) :
    (∃ u, checkUrl c.parse field text = .ok u ∧ Leads c text u) ∨
      ∃ y, checkUrl c.parse field text = .error y ∧ UrlFault c field text y := by
  by_cases hb : IsBlank text
  · exact .inl ⟨none, checkUrl_blank hb field, .nowhere hb⟩
  · rw [checkUrl_there hb]
    cases ht : c.target text with
    | error reason => exact .inr ⟨_, rfl, .unparsed hb ht⟩
    | ok found =>
      cases found with
      | other scheme => exact .inr ⟨_, rfl, .scheme hb ht (c.parse_other ht)⟩
      | web url =>
        by_cases hs : url.scheme = "http" ∨ url.scheme = "https"
        · exact .inl ⟨some url, if_pos hs, .somewhere hb ht hs⟩
        · exact .inr ⟨_, if_neg hs, .scheme hb ht hs⟩

theorem checkUrl_ok_iff : checkUrl c.parse field text = .ok u ↔ Leads c text u := by
  constructor
  · intro h
    obtain ⟨v, hv, hl⟩ | ⟨y, hy, -⟩ := checkUrl_cases field text
    · cases hv.symm.trans h
      exact hl
    · cases hy.symm.trans h
  · rintro (hb | ⟨hb, ht, hs⟩)
    · exact checkUrl_blank hb field
    · rw [checkUrl_there hb, ht]
      exact if_pos hs

theorem checkUrl_error_iff : checkUrl c.parse field text = .error y ↔ UrlFault c field text y := by
  constructor
  · intro h
    obtain ⟨u, hu, -⟩ | ⟨z, hz, hf⟩ := checkUrl_cases field text
    · cases hu.symm.trans h
    · cases hz.symm.trans h
      exact hf
  · rintro (⟨hb, ht⟩ | @⟨found, hb, ht, hs⟩)
    · rw [checkUrl_there hb, ht]
    · rw [checkUrl_there hb, ht]
      cases found with
      | other scheme => rfl
      | web url => exact if_neg hs

end Endpoints

/-- What is wrong with a header field. -/
inductive HeaderFault (f : String × String) : EndpointError → Prop where
  | name (refused : headerName? f.1 = none) : HeaderFault f (.badHeaderName f.1)
  | value (named : (headerName? f.1).isSome) (refused : isHeaderValue f.2 = false) :
    HeaderFault f (.badHeaderValue f.1)

/-- The first field that is not proper, and what is wrong with it. -/
def FirstBad (l : List (String × String)) (y : EndpointError) : Prop :=
  ∃ before f after, l = before ++ f :: after ∧ (∀ g ∈ before, Proper g) ∧ HeaderFault f y

theorem HeaderFault.not_proper (h : HeaderFault f y) : ¬Proper f := by
  intro hp
  cases h with
  | name refused =>
    have := hp.name
    simp [refused] at this
  | value named refused => exact absurd (hp.value.symm.trans refused) nofun

theorem firstBad_cons_of_proper (hf : Proper f) : FirstBad (f :: l) y ↔ FirstBad l y := by
  constructor
  · rintro ⟨before, g, after, hl, hb, hg⟩
    cases before with
    | nil =>
      cases hl
      exact absurd hf hg.not_proper
    | cons b before =>
      cases hl
      exact ⟨before, g, after, rfl, (List.forall_mem_cons.mp hb).2, hg⟩
  · rintro ⟨before, g, after, rfl, hb, hg⟩
    exact ⟨f :: before, g, after, rfl, List.forall_mem_cons.mpr ⟨hf, hb⟩, hg⟩

theorem firstBad_cons_of_not_proper (hf : ¬Proper f) : FirstBad (f :: l) y ↔ HeaderFault f y := by
  constructor
  · rintro ⟨before, g, after, hl, hb, hg⟩
    cases before with
    | nil =>
      cases hl
      exact hg
    | cons b before =>
      cases hl
      exact absurd (List.forall_mem_cons.mp hb).1 hf
  · exact fun h => ⟨[], f, l, rfl, nofun, h⟩

theorem checkHeaders_error_iff (done : Headers) (l : List (String × String)) :
    Endpoints.checkHeaders done l = .error y ↔ FirstBad l y := by
  induction l generalizing done with
  | nil =>
    refine ⟨nofun, ?_⟩
    rintro ⟨before, f, after, hl, -⟩
    simp at hl
  | cons f l ih =>
    obtain ⟨name, value⟩ := f
    rw [Endpoints.checkHeaders]
    cases hn : headerName? name with
    | none =>
      have hbad : HeaderFault (name, value) (.badHeaderName name) := .name hn
      rw [firstBad_cons_of_not_proper hbad.not_proper]
      refine ⟨fun h => ?_, fun h => ?_⟩
      · cases h
        exact hbad
      · cases h with
        | name => rfl
        | value named => simp [hn] at named
    | some lower =>
      have hnamed : (headerName? name).isSome := hn ▸ rfl
      dsimp only
      split
      · next hv =>
        rw [firstBad_cons_of_proper ⟨hnamed, hv⟩]
        exact ih _
      · next hv =>
        have hbad : HeaderFault (name, value) (.badHeaderValue name) :=
          .value hnamed (Bool.eq_false_iff.mpr hv)
        rw [firstBad_cons_of_not_proper hbad.not_proper]
        refine ⟨fun h => ?_, fun h => ?_⟩
        · cases h
          exact hbad
        · cases h with
          | name refused => cases hn.symm.trans refused
          | value => rfl

/-- The URL of the first event is checked before that of the second. -/
def Before (e e' : Event) : Prop := Event.all.idxOf e < Event.all.idxOf e'

instance (e e' : Event) : Decidable (Before e e') := inferInstanceAs (Decidable (_ < _))

/-- Settings in which nothing is wrong. -/
structure Sound (c : Client) (s : Settings) : Prop where
  headers : ∀ f ∈ s.headers, Proper f
  urls : ∀ e, ∃ u, Leads c (s.urlText e) u

/-- Why settings are refused: for the first header field that is not proper, and only where all of
them are for the URL of the first event that has a bad one. -/
inductive Refused (c : Client) (s : Settings) : EndpointError → Prop where
  | header {y : EndpointError} (bad : FirstBad s.headers y) : Refused c s y
  | url {y : EndpointError} (proper : ∀ f ∈ s.headers, Proper f) (e : Event)
    (before : ∀ e', Before e' e → ∃ u, Leads c (s.urlText e') u)
    (bad : UrlFault c (Settings.fieldName e) (s.urlText e) y) : Refused c s y

namespace Endpoints

theorem judge_error_iff : judge c.parse s = .error y ↔ Refused c s y := by
  rw [judge]
  simp only [withUrls, bind_error_iff, checkHeaders_error_iff, checkHeaders_ok_iff, check,
    checkUrl_error_iff, checkUrl_ok_iff]
  constructor
  -- A URL is looked at only where those before it are good, so each fault brings these along.
  · rintro (h | ⟨_, ⟨hp, -⟩, h⟩)
    · exact .header h
    obtain h | ⟨_, hrx, h⟩ := h
    · exact .url hp .rx (fun e he => absurd he (by cases e <;> decide)) h
    obtain h | ⟨_, hjoin, h⟩ := h
    · refine .url hp .join (fun e he => ?_) h
      cases e with
      | rx => exact ⟨_, hrx⟩
      | _ => exact absurd he (by decide)
    obtain h | ⟨_, hack, h⟩ := h
    · refine .url hp .ack (fun e he => ?_) h
      cases e with
      | rx => exact ⟨_, hrx⟩
      | join => exact ⟨_, hjoin⟩
      | _ => exact absurd he (by decide)
    obtain h | ⟨_, _, h⟩ := h
    · refine .url hp .error (fun e he => ?_) h
      cases e with
      | rx => exact ⟨_, hrx⟩
      | join => exact ⟨_, hjoin⟩
      | ack => exact ⟨_, hack⟩
      | error => exact absurd he (by decide)
    · cases h
  · rintro (bad | ⟨hp, e, before, bad⟩)
    · exact .inl bad
    refine .inr ⟨_, ⟨hp, rfl⟩, ?_⟩
    cases e with
    | rx => exact .inl bad
    | join =>
      obtain ⟨_, hrx⟩ := before .rx (by decide)
      exact .inr ⟨_, hrx, .inl bad⟩
    | ack =>
      obtain ⟨_, hrx⟩ := before .rx (by decide)
      obtain ⟨_, hjoin⟩ := before .join (by decide)
      exact .inr ⟨_, hrx, .inr ⟨_, hjoin, .inl bad⟩⟩
    | error =>
      obtain ⟨_, hrx⟩ := before .rx (by decide)
      obtain ⟨_, hjoin⟩ := before .join (by decide)
      obtain ⟨_, hack⟩ := before .ack (by decide)
      exact .inr ⟨_, hrx, .inr ⟨_, hjoin, .inr ⟨_, hack, .inl bad⟩⟩⟩

/-- Settings are accepted when they are sound. -/
theorem exists_judge_iff : (∃ e, judge c.parse s = .ok e) ↔ Sound c s := by
  simp only [judge_ok_iff, check, checkUrl_ok_iff]
  constructor
  · rintro ⟨e, hp, -, hu⟩
    exact ⟨hp, fun event => ⟨_, hu event⟩⟩
  · rintro ⟨hp, hu⟩
    obtain ⟨dataUp, hrx⟩ := hu .rx
    obtain ⟨join, hjoin⟩ := hu .join
    obtain ⟨ack, hack⟩ := hu .ack
    obtain ⟨error, herror⟩ := hu .error
    refine ⟨⟨dataUp, join, ack, error, keep [] s.headers⟩, hp, rfl, fun event => ?_⟩
    cases event with
    | rx => exact hrx
    | join => exact hjoin
    | ack => exact hack
    | error => exact herror

theorem any_iff (e : Endpoints) : e.any = true ↔ ∃ event, (e.url? event).isSome := by
  rw [any, List.any_eq_true]
  constructor
  · rintro ⟨event, -, h⟩
    exact ⟨event, h⟩
  · rintro ⟨event, h⟩
    exact ⟨event, by cases event <;> decide, h⟩

end Endpoints

end Uplink.Webhook
