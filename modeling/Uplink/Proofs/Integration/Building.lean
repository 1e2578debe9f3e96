import Uplink.Integration.Build
import Uplink.Proofs.Text.RoundTrip
import Uplink.Proofs.Webhook.Client
import Uplink.Proofs.Webhook.Stored

namespace Uplink.Integration

open Backend Notification Webhook Webhook.Endpoints

variable {c : Client} {row : Store.Integration} {s : Settings} {hook : WebhookBackend}

/-- The backend is the one of these settings. -/
structure Made (c : Client) (s : Settings) (hook : WebhookBackend) : Prop where
  opened : hook.closed = false
  proper : ∀ f ∈ s.headers, Proper f
  headers : hook.endpoints.headers = keep [] s.headers
  urls : ∀ event, Leads c (s.urlText event) (hook.endpoints.url? event)
  any : hook.endpoints.any = true ↔ ∃ event, ¬IsBlank (s.urlText event)

theorem isSome_iff_of_leads {text : String} {u : Option Url} (h : Leads c text u) :
    u.isSome ↔ ¬IsBlank text := by
  cases h with
  | nowhere blank => simp [blank]
  | somewhere there => simp [there]

theorem made_iff : Made c s hook ↔ ∃ e, judge c.parse s = .ok e ∧ hook = .new e := by
  simp only [judge_ok_iff, check, checkUrl_ok_iff]
  constructor
  · intro h
    refine ⟨hook.endpoints, ⟨h.proper, h.headers, h.urls⟩, ?_⟩
    obtain ⟨e, closed⟩ := hook
    exact congrArg (WebhookBackend.mk e) h.opened
  · intro h
    obtain ⟨e, ⟨hp, hh, hu⟩, rfl⟩ := h
    refine ⟨rfl, hp, hh, hu, ?_⟩
    exact (any_iff e).trans (exists_congr fun event => isSome_iff_of_leads (hu event))

theorem build?_unknown (h : row.kind ≠ "HTTP") :
    build? c row = some (.error (.unknownKind row.kind)) := by
  rw [build?, Kind.parse, if_neg (show row.kind ≠ Kind.http.name from h)]

theorem build?_known (h : row.kind = "HTTP") :
    build? c row =
      match readSettings row.settings with
      | .error e => some (.error e)
      | .ok s => (c.endpoints? s).map opened := by
  have hkind : Kind.parse row.kind = .ok .http := if_pos h
  cases hr : readSettings row.settings with
  | error e => simp only [build?, hkind, hr]
  | ok s => simp only [build?, hkind, hr]

theorem build?_unreadable (h : row.kind = "HTTP") (hs : ∀ s, ¬Settings.Stands row.settings s) :
    ∃ fault, build? c row = some (.error (.unreadable .http fault)) := by
  rw [build?_known h, readSettings]
  cases hr : Settings.ofJson row.settings with
  | error fault => exact ⟨fault, rfl⟩
  | ok s => exact absurd ((Settings.ofJson_ok_iff _ s).mp hr) (hs s)

theorem build?_readable (h : row.kind = "HTTP") (hs : Settings.Stands row.settings s) :
    build? c row = (c.endpoints? s).map opened := by
  rw [build?_known h, readSettings, (Settings.ofJson_ok_iff _ s).mpr hs]

/-- What building makes of an integration. -/
structure Classified (c : Client) (row : Store.Integration) : Prop where
  unknown : ∀ kind, build? c row = some (.error (.unknownKind kind)) ↔
    row.kind ≠ "HTTP" ∧ kind = row.kind
  unreadable : (∃ fault, build? c row = some (.error (.unreadable .http fault))) ↔
    row.kind = "HTTP" ∧ ∀ s, ¬Settings.Stands row.settings s
  /-- There is no result, and the program breaks off. -/
  none : build? c row = none ↔
    row.kind = "HTTP" ∧ ∃ s, Settings.Stands row.settings s ∧ BreaksOff c s
  invalid : (∃ reason, build? c row = some (.error (.invalid .http reason))) ↔
    row.kind = "HTTP" ∧ ∃ s, Settings.Stands row.settings s ∧ ¬BreaksOff c s ∧ ¬Sound c s
  built : (∃ hook, build? c row = some (.ok hook)) ↔
    row.kind = "HTTP" ∧ ∃ s, Settings.Stands row.settings s ∧ ¬BreaksOff c s ∧ Sound c s
  reason : ∀ reason, build? c row = some (.error (.invalid .http reason)) ↔
    row.kind = "HTTP" ∧ ∃ s, Settings.Stands row.settings s ∧ ¬BreaksOff c s ∧ Refused c s reason
  hook : ∀ hook, build? c row = some (.ok hook) ↔
    row.kind = "HTTP" ∧ ∃ s, Settings.Stands row.settings s ∧ ¬BreaksOff c s ∧ Made c s hook

theorem classified_unknown (h : row.kind ≠ "HTTP") : Classified c row := by
  have hbuild : build? c row = _ := build?_unknown h
  constructor <;> simp [hbuild, h, eq_comm]

theorem classified_unreadable (h : row.kind = "HTTP") (hs : ∀ s, ¬Settings.Stands row.settings s) :
    Classified c row := by
  obtain ⟨fault, hbuild⟩ := build?_unreadable (c := c) h hs
  constructor <;> simp [hbuild, h, hs]

theorem classified_readable (h : row.kind = "HTTP") (hs : Settings.Stands row.settings s) :
    Classified c row := by
  have hstands (s' : Settings) : Settings.Stands row.settings s' ↔ s' = s :=
    ⟨fun h' => h'.unique hs, fun he => he ▸ hs⟩
  have hbuild : build? c row = _ := build?_readable h hs
  obtain ⟨hnone, hbreaks⟩ | ⟨hsome, hholds⟩ := endpoints?_cases c s
  · have hgone : build? c row = Option.none := by rw [hbuild, hnone, Option.map_none]
    constructor <;> simp [hgone, h, hstands, hbreaks]
  · rw [hsome, Option.map_some] at hbuild
    cases hr : judge c.parse s with
    | error reason =>
      rw [hr, opened] at hbuild
      constructor <;>
        simp [hbuild, h, hstands, hholds, made_iff, ← exists_judge_iff, ← judge_error_iff, hr]
    | ok e =>
      rw [hr, opened] at hbuild
      constructor <;>
        simp [hbuild, h, hstands, hholds, made_iff, ← exists_judge_iff, ← judge_error_iff, hr,
          eq_comm]

/-- Every integration is built, or refused for the first of these reasons that it gives, or the
client has no room for the header fields of its settings and the program breaks off. -/
theorem build_classified (c : Client) (row : Store.Integration) : Classified c row := by
  by_cases h : row.kind = "HTTP"
  · by_cases hs : ∃ s, Settings.Stands row.settings s
    · obtain ⟨s, hs⟩ := hs
      exact classified_readable h hs
    · exact classified_unreadable h (not_exists.mp hs)
  · exact classified_unknown h

/-- More fields than the usual client has room for. -/
def Overfull (row : Store.Integration) : Prop :=
  row.kind = "HTTP" ∧ ∃ s, Settings.Stands row.settings s ∧ 24576 < s.headers.length

theorem build?_usual_eq_none_iff : build? .usual row = none ↔ Overfull row := by
  rw [(build_classified .usual row).none, Overfull]
  simp only [breaksOff_usual_iff]

/-- A result with the usual client is the verdict on the row. -/
theorem build_of_build? {result : Except IntegrationError WebhookBackend}
    (h : build? .usual row = some result) : build row = result := by
  rw [build?] at h
  rw [build]
  cases hk : Kind.parse row.kind with
  | error e =>
    rw [hk] at h
    exact Option.some.inj h
  | ok kind =>
    rw [hk] at h
    dsimp only at h
    change (readSettings row.settings >>= fun s =>
      readEndpoints s >>= fun e => Except.ok (WebhookBackend.new e)) = result
    cases hr : readSettings row.settings with
    | error e =>
      rw [hr] at h
      exact Option.some.inj h
    | ok s =>
      rw [hr] at h
      dsimp only at h
      obtain ⟨hnone, -⟩ | ⟨hsome, -⟩ := endpoints?_cases .usual s
      · rw [hnone] at h
        cases h
      · rw [hsome, Option.map_some, Option.some.injEq] at h
        change (readEndpoints s >>= fun e => Except.ok (WebhookBackend.new e)) = result
        rw [← h, readEndpoints]
        change _ = opened (ofSettings s)
        cases ofSettings s <;> rfl

/-- A field named by a number. -/
def numbered (n : Nat) : String × String := (String.ofList ('h' :: Text.Decimal.digits n), "")

/-- A row of nothing but header fields. -/
def fieldsRow (fields : List (String × String)) : Store.Integration where
  applicationId := 7
  kind := "HTTP"
  settings := .object [("headers", .object (fields.map Settings.textMember))]

theorem fieldsRow_stands {fields : List (String × String)} (h : (fields.map (·.1)).Nodup) :
    Settings.Stands (fieldsRow fields).settings { Settings.blank with headers := fields } := by
  refine .object ⟨?_, ?_⟩
  · intro e
    cases e <;> exact .absent
  · have htold := Settings.TellsHeaders.object fields
    rw [Settings.latest_of_nodup h] at htold
    exact htold

theorem sound_of_fields {fields : List (String × String)} (h : ∀ f ∈ fields, Proper f) :
    Sound c { Settings.blank with headers := fields } := by
  refine ⟨h, ?_⟩
  intro e
  refine ⟨none, .nowhere ?_⟩
  cases e <;> rfl

theorem fieldsRow_overfull {fields : List (String × String)} (h : (fields.map (·.1)).Nodup)
    (hl : 24576 < fields.length) : Overfull (fieldsRow fields) :=
  ⟨rfl, _, fieldsRow_stands h, hl⟩

theorem numbered_apart {m n : Nat} (h : (numbered m).1 = (numbered n).1) : m = n := by
  have hlist := congrArg String.toList h
  simp only [numbered, String.toList_ofList, List.cons.injEq, true_and] at hlist
  exact Text.Decimal.digits_injective hlist

theorem numbered_nodup (n : Nat) : (((List.range n).map numbered).map (·.1)).Nodup := by
  rw [List.map_map]
  exact List.nodup_range.map fun _ _ h => numbered_apart h

theorem digitChar_plain : ∀ d < 10, isTokenChar (Text.Decimal.digitChar d) = true ∧
    (Text.Decimal.digitChar d).utf8Size = 1 := by decide

theorem digits_plain (n : Nat) : ∀ c ∈ 'h' :: Text.Decimal.digits n,
    isTokenChar c = true ∧ c.utf8Size = 1 := by
  have hdigits : ∀ c ∈ Text.Decimal.digits n, isTokenChar c = true ∧ c.utf8Size = 1 := by
    refine Text.Decimal.digits_induction (P := fun _ cs => ∀ c ∈ cs,
      isTokenChar c = true ∧ c.utf8Size = 1) ?_ ?_ n
    · intro d hd c hc
      rw [List.mem_singleton.mp hc]
      exact digitChar_plain d hd
    · intro n d cs hd ih c hc
      rcases List.mem_append.mp hc with hc | hc
      · exact ih c hc
      · rw [List.mem_singleton.mp hc]
        exact digitChar_plain d hd
  intro c hc
  rcases List.mem_cons.mp hc with rfl | hc
  · decide
  · exact hdigits c hc

theorem numbered_proper {n : Nat} (h : n < nameMax - 1) : Proper (numbered n) where
  name := by
    have hplain := digits_plain n
    have hsize := Device.Identifier.utf8ByteSize_ofList fun c hc => (hplain c hc).2
    have hlength := Text.Decimal.length_digits_le n
    rw [List.length_cons] at hsize
    have hfits : (numbered n).1.utf8ByteSize ≤ nameMax := by
      rw [numbered, hsize]
      omega
    have htoken : (numbered n).1.toList.all isTokenChar = true := by
      rw [List.all_eq_true]
      intro c hc
      rw [numbered, String.toList_ofList] at hc
      exact (hplain c hc).1
    have hsome : (numbered n).1 ≠ "" := by
      intro he
      have hlist := congrArg String.toList he
      rw [numbered, String.toList_ofList] at hlist
      cases hlist
    rw [headerName?, if_pos ⟨hsome, hfits, htoken⟩]
    rfl
  value := rfl

/-- One field more than the usual client has room for. -/
def crowd : List (String × String) := (List.range 24577).map numbered

/-- Nothing is wrong with the settings, and yet there is no result. -/
theorem crowd_breaks_off :
    (fieldsRow crowd).kind = "HTTP" ∧
      (∃ s, Settings.Stands (fieldsRow crowd).settings s ∧ Sound .usual s) ∧
      build? .usual (fieldsRow crowd) = none := by
  have hnodup : (crowd.map (·.1)).Nodup := numbered_nodup 24577
  have hlength : crowd.length = 24577 := by rw [crowd, List.length_map, List.length_range]
  have hproper : ∀ f ∈ crowd, Proper f := by
    intro f hf
    obtain ⟨n, hn, rfl⟩ := List.mem_map.mp hf
    have hlt := List.mem_range.mp hn
    refine numbered_proper ?_
    rw [nameMax]
    omega
  refine ⟨rfl, ⟨_, fieldsRow_stands hnodup, sound_of_fields hproper⟩, ?_⟩
  refine build?_usual_eq_none_iff.mpr (fieldsRow_overfull hnodup ?_)
  rw [hlength]
  omega

end Uplink.Integration
