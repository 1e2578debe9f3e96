import Mathlib.Data.List.Nodup
import Uplink.Proofs.Json.Values
import Uplink.Proofs.Notification.Grammar
import Uplink.Webhook.Settings

namespace Uplink.Webhook.Settings

open Json Notification

variable {s s' : Settings} {v : Json} {vs : List Json} {text text' : String}
  {members : List (String × Json)} {fields h h' : List (String × String)}

/-- The member of an object of texts. -/
def textMember (f : String × String) : String × Json := (f.1, .text f.2)

/-- The values under the name of a URL. -/
inductive TellsText : List Json → String → Prop where
  | absent : TellsText [] ""
  | text (text : String) : TellsText [.text text] text

/-- The values under the name of the header fields. -/
inductive TellsHeaders : List Json → List (String × String) → Prop where
  | absent : TellsHeaders [] []
  | object (fields : List (String × String)) :
    TellsHeaders [.object (fields.map textMember)] (latest fields)

/-- The members are what the settings say: under the name of each URL its text, under the name of
the header fields these, and under other names whatever there is. -/
structure Tells (members : List (String × Json)) (s : Settings) : Prop where
  urls : ∀ e, TellsText (valuesUnder (fieldName e) members) (s.urlText e)
  headers : TellsHeaders (valuesUnder "headers" members) s.headers

/-- The names in the order of lists. -/
def names : List String := Event.all.map fieldName ++ ["headers"]

/-- The value stands for the settings. -/
inductive Stands : Json → Settings → Prop where
  | nothing : Stands .null blank
  | object {members : List (String × Json)} {s : Settings} (told : Tells members s) :
    Stands (.object members) s
  | list {items : List Json} {s : Settings} (few : items.length ≤ names.length)
    (told : Tells (names.zip items) s) : Stands (.list items) s

/-- Where no name comes again, all fields stay as they are. -/
theorem latest_of_nodup (h : (fields.map (·.1)).Nodup) : latest fields = fields := by
  induction fields with
  | nil => rfl
  | cons f fields ih =>
    rw [List.map_cons, List.nodup_cons] at h
    obtain ⟨hnew, hrest⟩ := h
    have hlatest : latest (f :: fields) =
        if (latest fields).any (·.1 == f.1) then latest fields else f :: latest fields := rfl
    have hapart : ¬fields.any (·.1 == f.1) = true := by
      rw [List.any_eq_true]
      intro hin
      obtain ⟨g, hg, he⟩ := hin
      exact hnew (List.mem_map.mpr ⟨g, hg, eq_of_beq he⟩)
    rw [hlatest, ih hrest, if_neg hapart]

theorem TellsText.unique (h : TellsText vs text) (h' : TellsText vs text') : text = text' := by
  cases h <;> cases h' <;> rfl

theorem textMember_injective : Function.Injective textMember := by
  rintro ⟨name, value⟩ ⟨other, value'⟩ h
  cases h
  rfl

theorem TellsHeaders.unique (hs : TellsHeaders vs h) (hs' : TellsHeaders vs h') : h = h' := by
  cases hs with
  | absent =>
    cases hs'
    rfl
  | object fields =>
    generalize hv : [Json.object (fields.map textMember)] = vs at hs'
    cases hs' with
    | absent => cases hv
    | object fields' =>
      have hmap : fields.map textMember = fields'.map textMember :=
        Json.object.inj (List.singleton_inj.mp hv)
      rw [List.map_injective_iff.mpr textMember_injective hmap]

theorem ext_parts (hu : ∀ e, s.urlText e = s'.urlText e) (hh : s.headers = s'.headers) : s = s' := by
  obtain ⟨dataUp, join, ack, error, headers⟩ := s
  obtain ⟨dataUp', join', ack', error', headers'⟩ := s'
  cases hu .rx
  cases hu .join
  cases hu .ack
  cases hu .error
  cases hh
  rfl

theorem Tells.unique (h : Tells members s) (h' : Tells members s') : s = s' :=
  ext_parts (fun e => (h.urls e).unique (h'.urls e)) (h.headers.unique h'.headers)

theorem readText_ofJson_iff : readText (.ofJson v) = .ok text ↔ v = .text text := by
  rw [readText, asText_ok_iff]
  constructor
  · rintro ⟨t, hd, ht⟩
    cases v <;> cases hd
    cases ht
    rfl
  · rintro rfl
    exact ⟨⟨.ok text, none⟩, rfl, rfl⟩

theorem readMembers_ofMembers_iff (done : List (String × String)) :
    Document.readMembers readText .whole done (Document.ofMembers members) = .ok h ↔
      ∃ fields, members = fields.map textMember ∧ h = done.reverse ++ fields := by
  induction members generalizing done with
  | nil => simp [Document.ofMembers, Document.readMembers, Stop.inObject, eq_comm]
  | cons m members ih =>
    obtain ⟨name, v⟩ := m
    rw [Document.ofMembers, Document.readMembers]
    cases hv : readText (.ofJson v) with
    | error fault =>
      constructor
      · intro h
        cases h
      · rintro ⟨fields, hf, -⟩
        cases fields with
        | nil => cases hf
        | cons f fields =>
          cases hf
          cases hv.symm.trans (readText_ofJson_iff.mpr rfl)
    | ok text =>
      obtain rfl := readText_ofJson_iff.mp hv
      refine (ih ((name, text) :: done)).trans ?_
      constructor
      · rintro ⟨fields, rfl, rfl⟩
        exact ⟨(name, text) :: fields, rfl, by simp⟩
      · rintro ⟨fields, hf, rfl⟩
        cases fields with
        | nil => cases hf
        | cons f fields =>
          cases hf
          exact ⟨fields, rfl, by simp⟩

theorem asMembers_ofJson_iff :
    (Document.ofJson v).asMembers readText = .ok fields ↔ v = .object (fields.map textMember) := by
  cases v with
  | object members =>
    refine (readMembers_ofMembers_iff []).trans ?_
    simp
  | _ => simp [Document.asMembers, Document.ofJson, mismatch_ne_ok]

theorem readHeaders_ofJson_iff :
    readHeaders (.ofJson v) = .ok h ↔
      ∃ fields, v = .object (fields.map textMember) ∧ latest fields = h := by
  simp only [← asMembers_ofJson_iff, readHeaders]
  cases (Document.ofJson v).asMembers readText with
  | error fault => exact ⟨nofun, nofun⟩
  | ok fields => simp [bind, Except.bind, pure, Except.pure, latest]

theorem record_tidy : record.Tidy where
  names := by decide
  apart := by simp [record, Event.all, urlField, apart_of_set, setUrlText]

/-- The field of the header fields. -/
def headerField : Json.Field Settings := record.fields.getLast (by decide)

theorem urlField_mem (e : Event) : urlField e ∈ record.fields := by
  cases e <;> simp [record, Event.all]

theorem headerField_mem : headerField ∈ record.fields := List.getLast_mem _

theorem field_cases {f : Json.Field Settings} (hf : f ∈ record.fields) :
    (∃ e, f = urlField e) ∨ f = headerField := by
  have hfields : record.fields = Event.all.map urlField ++ [headerField] := rfl
  rw [hfields, List.mem_append, List.mem_map, List.mem_singleton] at hf
  obtain ⟨e, -, rfl⟩ | rfl := hf
  · exact .inl ⟨e, rfl⟩
  · exact .inr rfl

theorem urlField_puts (e : Event) : (urlField e).Puts readText (fun v s => s.setUrlText v e) := by
  intro d
  simp only [urlField]
  cases readText d <;> rfl

theorem headerField_puts : headerField.Puts readHeaders (fun h s => { s with headers := h }) := by
  intro d
  change (readHeaders d >>= fun h => pure fun s : Settings => { s with headers := h }) = _
  cases readHeaders d <;> rfl

theorem shows_text_iff : Shows readText "" (vs.map .ofJson) text ↔ TellsText vs text := by
  simp only [shows_values_iff, readText_ofJson_iff]
  constructor
  · rintro (⟨rfl, rfl⟩ | ⟨v, rfl, rfl⟩)
    · exact .absent
    · exact .text text
  · rintro (_ | text)
    · exact .inl ⟨rfl, rfl⟩
    · exact .inr ⟨.text text, rfl, rfl⟩

theorem shows_headers_iff : Shows readHeaders [] (vs.map .ofJson) h ↔ TellsHeaders vs h := by
  simp only [shows_values_iff, readHeaders_ofJson_iff]
  constructor
  · rintro (⟨rfl, rfl⟩ | ⟨v, rfl, fields, rfl, rfl⟩)
    · exact .absent
    · exact .object fields
  · rintro (_ | fields)
    · exact .inl ⟨rfl, rfl⟩
    · exact .inr ⟨_, rfl, fields, rfl, rfl⟩

theorem urlText_setUrlText (s : Settings) (text : String) (e e' : Event) :
    (s.setUrlText text e').urlText e = if e = e' then text else s.urlText e := by
  cases e <;> cases e' <;> rfl

/-- Members that fit say what is made of them. -/
theorem tells_assemble (h : record.Fits (Document.ofMembers members)) :
    Tells members (record.assemble (Document.ofMembers members)) where
  urls e := by
    rw [← shows_text_iff, ← valuesOf_ofMembers]
    have hblank : record.blank.urlText e = "" := by cases e <;> rfl
    rw [← hblank]
    refine h.shows record_tidy (urlField_mem e) (urlField_puts e) (·.urlText e) ?_ ?_
    · intro v s
      simp [urlText_setUrlText]
    · intro g hg hne
      obtain ⟨e', rfl⟩ | rfl := field_cases hg
      · have he : e ≠ e' := by
          rintro rfl
          exact hne rfl
        exact (urlField_puts e').leaves fun v s => by simp [urlText_setUrlText, he]
      · exact headerField_puts.leaves fun v s => by cases e <;> rfl
  headers := by
    rw [← shows_headers_iff, ← valuesOf_ofMembers]
    refine h.shows record_tidy headerField_mem headerField_puts (·.headers) (fun _ _ => rfl) ?_
    intro g hg hne
    obtain ⟨e, rfl⟩ | rfl := field_cases hg
    · exact (urlField_puts e).leaves fun v s => by cases e <;> rfl
    · exact absurd rfl hne

theorem fits_of_tells (h : Tells members s) : record.Fits (Document.ofMembers members) := by
  have hurl (e : Event) := shows_text_iff.mpr (h.urls e)
  have hheaders := shows_headers_iff.mpr h.headers
  simp only [← valuesOf_ofMembers] at hurl hheaders
  refine ⟨fun f hf => ?_, fun f hf hr => ?_, fun f hf => ?_⟩
  · obtain ⟨e, rfl⟩ | rfl := field_cases hf
    · exact (hurl e).once
    · exact hheaders.once
  · obtain ⟨e, rfl⟩ | rfl := field_cases hf <;> cases hr
  · obtain ⟨e, rfl⟩ | rfl := field_cases hf
    · exact (urlField_puts e).reads_of_shows (hurl e)
    · exact headerField_puts.reads_of_shows hheaders

theorem read_object_iff_tells : record.read (.ofJson (.object members)) = .ok s ↔ Tells members s := by
  rw [Record.read_object_value_iff record_tidy]
  constructor
  · rintro ⟨hfits, rfl⟩
    exact tells_assemble hfits
  · intro h
    have hfits := fits_of_tells h
    exact ⟨hfits, (tells_assemble hfits).unique h⟩

/-- Settings are read from the values that stand for them, and from no others. -/
theorem ofJson_ok_iff (v : Json) (s : Settings) : ofJson v = .ok s ↔ Stands v s := by
  cases v with
  | null =>
    refine ⟨fun h => ?_, fun h => ?_⟩
    · cases h
      exact .nothing
    · cases h
      rfl
  | object members =>
    refine read_object_iff_tells.trans ⟨.object, fun h => ?_⟩
    cases h with
    | object told => exact told
  | list items =>
    refine (Record.read_list_value_iff record_tidy).trans ?_
    rw [show record.fields.map (·.name) = names from rfl, read_object_iff_tells]
    refine ⟨fun h => .list h.1 h.2, fun h => ?_⟩
    cases h with
    | list few told => exact ⟨few, told⟩
  | _ =>
    constructor
    · intro h
      simp [ofJson, Document.ofJson, Record.read, mismatch_ne_ok] at h
    · intro h
      cases h

theorem Stands.unique (h : Stands v s) (h' : Stands v s') : s = s' := by
  rw [← ofJson_ok_iff] at h h'
  exact Except.ok.inj (h.symm.trans h')

end Uplink.Webhook.Settings
