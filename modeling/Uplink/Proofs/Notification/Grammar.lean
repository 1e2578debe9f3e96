import Uplink.Proofs.Notification.Fields

namespace Uplink.Notification

open Device Json Text Time Wire

variable {α β σ : Type} {d : Document} {name : String} {required : Bool} {get : σ → α}
  {set : α → σ → σ} {v : α} {read : Document → Read α}

def Reads (read : Document → Read α) (d : Document) : Prop := ∃ v, read d = .ok v

def IsText (d : Document) : Prop := ∃ t s, d = .text t ∧ t.value = .ok s

/-- A text that follows a notation. -/
def Follows {ε : Type} (parse : String → Except ε α) (d : Document) : Prop :=
  ∃ t s v, d = .text t ∧ t.value = .ok s ∧ parse s = .ok v

/-- A whole number between two bounds. -/
def Between (low high : Int) (d : Document) : Prop :=
  ∃ t i, d = .number t ∧ t.value = .ok (.int i) ∧ low ≤ i ∧ i ≤ high

/-- Any number that a double can hold. -/
def IsNumber (d : Document) : Prop := ∃ t n, d = .number t ∧ t.value = .ok n

def IsBool (d : Document) : Prop := ∃ b, d = .bool b

/-- A list of what a reader takes. -/
def ListOf (read : Document → Read α) (d : Document) : Prop :=
  ∃ items stop, d = .list items stop ∧ stop.inList = none ∧ ∀ i ∈ items, Reads read i

theorem settle_ok_iff {t : Token α} : Document.settle t = .ok v ↔ t.value = .ok v := by
  cases h : t.value <;> simp [Document.settle, h, malformed, fail]

theorem mismatch_ne_ok {expected : String} : d.mismatch expected ≠ .ok v := by
  unfold Document.mismatch
  cases d.found <;> exact nofun

theorem asText_ok_iff {expected s : String} :
    d.asText expected = .ok s ↔ ∃ t, d = .text t ∧ t.value = .ok s := by
  cases d <;> simp [Document.asText, settle_ok_iff, mismatch_ne_ok]

theorem reads_map {k : α → β} : Reads (fun d => return k (← read d)) d ↔ Reads read d := by
  constructor
  · rintro ⟨v, hv⟩
    cases hr : read d with
    | ok u => exact ⟨u, hr⟩
    | error x => simp [hr, bind, Except.bind] at hv
  · rintro ⟨u, hu⟩
    exact ⟨k u, by simp [hu]⟩

@[simp] theorem readText_reads : Reads Wire.readText d ↔ IsText d := by
  simp only [Reads, Wire.readText, asText_ok_iff, IsText]
  exact exists_comm

theorem readNotation_reads {ε : Type} {expected : String} {parse : String → Except ε α}
    {message : ε → String} : Reads (readNotation expected parse message) d ↔ Follows parse d := by
  constructor
  · rintro ⟨v, hv⟩
    unfold readNotation at hv
    cases ht : d.asText expected with
    | error x => simp [ht, bind, Except.bind] at hv
    | ok s =>
      obtain ⟨t, hd, hs⟩ := asText_ok_iff.mp ht
      cases hp : parse s with
      | ok u => exact ⟨t, s, u, hd, hs, hp⟩
      | error x => simp [ht, hp, bind, Except.bind, fail] at hv
  · rintro ⟨t, s, v, hd, hs, hp⟩
    have ht : d.asText expected = .ok s := asText_ok_iff.mpr ⟨t, hd, hs⟩
    exact ⟨v, by simp [readNotation, ht, hp, bind, Except.bind]⟩

theorem asInt_reads {low high : Int} {expected : String} :
    Reads (Document.asInt low high expected) d ↔ Between low high d := by
  unfold Reads Between
  cases d with
  | number t =>
    simp only [Document.asInt, Document.number.injEq, exists_and_left, exists_eq_left']
    cases ht : t.value with
    | error x => simp [Document.settle, ht, malformed, fail, bind, Except.bind]
    | ok n =>
      cases n with
      | int i =>
        by_cases hi : low ≤ i ∧ i ≤ high
        · simp [Document.settle, ht, bind, Except.bind, hi]
        · simp [Document.settle, ht, bind, Except.bind, hi, fail]
      | float x => simp [Document.settle, ht, bind, Except.bind, fail]
  | _ => simp [Document.asInt, mismatch_ne_ok]

@[simp] theorem asFloat_reads : Reads Document.asFloat d ↔ IsNumber d := by
  unfold Reads IsNumber
  cases d with
  | number t =>
    simp only [Document.asFloat, Document.number.injEq, exists_and_left, exists_eq_left']
    cases ht : t.value with
    | error x => simp [Document.settle, ht, malformed, fail, bind, Except.bind]
    | ok n => cases n <;> simp [Document.settle, ht, bind, Except.bind]
  | _ => simp [Document.asFloat, mismatch_ne_ok]

@[simp] theorem asBool_reads : Reads Document.asBool d ↔ IsBool d := by
  unfold Reads IsBool
  cases d <;> simp [Document.asBool, mismatch_ne_ok]

@[simp] theorem asOptional_reads :
    Reads (Document.asOptional read) d ↔ d = .null ∨ Reads read d := by
  have hsome : ∀ r : Read α, (∃ v, r.map some = .ok v) ↔ ∃ v, r = .ok v := fun r => by
    cases r <;> simp [Except.map]
  cases d with
  | null => exact ⟨fun _ => .inl rfl, fun _ => ⟨none, rfl⟩⟩
  | _ =>
    rw [or_iff_right (by simp)]
    exact hsome _

theorem readItems_reads {stop : Stop} {i : Nat} {done : List α} {items : List Document} :
    (∃ l, Document.readItems read stop i done items = .ok l) ↔
      stop.inList = none ∧ ∀ d ∈ items, Reads read d := by
  induction items generalizing i done with
  | nil =>
    rw [Document.readItems]
    cases stop.inList <;> simp [malformed, fail, inside]
  | cons d items ih =>
    rw [Document.readItems, List.forall_mem_cons]
    cases hd : read d with
    | error x => simp [inside, bind, Except.bind, Reads, hd]
    | ok v =>
      simp only [inside, bind, Except.bind, ih, Reads, hd, Except.ok.injEq, exists_eq', true_and]

@[simp] theorem asList_reads : Reads (Document.asList read) d ↔ ListOf read d := by
  cases d with
  | list items stop =>
    refine readItems_reads.trans ⟨fun h => ⟨items, stop, rfl, h.1, h.2⟩, ?_⟩
    rintro ⟨_, _, heq, h⟩
    cases heq
    exact h
  | _ => simp [Reads, ListOf, Document.asList, mismatch_ne_ok]

@[simp] theorem readIdentifier_reads {n : Nat} :
    Reads (readIdentifier n) d ↔ Follows (Identifier.parse n) d := readNotation_reads

@[simp] theorem readNumberText_reads : Reads readNumberText d ↔ Follows parseInt64 d :=
  readNotation_reads

@[simp] theorem readTime_reads : Reads readTime d ↔ Follows Timestamp.parse d := readNotation_reads

@[simp] theorem readData_reads :
    Reads readData d ↔ Follows (fun s => Base64.decode (Utf8.encode s)) d := readNotation_reads

@[simp] theorem readUInt32_reads : Reads readUInt32 d ↔ Between 0 4294967295 d :=
  reads_map.trans asInt_reads

@[simp] theorem readUInt8_reads : Reads readUInt8 d ↔ Between 0 255 d := reads_map.trans asInt_reads

@[simp] theorem readInt32_reads : Reads readInt32 d ↔ Between (-2147483648) 2147483647 d :=
  reads_map.trans asInt_reads

/-- The records of the wire format. -/
inductive Schema where
  | dataUp
  | join
  | ack
  | errorReport
  | rxInfo
  | txInfo
  | dataRate
  deriving DecidableEq

namespace Schema

/-- A member of a record: its name, whether it has to be there, and the values it takes. -/
structure Entry where
  name : String
  required : Bool
  takes : Document → Prop

def Value : Schema → Type
  | dataUp => DataUp
  | join => Join
  | ack => Ack
  | errorReport => ErrorReport
  | rxInfo => RxInfo
  | txInfo => TxInfo
  | dataRate => DataRate

def record : (s : Schema) → Record s.Value
  | dataUp => DataUp.record
  | join => Join.record
  | ack => Ack.record
  | errorReport => ErrorReport.record
  | rxInfo => RxInfo.record
  | txInfo => TxInfo.record
  | dataRate => DataRate.record

def isUInt32 : Document → Prop := Between 0 4294967295

/-- The members of each record, in their order. -/
def layout : Schema → List Entry
  | dataUp =>
    [⟨"applicationID", true, Follows parseInt64⟩,
      ⟨"applicationName", false, IsText⟩,
      ⟨"nodeName", false, IsText⟩,
      ⟨"devEUI", true, Follows (Identifier.parse 8)⟩,
      ⟨"rxInfo", false, ListOf RxInfo.record.read⟩,
      ⟨"txInfo", false, Reads TxInfo.record.read⟩,
      ⟨"fCnt", false, isUInt32⟩,
      ⟨"fPort", false, Between 0 255⟩,
      ⟨"data", false, Follows fun s => Base64.decode (Utf8.encode s)⟩]
  | join =>
    [⟨"applicationID", true, Follows parseInt64⟩,
      ⟨"applicationName", false, IsText⟩,
      ⟨"nodeName", false, IsText⟩,
      ⟨"devEUI", true, Follows (Identifier.parse 8)⟩,
      ⟨"devAddr", false, Follows (Identifier.parse 4)⟩]
  | ack =>
    [⟨"applicationID", true, Follows parseInt64⟩,
      ⟨"applicationName", false, IsText⟩,
      ⟨"nodeName", false, IsText⟩,
      ⟨"devEUI", true, Follows (Identifier.parse 8)⟩,
      ⟨"acknowledged", false, IsBool⟩,
      ⟨"fCnt", false, isUInt32⟩]
  | errorReport =>
    [⟨"applicationID", true, Follows parseInt64⟩,
      ⟨"applicationName", false, IsText⟩,
      ⟨"nodeName", false, IsText⟩,
      ⟨"devEUI", true, Follows (Identifier.parse 8)⟩,
      ⟨"type", false, IsText⟩,
      ⟨"error", false, IsText⟩,
      ⟨"fCnt", false, isUInt32⟩]
  | rxInfo =>
    [⟨"mac", true, Follows (Identifier.parse 8)⟩,
      ⟨"time", false, fun d => d = .null ∨ Follows Timestamp.parse d⟩,
      ⟨"rssi", false, Between (-2147483648) 2147483647⟩,
      ⟨"loRaSNR", false, IsNumber⟩,
      ⟨"name", false, IsText⟩,
      ⟨"latitude", false, IsNumber⟩,
      ⟨"longitude", false, IsNumber⟩,
      ⟨"altitude", false, IsNumber⟩]
  | txInfo =>
    [⟨"frequency", false, isUInt32⟩,
      ⟨"dataRate", false, Reads DataRate.record.read⟩,
      ⟨"adr", false, IsBool⟩,
      ⟨"codeRate", false, IsText⟩]
  | dataRate =>
    [⟨"modulation", false, IsText⟩,
      ⟨"bandwidth", false, isUInt32⟩,
      ⟨"spreadFactor", false, isUInt32⟩,
      ⟨"bitrate", false, isUInt32⟩]

def names (s : Schema) : List String := s.layout.map (·.name)

theorem record_tidy (s : Schema) : s.record.Tidy := by
  cases s with
  | dataUp => exact DataUp.record_tidy
  | join => exact Join.record_tidy
  | ack => exact Ack.record_tidy
  | errorReport => exact ErrorReport.record_tidy
  | rxInfo => exact RxInfo.record_tidy
  | txInfo => exact TxInfo.record_tidy
  | dataRate => exact DataRate.record_tidy

/-- The field and the entry are the same member. -/
structure Matches {σ : Type} (f : Json.Field σ) (e : Entry) : Prop where
  name_eq : f.name = e.name
  required_eq : f.required = e.required
  reads_iff : ∀ d, f.Reads d ↔ e.takes d

@[simp] theorem matches_field {write : α → Json} {takes : Document → Prop} :
    Matches (field name required read write get set) ⟨name, required, takes⟩ ↔
      ∀ d, Reads read d ↔ takes d :=
  ⟨fun h d => reads_map.symm.trans (h.reads_iff d),
    fun h => ⟨rfl, rfl, fun d => reads_map.trans (h d)⟩⟩

@[simp] theorem matches_sparse {write : α → Option Json} {takes : Document → Prop} :
    Matches (sparse name read write get set) ⟨name, false, takes⟩ ↔ ∀ d, Reads read d ↔ takes d :=
  ⟨fun h d => reads_map.symm.trans (h.reads_iff d),
    fun h => ⟨rfl, rfl, fun d => reads_map.trans (h d)⟩⟩

/-- The table that is read from follows the grammar, member by member. -/
theorem layout_matches (s : Schema) : List.Forall₂ Matches s.record.fields s.layout := by
  cases s with
  | dataUp =>
    change List.Forall₂ Matches DataUp.record.fields (layout dataUp)
    simp [DataUp.record, layout, isUInt32]
  | join =>
    change List.Forall₂ Matches Join.record.fields (layout join)
    simp [Join.record, layout]
  | ack =>
    change List.Forall₂ Matches Ack.record.fields (layout ack)
    simp [Ack.record, layout, isUInt32]
  | errorReport =>
    change List.Forall₂ Matches ErrorReport.record.fields (layout errorReport)
    simp [ErrorReport.record, layout, isUInt32]
  | rxInfo =>
    change List.Forall₂ Matches RxInfo.record.fields (layout rxInfo)
    simp [RxInfo.record, layout]
  | txInfo =>
    change List.Forall₂ Matches TxInfo.record.fields (layout txInfo)
    simp [TxInfo.record, layout, isUInt32]
  | dataRate =>
    change List.Forall₂ Matches DataRate.record.fields (layout dataRate)
    simp [DataRate.record, layout, isUInt32]

theorem forall_iff {σ : Type} {fields : List (Json.Field σ)} {layout : List Entry}
    {P : Json.Field σ → Prop} {Q : Entry → Prop} (h : List.Forall₂ Matches fields layout)
    (hpq : ∀ f e, Matches f e → (P f ↔ Q e)) : (∀ f ∈ fields, P f) ↔ ∀ e ∈ layout, Q e := by
  induction h with
  | nil => simp
  | cons hm _ ih => rw [List.forall_mem_cons, List.forall_mem_cons, hpq _ _ hm, ih]

theorem fields_names (s : Schema) : s.record.fields.map (·.name) = s.names := by
  cases s <;> rfl

/-- The members follow the grammar of the record, in whatever order: each entry at most once, those
required at least once, and each with a value that it takes. -/
structure Fits (s : Schema) (members : List (Token String × Document)) : Prop where
  once : ∀ e ∈ s.layout, (valuesOf e.name members).length ≤ 1
  present : ∀ e ∈ s.layout, e.required = true → valuesOf e.name members ≠ []
  typed : ∀ e ∈ s.layout, ∀ d ∈ valuesOf e.name members, e.takes d

theorem fits_iff (s : Schema) {members : List (Token String × Document)} :
    s.record.Fits members ↔ s.Fits members := by
  have hm := s.layout_matches
  have honce := forall_iff hm (P := fun f => (valuesOf f.name members).length ≤ 1)
    (Q := fun e => (valuesOf e.name members).length ≤ 1) fun f e h => by rw [h.name_eq]
  have hpresent := forall_iff hm (P := fun f => f.required = true → valuesOf f.name members ≠ [])
    (Q := fun e => e.required = true → valuesOf e.name members ≠ []) fun f e h => by
      rw [h.name_eq, h.required_eq]
  have htyped := forall_iff hm (P := fun f => ∀ d ∈ valuesOf f.name members, f.Reads d)
    (Q := fun e => ∀ d ∈ valuesOf e.name members, e.takes d) fun f e h => by
      simp only [h.name_eq, h.reads_iff]
  exact ⟨fun h => ⟨honce.mp h.once, hpresent.mp h.present, htyped.mp h.reads⟩,
    fun h => ⟨honce.mpr h.once, hpresent.mpr h.present, htyped.mpr h.typed⟩⟩

/-- The record is read by its grammar and nothing else. -/
structure Exact (s : Schema) : Prop where
  /-- A text of the grammar of JSON is read as what it spells. -/
  texts : ∀ text d, Spells text.toList (.item d) →
    Json.readText s.record.read text = s.record.read d
  /-- An object is read when its names are texts and its members fit. Fields that are not there keep
  the values that the record starts from. -/
  objects : ∀ members, Spelled (.object members .closed) → ∀ p,
    s.record.read (.object members .closed) = .ok p ↔
      Named members ∧ s.Fits members ∧ s.record.assemble members = p
  /-- The order of the members makes no difference, nor does any that the record does not know. -/
  order : ∀ members others, Spelled (.object members .closed) → Spelled (.object others .closed) →
    Named others →
    (others.filter (calledOneOf s.names)).Perm (members.filter (calledOneOf s.names)) →
    ∀ p, s.record.read (.object members .closed) = .ok p →
      s.record.read (.object others .closed) = .ok p
  /-- A list is read as the object of its items under the first names. -/
  lists : ∀ items, Spelled (.list items .closed) →
    Spelled (.object (Record.pairs s.names items) .closed) ∧
    ∀ p, s.record.read (.list items .closed) = .ok p ↔
      items.length ≤ s.names.length ∧
        s.record.read (.object (Record.pairs s.names items) .closed) = .ok p
  /-- Only what names a device or a gateway has to be there. -/
  identity : ∀ e ∈ s.layout, e.required = true ↔
    e.name = "applicationID" ∨ e.name = "devEUI" ∨ e.name = "mac"
  null : ∀ e ∈ s.layout, e.takes .null ↔ s = .rxInfo ∧ e.name = "time"
  /-- The number of an application is written as a text. -/
  number : ∀ e ∈ s.layout, e.name = "applicationID" → ∀ d, e.takes d ↔
    ∃ t text n, d = .text t ∧ t.value = .ok text ∧ parseInt64 text = .ok n

theorem spelled_skipped {d : Document} (h : Spelled d) : d.skipped = none := by
  obtain ⟨cs, h⟩ := h
  exact h.skipped

theorem spelled_pairs {items : List Document} (names : List String) (h : ∀ d ∈ items, Spelled d) :
    Spelled (.object (Record.pairs names items) .closed) := by
  refine Spelled.object fun m hm => ?_
  obtain ⟨⟨name, d⟩, hp, rfl⟩ := List.mem_map.mp hm
  obtain ⟨cs, hcs⟩ := h d (List.of_mem_zip hp).2
  exact ⟨_, member_spells name hcs⟩

theorem not_reads_null {σ : Type} (r : Record σ) : ¬ Reads r.read .null := by
  rintro ⟨v, hv⟩
  exact mismatch_ne_ok (d := .null) hv

theorem exact (s : Schema) : s.Exact where
  texts text d h := readText_of_spells h s.record.read
  objects members h p := by
    rw [Record.read_object_iff s.record_tidy fun m hm => spelled_skipped (h.of_member m hm),
      fits_iff]
  order members others hm ho hn hp p h := by
    rw [← fields_names] at hp
    exact Record.read_reordered s.record_tidy (fun m h => spelled_skipped (hm.of_member m h))
      (fun m h => spelled_skipped (ho.of_member m h)) hn hp h
  lists items h := by
    refine ⟨spelled_pairs _ h.of_item, fun p => ?_⟩
    have hlength : s.record.fields.length = s.names.length := by
      rw [← fields_names, List.length_map]
    rw [Record.read_list_iff s.record_tidy, fields_names, hlength]
  identity := by cases s <;> decide
  null := by
    cases s <;>
      simp [layout, Follows, IsText, IsNumber, IsBool, Between, ListOf, isUInt32, not_reads_null]
  number := by cases s <;> simp [layout, Follows]

/-- The record that an event is notified with. -/
def ofEvent : Event → Schema
  | .rx => dataUp
  | .join => join
  | .ack => ack
  | .error => errorReport

def toPayload : (event : Event) → (ofEvent event).Value → Payload
  | .rx, p => .dataUp p
  | .join, p => .join p
  | .ack, p => .ack p
  | .error, p => .error p

theorem ofText_eq (event : Event) (text : String) :
    Payload.ofText event text =
      (Json.readText (ofEvent event).record.read text).map (toPayload event) := by
  have hmap : ∀ {σ : Type} (r : Record σ) (k : σ → Payload),
      Json.readText (fun d => (r.read d).map k) text = (Json.readText r.read text).map k := by
    intro σ r k
    simp only [Json.readText, bind, Except.bind]
    cases r.read (Reading.ofText text.toList).document with
    | error x => rfl
    | ok a =>
      simp only [Except.map]
      split <;> rfl
  cases event with
  | rx => exact hmap DataUp.record .dataUp
  | join => exact hmap Join.record .join
  | ack => exact hmap Ack.record .ack
  | error => exact hmap ErrorReport.record .error

end Schema

open Schema

/-- Payloads and the records in them are read by their grammar and nothing else. -/
theorem payload_grammar :
    (∀ s : Schema, s.Exact) ∧
      ∀ event text, Payload.ofText event text =
        (Json.readText (ofEvent event).record.read text).map (toPayload event) :=
  ⟨exact, ofText_eq⟩

/-- A join whose last name is half of a pair of surrogates, and what it spells. -/
def halfName : String :=
  "\x7b\"applicationID\":\"1\",\"devEUI\":\"0101010101010101\",\"\\ud800\":1\x7d"

def halfNameMembers : List (Token String × Document) :=
  [(⟨.ok "applicationID", none⟩, .text ⟨.ok "1", none⟩),
    (⟨.ok "devEUI", none⟩, .text ⟨.ok "0101010101010101", none⟩),
    (⟨.error .unpairedEscape, none⟩, .number ⟨.ok (.int 1), none⟩)]

theorem halfName_spells : Spells halfName.toList (.item (.object halfNameMembers .closed)) := by
  have happlication := member_spells "applicationID" (printText_spells "1")
  have hdevice := member_spells "devEUI" (printText_spells "0101010101010101")
  have hone : WholeForm ['1'] := .digits (by decide) rfl fun c hc => absurd hc List.not_mem_nil
  have hvalue : Spells ['1'] (.value (.number ⟨.ok (.int 1), none⟩)) :=
    .number (.positive hone .absent .absent)
  have hkey : TextForm ['\\', 'u', 'd', '8', '0', '0'] := .hex rfl rfl rfl rfl .nil
  have hhalf := Spells.member blanks_nil hkey blanks_nil hvalue.toItem
  exact (Spells.object (.members happlication (.members hdevice (.lastMember hhalf)))).toItem

/-- The grammar of the members is not all: the names of unknown members have to be texts as well. -/
theorem half_name_refused :
    ¬ ∀ text members, Spells text.toList (.item (.object members .closed)) →
      ((∃ p, Json.readText Join.record.read text = .ok p) ↔ join.Fits members) := by
  intro h
  have hfits : join.Fits halfNameMembers := by
    have hnumber : ∃ n, parseInt64 "1" = .ok n := ⟨1, rfl⟩
    have hdevice : ∃ id, Identifier.parse 8 "0101010101010101" = .ok id :=
      ⟨⟨List.replicate 8 1, rfl⟩, rfl⟩
    exact ⟨by decide, by decide, by
      simp [layout, halfNameMembers, valuesOf, Follows, IsText, hnumber, hdevice]⟩
  obtain ⟨p, hp⟩ := (h halfName halfNameMembers halfName_spells).mpr hfits
  rw [readText_of_spells halfName_spells] at hp
  cases hp

end Uplink.Notification
