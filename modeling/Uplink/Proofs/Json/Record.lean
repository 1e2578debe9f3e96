import Mathlib.Data.List.Nodup
import Uplink.Json.Record

namespace Uplink.Json

variable {σ : Type} {r : Record σ} {f g : Field σ} {a b acc : σ} {d e : Document}
  {m : Token String × Document} {ms members : List (Token String × Document)}
  {items : List Document} {fields : List (Field σ)} {name : String} {seen : List String}
  {put put' : σ → σ}

/-- The documents that stand under a name in an object. -/
def valuesOf (name : String) (members : List (Token String × Document)) : List Document :=
  members.filterMap fun m =>
    match m.1.value with
    | .ok other => if other = name then some m.2 else none
    | .error _ => none

/-- Every member has a text for its name. -/
def Named (members : List (Token String × Document)) : Prop :=
  ∀ m ∈ members, ∃ name, m.1.value = .ok name

theorem valuesOf_cons (h : m.1.value = .ok name) (other : String) :
    valuesOf other (m :: ms) =
      if name = other then m.2 :: valuesOf other ms else valuesOf other ms := by
  by_cases hn : name = other <;> simp [valuesOf, h, hn]

/-- The member has one of these names. -/
def calledOneOf (names : List String) (m : Token String × Document) : Bool :=
  match m.1.value with
  | .ok name => names.contains name
  | .error _ => false

theorem valuesOf_filter {names : List String} (hn : name ∈ names)
    (members : List (Token String × Document)) :
    valuesOf name (members.filter (calledOneOf names)) = valuesOf name members := by
  rw [valuesOf, valuesOf, List.filterMap_filter]
  congr 1
  funext m
  cases hm : m.1.value with
  | error x => simp
  | ok other =>
    by_cases he : other = name
    · have hc : calledOneOf names m = true := by simp [calledOneOf, hm, he, hn]
      simp [hc]
    · simp [he]

theorem named_cons : Named (m :: ms) ↔ (∃ name, m.1.value = .ok name) ∧ Named ms :=
  List.forall_mem_cons

/-- Reads a document into the field; one that cannot be read leaves the record as it is. -/
def Field.fill (f : Field σ) (a : σ) (d : Document) : σ :=
  match f.read d with
  | .ok put => put a
  | .error _ => a

def Field.Reads (f : Field σ) (d : Document) : Prop := ∃ put, f.read d = .ok put

theorem Field.fill_of_read (h : f.read d = .ok put) (a : σ) : f.fill a d = put a := by
  rw [fill, h]

/-- The fields fill different parts of a record. -/
def Field.Apart (f g : Field σ) : Prop :=
  ∀ d e put put', f.read d = .ok put → g.read e = .ok put' → ∀ a, put (put' a) = put' (put a)

theorem Field.Apart.symm (h : f.Apart g) : g.Apart f :=
  fun d e put put' hd he a => (h e d put' put he hd a).symm

theorem Field.Apart.fill (h : f.Apart g) (a : σ) (d e : Document) :
    f.fill (g.fill a e) d = g.fill (f.fill a d) e := by
  unfold Field.fill
  cases hd : f.read d with
  | error _ => rfl
  | ok put =>
    cases he : g.read e with
    | error _ => rfl
    | ok put' => exact h d e put put' hd he a

theorem Field.Apart.fill_all (h : f.Apart g) (a : σ) (d : Document) (es : List Document) :
    f.fill (es.foldl g.fill a) d = es.foldl g.fill (f.fill a d) := by
  induction es generalizing a with
  | nil => rfl
  | cons e es ih => rw [List.foldl_cons, List.foldl_cons, ih, h.fill]

/-- What fits the field behind members of the names in `seen`. -/
@[mk_iff] structure Field.FitsAfter (f : Field σ) (seen : List String)
    (members : List (Token String × Document)) : Prop where
  once : (valuesOf f.name members).length + (if f.name ∈ seen then 1 else 0) ≤ 1
  present : f.required = true → f.name ∈ seen ∨ valuesOf f.name members ≠ []
  reads : ∀ d ∈ valuesOf f.name members, f.Reads d

theorem Field.fitsAfter_congr {others : List String}
    (hv : valuesOf f.name members = valuesOf f.name ms) (hs : f.name ∈ seen ↔ f.name ∈ others) :
    f.FitsAfter seen members ↔ f.FitsAfter others ms := by
  simp only [Field.fitsAfter_iff, hv, hs]

/-- A member of the field's name comes first under it, and no other may follow. -/
theorem Field.fitsAfter_own (hm : m.1.value = .ok f.name) :
    f.FitsAfter seen (m :: ms) ↔
      f.name ∉ seen ∧ f.Reads m.2 ∧ f.FitsAfter (f.name :: seen) ms := by
  have hv : valuesOf f.name (m :: ms) = m.2 :: valuesOf f.name ms := by
    rw [valuesOf_cons hm, if_pos rfl]
  constructor
  · intro h
    have honce := h.once
    rw [hv, List.length_cons] at honce
    have hnot : f.name ∉ seen := fun hs => by
      rw [if_pos hs] at honce
      omega
    have hreads : ∀ d ∈ m.2 :: valuesOf f.name ms, f.Reads d := hv ▸ h.reads
    obtain ⟨hread, hreads⟩ := List.forall_mem_cons.mp hreads
    refine ⟨hnot, hread, ?_, fun _ => .inl List.mem_cons_self, hreads⟩
    simpa [hnot] using honce
  · rintro ⟨hnot, hread, h⟩
    refine ⟨?_, fun _ => .inr (by simp [hv]), ?_⟩
    · simpa [hv, hnot] using h.once
    · rw [hv]
      exact List.forall_mem_cons.mpr ⟨hread, h.reads⟩

namespace Record

/-- The table is in order: its names differ, and its fields fill different parts. -/
structure Tidy (r : Record σ) : Prop where
  names : (r.fields.map (·.name)).Nodup
  apart : r.fields.Pairwise Field.Apart

/-- The members are what the record needs, in whatever order: each field at most once, those
required at least once, and each with a value of its type. -/
structure Fits (r : Record σ) (members : List (Token String × Document)) : Prop where
  once : ∀ f ∈ r.fields, (valuesOf f.name members).length ≤ 1
  present : ∀ f ∈ r.fields, f.required = true → valuesOf f.name members ≠ []
  reads : ∀ f ∈ r.fields, ∀ d ∈ valuesOf f.name members, f.Reads d

/-- Fills the fields of a table from the members, in the order of the table. -/
def fillAll (fields : List (Field σ)) (members : List (Token String × Document)) (a : σ) : σ :=
  fields.foldl (fun a f => (valuesOf f.name members).foldl f.fill a) a

/-- The record of the members: every field that is there is read, every other one keeps the value
it starts from. -/
def assemble (r : Record σ) (members : List (Token String × Document)) : σ :=
  fillAll r.fields members r.blank

/-- What fits behind members of the names in `seen`. -/
def FitsAfter (r : Record σ) (seen : List String) (members : List (Token String × Document)) :
    Prop :=
  ∀ f ∈ r.fields, f.FitsAfter seen members

theorem fitsAfter_start : r.FitsAfter [] members ↔ r.Fits members := by
  constructor
  · intro h
    exact ⟨fun f hf => by simpa using (h f hf).once,
      fun f hf hr => by simpa using (h f hf).present hr, fun f hf => (h f hf).reads⟩
  · intro h f hf
    exact ⟨by simpa using h.once f hf, fun hr => .inr (h.present f hf hr), h.reads f hf⟩

/-- Reads one member into the record, when it is one of its own. -/
def take (r : Record σ) (a : σ) (m : Token String × Document) : σ :=
  match m.1.value with
  | .ok name =>
    match r.find? name with
    | some f => f.fill a m.2
    | none => a
  | .error _ => a

theorem find?_some (h : r.find? name = some f) : f ∈ r.fields ∧ f.name = name :=
  ⟨List.mem_of_find?_eq_some h, by simpa using List.find?_some h⟩

theorem find?_none (h : r.find? name = none) : ∀ f ∈ r.fields, f.name ≠ name := by
  simpa [find?] using h

theorem Tidy.eq_of_name (ht : r.Tidy) (hf : f ∈ r.fields) (hg : g ∈ r.fields)
    (h : f.name = g.name) : f = g :=
  List.inj_on_of_nodup_map ht.names hf hg h

theorem Tidy.find?_name (ht : r.Tidy) (hf : f ∈ r.fields) : r.find? f.name = some f := by
  cases h : r.find? f.name with
  | none => exact absurd rfl (find?_none h f hf)
  | some g =>
    obtain ⟨hg, hn⟩ := find?_some h
    rw [ht.eq_of_name hg hf hn]

/-- An unknown member makes no difference. -/
theorem fitsAfter_unknown (hm : m.1.value = .ok name) (hn : r.find? name = none) :
    r.FitsAfter seen (m :: ms) ↔ r.FitsAfter seen ms := by
  refine forall₂_congr fun f hf => Field.fitsAfter_congr ?_ .rfl
  rw [valuesOf_cons hm, if_neg (find?_none hn f hf).symm]

/-- A member of the record's own counts for its field and for no other. -/
theorem fitsAfter_known (ht : r.Tidy) (hm : m.1.value = .ok name) (hf : r.find? name = some f) :
    r.FitsAfter seen (m :: ms) ↔
      name ∉ seen ∧ f.Reads m.2 ∧ r.FitsAfter (name :: seen) ms := by
  obtain ⟨hmem, rfl⟩ := find?_some hf
  have hother : ∀ g ∈ r.fields, g ≠ f →
      (g.FitsAfter seen (m :: ms) ↔ g.FitsAfter (f.name :: seen) ms) := by
    intro g hg hne
    have hn : f.name ≠ g.name := fun h => hne (ht.eq_of_name hg hmem h.symm)
    refine Field.fitsAfter_congr ?_ (by simp [hn.symm])
    rw [valuesOf_cons hm, if_neg hn]
  constructor
  · intro h
    obtain ⟨hnot, hread, hrest⟩ := (Field.fitsAfter_own hm).mp (h f hmem)
    refine ⟨hnot, hread, fun g hg => ?_⟩
    by_cases hgf : g = f
    · exact hgf ▸ hrest
    · exact (hother g hg hgf).mp (h g hg)
  · rintro ⟨hnot, hread, h⟩ g hg
    by_cases hgf : g = f
    · subst hgf
      exact (Field.fitsAfter_own hm).mpr ⟨hnot, hread, h g hg⟩
    · exact (hother g hg hgf).mpr (h g hg)

theorem take_unknown (hm : m.1.value = .ok name) (hf : r.find? name = none) (a : σ) :
    r.take a m = a := by
  simp only [take, hm, hf]

theorem take_known (hm : m.1.value = .ok name) (hf : r.find? name = some f) (a : σ) :
    r.take a m = f.fill a m.2 := by
  simp only [take, hm, hf]

/-- At the end of an object no required field may be missing. -/
theorem readMembers_nil_iff :
    r.readMembers .closed seen acc [] = .ok a ↔
      (∀ f ∈ r.fields, f.required = true → f.name ∈ seen) ∧ acc = a := by
  rw [readMembers]
  simp only [Stop.inObject]
  cases hfind : r.fields.find? fun f => f.required && !seen.contains f.name with
  | some f =>
    have hf := List.find?_some hfind
    simp only [Bool.and_eq_true, Bool.not_eq_true', List.contains_eq_mem,
      decide_eq_false_iff_not] at hf
    simp only [fail, reduceCtorEq, false_iff, not_and]
    exact fun h => absurd (h f (List.mem_of_find?_eq_some hfind) hf.1) hf.2
  | none =>
    have hall : ∀ f ∈ r.fields, f.required = true → f.name ∈ seen := by
      simpa using hfind
    simp only [Except.ok.injEq, iff_and_self]
    exact fun _ => hall

theorem fitsAfter_nil :
    r.FitsAfter seen [] ↔ ∀ f ∈ r.fields, f.required = true → f.name ∈ seen := by
  refine forall₂_congr fun f hf => ⟨fun h hr => by simpa [valuesOf] using h.present hr, fun h =>
    ⟨?_, fun hr => .inl (h hr), fun d hd => absurd hd (by simp [valuesOf])⟩⟩
  simp only [valuesOf, List.filterMap_nil, List.length_nil]
  split <;> omega

/-- Which objects are read, and into what, as their members come. -/
theorem readMembers_ok_iff (ht : r.Tidy) (hs : ∀ m ∈ members, m.2.skipped = none) :
    r.readMembers .closed seen acc members = .ok a ↔
      Named members ∧ r.FitsAfter seen members ∧ members.foldl r.take acc = a := by
  induction members generalizing seen acc with
  | nil =>
    rw [readMembers_nil_iff, fitsAfter_nil]
    simp [Named]
  | cons m ms ih =>
    obtain ⟨hm, hs⟩ := List.forall_mem_cons.mp hs
    rw [named_cons, List.foldl_cons, readMembers]
    cases hname : m.1.value with
    | error x => simp [Document.settle, hname, malformed, fail, inside, bind, Except.bind]
    | ok name =>
      cases hf : r.find? name with
      | none =>
        rw [fitsAfter_unknown hname hf, take_unknown hname hf]
        simpa [Document.settle, hname, inside, bind, Except.bind, hf, Document.skip, hm] using ih hs
      | some f =>
        rw [fitsAfter_known ht hname hf, take_known hname hf]
        by_cases hseen : name ∈ seen
        · simp [Document.settle, hname, inside, bind, Except.bind, hf, hseen, fail]
        · cases hread : f.read m.2 with
          | error x =>
            simp [Document.settle, hname, inside, bind, Except.bind, hf, hseen, Field.Reads, hread]
          | ok put =>
            rw [Field.fill_of_read hread]
            simpa [Document.settle, hname, inside, bind, Except.bind, hf, hseen, Field.Reads, hread]
              using ih hs

theorem fillAll_unknown (hm : m.1.value = .ok name) (hn : ∀ f ∈ fields, f.name ≠ name) (a : σ) :
    fillAll fields (m :: ms) a = fillAll fields ms a := by
  induction fields generalizing a with
  | nil => rfl
  | cons f fields ih =>
    obtain ⟨hf, hn⟩ := List.forall_mem_cons.mp hn
    simp only [fillAll, List.foldl_cons] at ih ⊢
    rw [valuesOf_cons hm, if_neg hf.symm]
    exact ih hn _

/-- The first member of an object may be read before all others. -/
theorem fillAll_known (hn : (fields.map (·.name)).Nodup) (ha : fields.Pairwise Field.Apart)
    (hf : f ∈ fields) (hm : m.1.value = .ok f.name) (a : σ) :
    fillAll fields (m :: ms) a = fillAll fields ms (f.fill a m.2) := by
  induction fields generalizing a with
  | nil => cases hf
  | cons g fields ih =>
    rw [List.map_cons, List.nodup_cons, List.mem_map, not_exists] at hn
    obtain ⟨hga, ha⟩ := List.pairwise_cons.mp ha
    rw [fillAll, List.foldl_cons, fillAll, List.foldl_cons, ← fillAll, ← fillAll]
    rcases List.mem_cons.mp hf with rfl | hf
    · rw [valuesOf_cons hm, if_pos rfl, List.foldl_cons]
      exact fillAll_unknown hm (fun g hg he => hn.1 g ⟨hg, he⟩) _
    · have hne : f.name ≠ g.name := fun he => hn.1 f ⟨hf, he⟩
      rw [valuesOf_cons hm, if_neg hne, ih hn.2 ha hf, ← (hga f hf).symm.fill_all]

/-- Read in the order of the text or of the table, the record is the same. -/
theorem foldl_take (ht : r.Tidy) (h : Named members) (acc : σ) :
    members.foldl r.take acc = fillAll r.fields members acc := by
  induction members generalizing acc with
  | nil =>
    have hid : ∀ (fields : List (Field σ)) (a : σ), fillAll fields [] a = a := fun fields => by
      induction fields with
      | nil => exact fun _ => rfl
      | cons f fields ih => exact fun a => ih a
    exact (hid r.fields acc).symm
  | cons m ms ih =>
    obtain ⟨⟨name, hm⟩, h⟩ := named_cons.mp h
    rw [List.foldl_cons, ih h]
    cases hf : r.find? name with
    | none => rw [take_unknown hm hf, fillAll_unknown hm (find?_none hf)]
    | some f =>
      obtain ⟨hmem, rfl⟩ := find?_some hf
      rw [take_known hm hf, fillAll_known ht.names ht.apart hmem hm]

/-- An object is read when all its names are texts and its members fit, and the record is made up
of what they say, whatever their order and whatever else is there. -/
theorem read_object_iff (ht : r.Tidy) (hs : ∀ m ∈ members, m.2.skipped = none) :
    r.read (.object members .closed) = .ok a ↔
      Named members ∧ r.Fits members ∧ r.assemble members = a := by
  rw [read, readMembers_ok_iff ht hs, fitsAfter_start]
  refine and_congr_right fun hn => ?_
  rw [foldl_take ht hn]
  rfl

/-- Only the values under the names of the fields count. -/
theorem Fits.congr (h : r.Fits ms)
    (hv : ∀ f ∈ r.fields, valuesOf f.name members = valuesOf f.name ms) :
    r.Fits members ∧ r.assemble members = r.assemble ms := by
  refine ⟨⟨fun f hf => hv f hf ▸ h.once f hf, fun f hf => hv f hf ▸ h.present f hf,
    fun f hf => hv f hf ▸ h.reads f hf⟩, ?_⟩
  exact List.foldl_ext _ _ _ fun a f hf => by rw [hv f hf]

/-- The order of the members does not matter, nor does any that is unknown. -/
theorem read_reordered (ht : r.Tidy) (hs : ∀ m ∈ ms, m.2.skipped = none)
    (hs' : ∀ m ∈ members, m.2.skipped = none) (hn : Named members)
    (hp : (members.filter (calledOneOf (r.fields.map (·.name)))).Perm
      (ms.filter (calledOneOf (r.fields.map (·.name)))))
    (h : r.read (.object ms .closed) = .ok a) : r.read (.object members .closed) = .ok a := by
  rw [read_object_iff ht hs] at h
  rw [read_object_iff ht hs']
  obtain ⟨-, hfits, rfl⟩ := h
  have hv : ∀ f ∈ r.fields, valuesOf f.name members = valuesOf f.name ms := fun f hf => by
    have hperm : (valuesOf f.name members).Perm (valuesOf f.name ms) := by
      have hname : f.name ∈ r.fields.map (·.name) := List.mem_map_of_mem hf
      rw [← valuesOf_filter hname members, ← valuesOf_filter hname ms]
      exact hp.filterMap _
    have honce := hfits.once f hf
    match hvals : valuesOf f.name ms with
    | [] => exact List.perm_nil.mp (hvals ▸ hperm)
    | [d] => exact List.perm_singleton.mp (hvals ▸ hperm)
    | d :: e :: rest =>
      rw [hvals, List.length_cons, List.length_cons] at honce
      omega
  exact ⟨hn, hfits.congr hv⟩

/-- The members that pair names with documents, in their order. -/
def pairs (names : List String) (items : List Document) : List (Token String × Document) :=
  (names.zip items).map fun p => (⟨.ok p.1, none⟩, p.2)

theorem readItems_nil_iff {total i : Nat} :
    r.readItems .closed total i acc fields [] = .ok a ↔
      (∀ f ∈ fields, f.required = false) ∧ acc = a := by
  cases fields with
  | nil => simp [readItems, Stop.afterLast]
  | cons f fields =>
    rw [readItems]
    simp only [Stop.inList]
    cases hfind : (f :: fields).findIdx? (·.required) with
    | some k =>
      obtain ⟨hk, hreq, -⟩ := List.findIdx?_eq_some_iff_getElem.mp hfind
      simp only [fail, reduceCtorEq, false_iff, not_and]
      exact fun h => absurd (h _ (List.getElem_mem hk)) (by simp [hreq])
    | none =>
      have hall : ∀ g ∈ f :: fields, g.required = false := by
        simpa using List.findIdx?_eq_none_iff.mp hfind
      simp only [Except.ok.injEq, iff_and_self]
      exact fun _ => hall

/-- A field that comes later in the table has another name than those before it. -/
theorem Tidy.not_seen {before : List (Field σ)} (ht : r.Tidy) (hf : r.fields = before ++ fields)
    (hseen : ∀ name, name ∈ seen ↔ name ∈ before.map (·.name)) (hmem : f ∈ fields) :
    f.name ∉ seen := by
  have hnames := ht.names
  rw [hf, List.map_append, List.nodup_append] at hnames
  exact fun hs => hnames.2.2 _ ((hseen _).mp hs) _ (List.mem_map_of_mem hmem) rfl

theorem Tidy.rest_optional_iff {before : List (Field σ)} (ht : r.Tidy)
    (hf : r.fields = before ++ fields)
    (hseen : ∀ name, name ∈ seen ↔ name ∈ before.map (·.name)) :
    (∀ f ∈ fields, f.required = false) ↔
      ∀ f ∈ r.fields, f.required = true → f.name ∈ seen := by
  rw [hf]
  constructor
  · intro h f hf hr
    rcases List.mem_append.mp hf with hf | hf
    · exact (hseen _).mpr (List.mem_map_of_mem hf)
    · rw [h f hf] at hr
      cases hr
  · intro h f hmem
    refine Bool.eq_false_iff.mpr fun hr => ?_
    exact ht.not_seen hf hseen hmem (h f (List.mem_append_right _ hmem) hr)

/-- The items of a list are read as the members that pair the fields' names with them. -/
theorem readItems_ok_iff {total i : Nat} (ht : r.Tidy) (before : List (Field σ))
    (hf : r.fields = before ++ fields) (hseen : ∀ name, name ∈ seen ↔ name ∈ before.map (·.name)) :
    r.readItems .closed total i acc fields items = .ok a ↔
      items.length ≤ fields.length ∧
        r.readMembers .closed seen acc (pairs (fields.map (·.name)) items) = .ok a := by
  induction items generalizing fields before seen acc i with
  | nil =>
    rw [readItems_nil_iff, pairs, List.zip_nil_right, List.map_nil, readMembers_nil_iff,
      ht.rest_optional_iff hf hseen]
    simp
  | cons d items ih =>
    cases fields with
    | nil => simp [readItems, malformed, fail]
    | cons f fields =>
      have hmem : f ∈ r.fields := hf ▸ List.mem_append_right _ List.mem_cons_self
      have hnew : f.name ∉ seen := ht.not_seen hf hseen List.mem_cons_self
      rw [readItems, List.map_cons, pairs, List.zip_cons_cons, List.map_cons, readMembers, ← pairs]
      cases hread : f.read d with
      | error x =>
        simp [Document.settle, inside, bind, Except.bind, ht.find?_name hmem, hnew, hread]
      | ok put =>
        have hnext : ∀ name, name ∈ f.name :: seen ↔ name ∈ (before ++ [f]).map (·.name) := by
          intro name
          simp [hseen, or_comm]
        simpa [Document.settle, inside, bind, Except.bind, ht.find?_name hmem, hnew, hread]
          using ih (before ++ [f]) (by simp [hf]) hnext

/-- A list is read when it has no more items than there are fields, as the object that pairs their
names with them. -/
theorem read_list_iff (ht : r.Tidy) (items : List Document) (a : σ) :
    r.read (.list items .closed) = .ok a ↔
      items.length ≤ r.fields.length ∧
        r.read (.object (pairs (r.fields.map (·.name)) items) .closed) = .ok a :=
  readItems_ok_iff ht [] rfl (by simp)

end Record

end Uplink.Json
