import Mathlib.Data.List.Forall2
import Uplink.Proofs.Json.Printing
import Uplink.Proofs.Json.Record

namespace Uplink.Json

variable {σ : Type} {r : Record σ} {f : Field σ} {a b blank : σ} {fields : List (Field σ)}
  {put : σ → σ} {puts : List (σ → σ)}

/-- The field brings its part of `a` back, by `put`. Left out, that part is the one of `blank`. -/
structure Field.Restores (blank a : σ) (f : Field σ) (put : σ → σ) : Prop where
  source : ∃ d, f.read d = .ok put
  written : ∀ v, f.write a = some v → f.read (.printed v) = .ok put
  omitted : f.write a = none → put blank = blank ∧ f.required = false

theorem Field.Apart.put_comm {g : Field σ} {put' : σ → σ} (h : f.Apart g)
    (hf : f.Restores blank a put) (hg : g.Restores blank a put') (b : σ) :
    put (put' b) = put' (put b) := by
  obtain ⟨d, hd⟩ := hf.source
  obtain ⟨e, he⟩ := hg.source
  exact h d e put put' hd he b

/-- The members that the fields of a table write. -/
def writtenMembers (fields : List (Field σ)) (a : σ) : List (String × Json) :=
  fields.filterMap fun f => (f.write a).map (f.name, ·)

theorem valuesOf_absent {name : String} (h : ∀ f ∈ fields, f.name ≠ name) :
    valuesOf name (Document.printedMembers (writtenMembers fields a)) = [] := by
  induction fields with
  | nil => rfl
  | cons f fields ih =>
    obtain ⟨hf, h⟩ := List.forall_mem_cons.mp h
    rw [writtenMembers, List.filterMap_cons, ← writtenMembers]
    cases f.write a with
    | none => exact ih h
    | some v => rw [Option.map_some, Document.printedMembers, valuesOf_cons rfl, if_neg hf, ih h]

/-- What is found under the name of a field is what the field has written. -/
theorem valuesOf_written (hn : (fields.map (·.name)).Nodup) (hf : f ∈ fields) :
    valuesOf f.name (Document.printedMembers (writtenMembers fields a)) =
      ((f.write a).map Document.printed).toList := by
  induction fields with
  | nil => cases hf
  | cons g fields ih =>
    rw [List.map_cons, List.nodup_cons, List.mem_map, not_exists] at hn
    rw [writtenMembers, List.filterMap_cons, ← writtenMembers]
    rcases List.mem_cons.mp hf with rfl | hf
    · have hrest := valuesOf_absent (a := a) fun g hg he => hn.1 g ⟨hg, he⟩
      cases f.write a with
      | none => exact hrest
      | some v =>
        rw [Option.map_some, Document.printedMembers, valuesOf_cons rfl, if_pos rfl, hrest]
        rfl
    · have hne : g.name ≠ f.name := fun he => hn.1 f ⟨hf, he.symm⟩
      rw [← ih hn.2 hf]
      cases g.write a with
      | none => rfl
      | some v => rw [Option.map_some, Document.printedMembers, valuesOf_cons rfl, if_neg hne]

theorem printed_skipped (v : Json) : (Document.printed v).skipped = none := by
  cases v <;> rfl

/-- All that is written has a name and can be passed over. -/
theorem printedMembers_sound (members : List (String × Json)) :
    Named (Document.printedMembers members) ∧
      ∀ m ∈ Document.printedMembers members, m.2.skipped = none := by
  rw [Document.printedMembers_eq]
  constructor
  · intro m hm
    obtain ⟨w, -, rfl⟩ := List.mem_map.mp hm
    exact ⟨w.1, rfl⟩
  · intro m hm
    obtain ⟨w, -, rfl⟩ := List.mem_map.mp hm
    exact printed_skipped w.2

/-- What a field that is left out would put in is there already, and stays there. -/
theorem Field.Restores.keeps {acc : σ} (hf : f.Restores blank a put) (h : ∀ g ∈ fields, f.Apart g)
    (hr : List.Forall₂ (Field.Restores blank a) fields puts)
    (hk : List.Forall₂ (fun g q => g.write a = none → q acc = acc) fields puts) :
    List.Forall₂ (fun g q => g.write a = none → q (put acc) = put acc) fields puts := by
  induction hr with
  | nil => exact .nil
  | cons hg _ ih =>
    obtain ⟨hfg, h⟩ := List.forall_mem_cons.mp h
    obtain ⟨hkg, hk⟩ := List.forall₂_cons.mp hk
    refine .cons (fun hn => ?_) (ih h hk)
    rw [← hfg.put_comm hf hg, hkg hn]

theorem fill_written {acc : σ} (ha : fields.Pairwise Field.Apart)
    (hr : List.Forall₂ (Field.Restores blank a) fields puts)
    (hk : List.Forall₂ (fun g q => g.write a = none → q acc = acc) fields puts) :
    fields.foldl (fun b f => ((f.write a).map Document.printed).toList.foldl f.fill b) acc =
      puts.foldl (fun b put => put b) acc := by
  induction hr generalizing acc with
  | nil => rfl
  | @cons f put fields puts hf hr ih =>
    obtain ⟨hfa, ha⟩ := List.pairwise_cons.mp ha
    obtain ⟨hkf, hk⟩ := List.forall₂_cons.mp hk
    rw [List.foldl_cons, List.foldl_cons]
    cases hw : f.write a with
    | none =>
      rw [hkf hw]
      exact ih ha hk
    | some v =>
      rw [Option.map_some, Option.toList_some, List.foldl_cons, List.foldl_nil,
        Field.fill_of_read (hf.written v hw)]
      exact ih ha (hf.keeps hfa hr hk)

/-- A record reads back what it writes when its fields restore all of it. -/
theorem Record.Tidy.read_write (ht : r.Tidy)
    (hr : List.Forall₂ (Field.Restores r.blank a) r.fields puts)
    (hall : puts.foldl (fun b put => put b) r.blank = a) :
    r.read (.printed (r.write a)) = .ok a := by
  have hf : ∀ f ∈ r.fields, ∃ put, f.Restores r.blank a put := fun f hf => by
    obtain ⟨i, hi, rfl⟩ := List.getElem_of_mem hf
    exact ⟨puts.get ⟨i, hr.length_eq ▸ hi⟩, hr.get hi _⟩
  rw [write, Document.printed]
  change r.read (.object (Document.printedMembers (writtenMembers r.fields a)) .closed) = .ok a
  have hvalues : ∀ f ∈ r.fields,
      valuesOf f.name (Document.printedMembers (writtenMembers r.fields a)) =
        ((f.write a).map Document.printed).toList := fun f hf => valuesOf_written ht.names hf
  obtain ⟨hnamed, hskip⟩ := printedMembers_sound (writtenMembers r.fields a)
  rw [read_object_iff ht hskip]
  refine ⟨hnamed, ⟨fun f hm => ?_, fun f hm hreq => ?_, fun f hm d hd => ?_⟩, ?_⟩
  · rw [hvalues f hm]
    cases f.write a <;> simp
  · obtain ⟨put, hput⟩ := hf f hm
    rw [hvalues f hm]
    cases hw : f.write a with
    | none => cases (hput.omitted hw).2.symm.trans hreq
    | some v => simp
  · obtain ⟨put, hput⟩ := hf f hm
    rw [hvalues f hm] at hd
    cases hw : f.write a with
    | none => simp [hw] at hd
    | some v =>
      obtain rfl : d = Document.printed v := by simpa [hw] using hd
      exact ⟨put, hput.written v hw⟩
  · have hwritten := fill_written ht.apart hr (hr.imp fun _ _ h hn => (h.omitted hn).1)
    refine Eq.trans ?_ (hwritten.trans hall)
    exact List.foldl_ext _ _ _ fun b f hm => by rw [hvalues f hm]

end Uplink.Json
