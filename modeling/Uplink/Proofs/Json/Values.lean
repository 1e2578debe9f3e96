import Uplink.Proofs.Json.Record

namespace Uplink.Json

variable {σ α β : Type} {r : Record σ} {f : Field σ} {fields : List (Field σ)} {a acc : σ} {x : α}
  {d : Document} {documents : List Document} {ms : List (Token String × Document)}
  {members : List (String × Json)} {items : List Json} {seen : List String} {get : σ → α}
  {read : Document → Read α} {set : α → σ → σ}

/-- The values that stand under a name. -/
def valuesUnder (name : String) (members : List (String × Json)) : List Json :=
  members.filterMap fun m => if m.1 = name then some m.2 else none

theorem skipped_ofJson (v : Json) : (Document.ofJson v).skipped = none := by
  cases v <;> rfl

theorem ofItems_eq_map (items : List Json) : Document.ofItems items = items.map .ofJson := by
  induction items with
  | nil => rfl
  | cons v items ih => rw [Document.ofItems, ih, List.map_cons]

theorem ofMembers_eq_map (members : List (String × Json)) :
    Document.ofMembers members = members.map fun m => (⟨.ok m.1, none⟩, .ofJson m.2) := by
  induction members with
  | nil => rfl
  | cons m members ih => rw [Document.ofMembers, ih, List.map_cons]

theorem skipped_ofMembers : ∀ m ∈ Document.ofMembers members, m.2.skipped = none := by
  rw [ofMembers_eq_map]
  intro m hm
  obtain ⟨n, -, rfl⟩ := List.mem_map.mp hm
  exact skipped_ofJson n.2

theorem named_ofMembers : Named (Document.ofMembers members) := by
  rw [ofMembers_eq_map]
  intro m hm
  obtain ⟨n, -, rfl⟩ := List.mem_map.mp hm
  exact ⟨n.1, rfl⟩

theorem valuesOf_ofMembers (name : String) (members : List (String × Json)) :
    valuesOf name (Document.ofMembers members) = (valuesUnder name members).map .ofJson := by
  rw [ofMembers_eq_map, valuesOf, List.filterMap_map, valuesUnder, List.map_filterMap]
  congr 1
  funext m
  by_cases hm : m.1 = name <;> simp [hm]

theorem pairs_ofItems (names : List String) (items : List Json) :
    Record.pairs names (Document.ofItems items) = Document.ofMembers (names.zip items) := by
  rw [Record.pairs, ofItems_eq_map, ofMembers_eq_map, List.zip_map_right, List.map_map]
  rfl

/-- The field puts in what is read, by `set`. -/
def Field.Puts (f : Field σ) (read : Document → Read α) (set : α → σ → σ) : Prop :=
  ∀ d, f.read d = (read d).map set

/-- The field changes nothing of what `get` shows. -/
def Field.Leaves (f : Field σ) (get : σ → α) : Prop := ∀ a d, get (f.fill a d) = get a

/-- What comes of the documents under the name of a field: where there are none the field is as it
starts, and where there is one it is what is read there. -/
inductive Shows (read : Document → Read α) (start : α) : List Document → α → Prop where
  | absent : Shows read start [] start
  | present {d : Document} {x : α} (h : read d = .ok x) : Shows read start [d] x

theorem Shows.once {start : α} {ds : List Document} (h : Shows read start ds x) : ds.length ≤ 1 := by
  cases h <;> simp

theorem Field.Puts.reads_iff (hp : f.Puts read set) : f.Reads d ↔ ∃ v, read d = .ok v := by
  rw [Field.Reads, hp d]
  cases read d with
  | error y => simp [Except.map]
  | ok v => simp [Except.map]

theorem Field.Puts.fill (hp : f.Puts read set) (hx : read d = .ok x) (a : σ) :
    f.fill a d = set x a :=
  Field.fill_of_read ((hp d).trans (by rw [hx]; rfl)) a

theorem Field.Puts.reads_of_shows {start : α} {ds : List Document} (hp : f.Puts read set)
    (h : Shows read start ds x) : ∀ d ∈ ds, f.Reads d := by
  cases h with
  | absent => exact nofun
  | present h =>
    intro d hd
    rw [List.mem_singleton] at hd
    exact hp.reads_iff.mpr ⟨x, hd ▸ h⟩

theorem shows_values_iff {start : α} {vs : List Json} :
    Shows read start (vs.map .ofJson) x ↔
      vs = [] ∧ x = start ∨ ∃ v, vs = [v] ∧ read (.ofJson v) = .ok x := by
  match vs with
  | [] =>
    refine ⟨fun h => ?_, ?_⟩
    · cases h
      exact .inl ⟨rfl, rfl⟩
    · rintro (⟨-, rfl⟩ | ⟨v, hv, -⟩)
      · exact .absent
      · cases hv
  | [v] =>
    refine ⟨fun h => ?_, ?_⟩
    · cases h with
      | present h => exact .inr ⟨v, rfl, h⟩
    · rintro (⟨hv, -⟩ | ⟨w, hw, h⟩)
      · cases hv
      · cases hw
        exact .present h
  | v :: w :: vs =>
    refine ⟨fun h => ?_, ?_⟩
    · cases h
    · rintro (⟨hv, -⟩ | ⟨u, hu, -⟩)
      · cases hv
      · cases hu

theorem Field.Puts.leaves {get : σ → β} (hp : f.Puts read set)
    (h : ∀ v a, get (set v a) = get a) : f.Leaves get := by
  intro a d
  cases hd : read d with
  | error y =>
    have hf : f.read d = .error y := (hp d).trans (by rw [hd]; rfl)
    rw [Field.fill, hf]
  | ok v => rw [hp.fill hd, h]

theorem Field.Leaves.fill_all (h : f.Leaves get) (a : σ) (ds : List Document) :
    get (ds.foldl f.fill a) = get a := by
  induction ds generalizing a with
  | nil => rfl
  | cons d ds ih => rw [List.foldl_cons, ih, h]

namespace Record

theorem get_fillAll_other (ho : ∀ g ∈ fields, g.Leaves get) (a : σ) :
    get (fillAll fields ms a) = get a := by
  induction fields generalizing a with
  | nil => rfl
  | cons g fields ih =>
    obtain ⟨hg, ho⟩ := List.forall_mem_cons.mp ho
    exact (ih ho _).trans (hg.fill_all a _)

/-- What one field puts in is still there when all fields are filled. -/
theorem shows_fillAll (hp : f.Puts read set) (hget : ∀ v a, get (set v a) = v)
    (hn : (fields.map (·.name)).Nodup) (hf : f ∈ fields)
    (ho : ∀ g ∈ fields, g.name ≠ f.name → g.Leaves get)
    (honce : (valuesOf f.name ms).length ≤ 1) (hreads : ∀ d ∈ valuesOf f.name ms, f.Reads d)
    (a : σ) : Shows read (get a) (valuesOf f.name ms) (get (fillAll fields ms a)) := by
  induction fields generalizing a with
  | nil => cases hf
  | cons g fields ih =>
    rw [List.map_cons, List.nodup_cons] at hn
    obtain ⟨hg, hrest⟩ := List.forall_mem_cons.mp ho
    rw [fillAll, List.foldl_cons, ← fillAll]
    rcases List.mem_cons.mp hf with rfl | hf
    -- No field behind it has its name, so what it puts in stays.
    · rw [get_fillAll_other fun g hm => hrest g hm fun he => hn.1 (List.mem_map.mpr ⟨g, hm, he⟩)]
      cases hv : valuesOf f.name ms with
      | nil => exact .absent
      | cons d rest =>
        rw [hv, List.length_cons] at honce
        obtain rfl : rest = [] := List.length_eq_zero_iff.mp (by omega)
        obtain ⟨x, hx⟩ := hp.reads_iff.mp (hreads d (hv ▸ List.mem_singleton_self d))
        rw [List.foldl_cons, List.foldl_nil, hp.fill hx, hget]
        exact .present hx
    · have hne : g.name ≠ f.name := fun he => hn.1 (List.mem_map.mpr ⟨f, hf, he.symm⟩)
      rw [← (hg hne).fill_all a (valuesOf g.name ms)]
      exact ih hn.2 hf hrest _

/-- Each field of a record shows what stands under its name. -/
theorem Fits.shows (h : r.Fits ms) (ht : r.Tidy) (hf : f ∈ r.fields) (hp : f.Puts read set)
    (get : σ → α) (hget : ∀ v a, get (set v a) = v)
    (ho : ∀ g ∈ r.fields, g.name ≠ f.name → g.Leaves get) :
    Shows read (get r.blank) (valuesOf f.name ms) (get (r.assemble ms)) :=
  shows_fillAll hp hget ht.names hf ho (h.once f hf) (h.reads f hf) r.blank

theorem readMembers_whole :
    r.readMembers .whole seen acc ms = r.readMembers .closed seen acc ms := by
  induction ms generalizing seen acc with
  | nil => rfl
  | cons m ms ih =>
    rw [readMembers, readMembers]
    simp only [ih]

/-- Behind the last item, a text and a value are refused for different reasons. -/
theorem readItems_whole_ok_iff {total i : Nat} :
    r.readItems .whole total i acc fields documents = .ok a ↔
      r.readItems .closed total i acc fields documents = .ok a := by
  induction documents generalizing fields acc i with
  | nil => cases fields <;> rfl
  | cons d documents ih =>
    cases fields with
    | nil => simp [readItems, malformed, fail]
    | cons f fields =>
      rw [readItems, readItems]
      cases inside (.index i) (f.read d) with
      | error y => rfl
      | ok put => exact ih

/-- The value of an object is read when its members fit, into what they say. -/
theorem read_object_value_iff (ht : r.Tidy) :
    r.read (.ofJson (.object members)) = .ok a ↔
      r.Fits (Document.ofMembers members) ∧ r.assemble (Document.ofMembers members) = a := by
  have hwhole : r.read (.ofJson (.object members)) =
      r.read (.object (Document.ofMembers members) .closed) := readMembers_whole
  rw [hwhole, read_object_iff ht skipped_ofMembers, and_iff_right named_ofMembers]

/-- The value of a list is read as the object that pairs the names of the fields with its items. -/
theorem read_list_value_iff (ht : r.Tidy) :
    r.read (.ofJson (.list items)) = .ok a ↔ items.length ≤ r.fields.length ∧
      r.read (.ofJson (.object ((r.fields.map (·.name)).zip items))) = .ok a := by
  have hwhole : r.read (.ofJson (.object ((r.fields.map (·.name)).zip items))) =
      r.read (.object (pairs (r.fields.map (·.name)) (Document.ofItems items)) .closed) := by
    rw [pairs_ofItems]
    exact readMembers_whole
  have hlength : (Document.ofItems items).length = items.length := by
    rw [ofItems_eq_map, List.length_map]
  rw [hwhole, ← hlength, ← read_list_iff ht]
  exact readItems_whole_ok_iff

end Record

end Uplink.Json
