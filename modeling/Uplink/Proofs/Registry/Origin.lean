import Uplink.Proofs.Registry.Provenance

namespace Uplink.Registry

open Integration Store Time

variable {r : Registry} {a : Int64} {k m : Nat} {c : Call} {e : Entry} {s : Step}
  {x : StorageError} {steps : List Step} {ttl : Option Duration}

/-- Where the integrations of the rows that can be built go, row by row. -/
def built (rows : List Store.Integration) : List Webhook.Endpoints :=
  rows.filterMap fun row =>
    match Integration.build row with
    | .ok b => some b.endpoints
    | .error _ => none

/-- The rows that cannot be built, and why, row by row. -/
def unbuilt (rows : List Store.Integration) : List ConfigurationFailure :=
  rows.filterMap fun row =>
    match Integration.build row with
    | .ok _ => none
    | .error error => some ⟨row.kind, error⟩

/-- Every row is built for itself, whatever the others are. -/
theorem buildAll_eq (m : Nat) (rows : List Store.Integration) :
    (buildAll m rows).1.map (·.endpoints) = built rows ∧ (buildAll m rows).2 = unbuilt rows := by
  induction rows generalizing m with
  | nil => exact ⟨rfl, rfl⟩
  | cons row rows ih =>
    unfold buildAll
    cases hb : Integration.build row with
    | ok b =>
      obtain ⟨hh, hf⟩ := ih (m + 1)
      simp only [built, unbuilt, List.filterMap_cons, hb, List.map_cons]
      exact ⟨congrArg _ hh, hf⟩
    | error error =>
      obtain ⟨hh, hf⟩ := ih m
      simp only [built, unbuilt, List.filterMap_cons, hb]
      exact ⟨hh, congrArg _ hf⟩

/-- An entry is as the rows of an answer have it. -/
structure BuiltFrom (rows : List Store.Integration) (e : Entry) : Prop where
  hooks : e.hooks.map (·.endpoints) = built rows
  failures : e.failures = unbuilt rows
  numbers : e.numbers.Nodup

theorem entryOf_builtFrom (r : Registry) (rows : List Store.Integration) :
    BuiltFrom rows (r.entryOf rows) where
  hooks := (buildAll_eq r.hooks rows).1
  failures := (buildAll_eq r.hooks rows).2
  numbers := by
    simp only [Entry.numbers, entryOf, buildAll_numbers]
    exact List.nodup_range'

/-- An entry is found where the lookup of the call is answered. -/
theorem step_found (h : .loaded k e ∈ (step r s).2) :
    ∃ rows, s = .answer k (.ok rows) ∧ BuiltFrom rows e := by
  rw [← mem_loads] at h
  rcases step_loads r s with ⟨hl, _⟩ | ⟨c, _, rows, rfl, _, hs⟩
  · rw [hl] at h
    cases h
  · rw [hs, fill_loads, List.mem_singleton, Prod.mk.injEq] at h
    obtain ⟨rfl, rfl⟩ := h
    exact ⟨rows, rfl, entryOf_builtFrom r rows⟩

/-- A call fails where its own lookup is answered so. -/
theorem step_storage (h : .returned k (.error (.storage x)) ∈ (step r s).2) :
    s = .answer k (.error x) ∧ ∃ c ∈ r.calls, c.number = k ∧ c.loading = true := by
  cases step_fails h with
  | storage c _ hc hl hs => exact ⟨hs, c, hc, rfl, hl⟩

/-- At the start there is no slot to be known of. -/
theorem start_recorded (ttl : Option Duration) : Recorded 0 (start ttl) [] where
  asked _ hc := nomatch hc
  looked _ _ _ _ _ he := by simp [slotAt, start, Slot.fresh] at he

theorem start_newer (ttl : Option Duration) : Newer 0 (fun _ => True) [] (start ttl) where
  length := Nat.zero_le _
  cached _ _ _ h := nomatch h
  called _ h := nomatch h

/-- An entry that is returned was looked up for the application of the call. -/
theorem returned_entry (h : .returned k (.ok e) ∈ (run (start ttl) steps).2) :
    ∃ a, .begin k a ∈ steps ∧ Looked (run (start ttl) steps).2 a e := by
  obtain ⟨a, ha, hl⟩ := returned_looked (start_tenancy ttl) (start_recorded ttl) (start_newer ttl)
    (fun _ hc => nomatch hc) (List.not_mem_nil) h
  exact ⟨a, ha, hl trivial⟩

/-- A call that fails has looked up its application itself. -/
theorem returned_storage (h : .returned k (.error (.storage x)) ∈ (run (start ttl) steps).2) :
    ∃ a, .begin k a ∈ steps ∧ .asked k a ∈ (run (start ttl) steps).2 := by
  obtain ⟨before, s, after, rfl, hs⟩ := mem_run h
  obtain ⟨-, c, hc, rfl, hl⟩ := step_storage hs
  have hcalled : c.number ∈ ([] : List Nat) ∨ .begin c.number c.application ∈ before :=
    run_called (r := start ttl) (fun _ hc => nomatch hc) hc
  have hb := hcalled.resolve_left List.not_mem_nil
  obtain ⟨-, hr, -⟩ := run_recorded (start_tenancy ttl) (start_recorded ttl) (start_newer ttl) before
  refine ⟨c.application, List.mem_append_left _ hb, ?_⟩
  rw [run_append]
  exact List.mem_append_left _ (hr.asked c hc (Nat.zero_le _) hl)

end Uplink.Registry
