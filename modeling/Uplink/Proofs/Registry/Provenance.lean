import Uplink.Proofs.Registry.Books

namespace Uplink.Registry

open Integration Store Time

variable {r r' : Registry} {a b : Int64} {k n first : Nat} {c : Call} {e : Entry} {s : Step}
  {o o' : List Output} {steps : List Step} {ttl : Option Duration}

/-- A slot is in use for an application: it is cached, or a call is in it. -/
def Holds (r : Registry) (a : Int64) (n : Nat) : Prop :=
  (a, n) ∈ r.cache ∨ ∃ c ∈ r.calls, c.application = a ∧ c.slot = n

theorem holds_of_call (h : c ∈ r.calls) : r.Holds c.application c.slot :=
  .inr ⟨c, h, rfl, rfl⟩

/-- Slots are in use for one application each. -/
structure Tenancy (r : Registry) : Prop where
  bound : ∀ a n, r.Holds a n → n < r.slots.length
  unique : ∀ a b n, r.Holds a n → r.Holds b n → a = b

theorem Evolves.holds (h : Evolves r s r' o) (hh : r'.Holds a n) :
    r.Holds a n ∨ n = r.slots.length ∧ n < r'.slots.length ∧ ∃ k, s = .begin k a := by
  rcases hh with hc | ⟨c, hc, rfl, rfl⟩
  · exact (h.cached a n hc).imp .inl id
  · rcases h.called c hc with ⟨b, hb, _, ha, hs, _⟩ | ⟨_, hm, _⟩
    · exact .inl (ha ▸ hs ▸ holds_of_call hb)
    · exact (h.cached _ _ hm).imp .inl id

theorem Evolves.tenancy (h : Evolves r s r' o) (ht : Tenancy r) : Tenancy r' where
  bound a n hn := by
    rcases h.holds hn with hn | ⟨_, hn, _⟩
    · exact Nat.lt_of_lt_of_le (ht.bound a n hn) h.length
    · exact hn
  unique a b n ha hb := by
    rcases h.holds ha with ha | ⟨hn, _, k, hk⟩ <;> rcases h.holds hb with hb | ⟨hn', _, j, hj⟩
    · exact ht.unique a b n ha hb
    · have := ht.bound a n ha
      omega
    · have := ht.bound b n hb
      omega
    · rw [hk] at hj
      cases hj
      rfl

theorem start_tenancy (ttl : Option Duration) : Tenancy (start ttl) where
  bound a n h := by simp [Holds, start] at h
  unique a b n h := by simp [Holds, start] at h

theorem run_tenancy (ht : Tenancy r) (steps : List Step) : Tenancy (run r steps).1 :=
  collect_keeps (P := fun r _ => Tenancy r) (o := [])
    (fun r _ s ht => (step_evolves r s).tenancy ht) ht steps

/-- A lookup for the application has found the entry, and its beginning is told, too. -/
def Looked (o : List Output) (a : Int64) (e : Entry) : Prop :=
  ∃ c, .asked c a ∈ o ∧ .loaded c e ∈ o

theorem Looked.append_left (h : Looked o a e) : Looked (o ++ o') a e := by
  obtain ⟨c, ha, hl⟩ := h
  exact ⟨c, List.mem_append_left _ ha, List.mem_append_left _ hl⟩

/-- Of the slots from `first` on, the outputs tell every lookup that is out or has filled one. -/
structure Recorded (first : Nat) (r : Registry) (o : List Output) : Prop where
  asked : ∀ c ∈ r.calls, first ≤ c.slot → c.loading = true → .asked c.number c.application ∈ o
  looked : ∀ a n e, first ≤ n → r.Holds a n → (r.slotAt n).entry = some e → Looked o a e

theorem Evolves.recorded (h : Evolves r s r' o') (ht : Tenancy r) (hr : Recorded first r o) :
    Recorded first r' (o ++ o') where
  asked c hc hf hl := by
    rcases h.called c hc with ⟨b, hb, hn, ha, hs, hload⟩ | ⟨_, _, hasked⟩
    · rcases hload hl with hl | hm
      · rw [← hn, ← ha]
        exact List.mem_append_left _ (hr.asked b hb (hs ▸ hf) hl)
      · exact List.mem_append_right _ hm
    · exact List.mem_append_right _ (hasked hl)
  looked a n e hf hh he := by
    rcases h.filled n e he with he | ⟨c, hc, rfl, hl, hm⟩
    · rcases h.holds hh with hh | ⟨hn, _, _⟩
      · exact (hr.looked a n e hf hh he).append_left
      · rw [slotAt_of_length_le (Nat.le_of_eq hn.symm)] at he
        cases he
    · have hown : r.Holds c.application c.slot := holds_of_call hc
      rcases h.holds hh with hh | ⟨hn, _, _⟩
      · have ha := ht.unique _ _ _ hown hh
        rw [← ha]
        exact ⟨c.number, List.mem_append_left _ (hr.asked c hc hf hl),
          List.mem_append_right _ hm⟩
      · have := ht.bound _ _ hown
        omega

/-- The applications concerned have only slots from `first` on, but for the calls that were there
before. -/
structure Newer (first : Nat) (concerned : Int64 → Prop) (old : List Nat) (r : Registry) :
    Prop where
  length : first ≤ r.slots.length
  cached : ∀ a n, concerned a → (a, n) ∈ r.cache → first ≤ n
  called : ∀ c ∈ r.calls, concerned c.application → c.number ∉ old → first ≤ c.slot

variable {concerned : Int64 → Prop} {old : List Nat}

theorem Evolves.newer (h : Evolves r s r' o) (hn : Newer first concerned old r) :
    Newer first concerned old r' := by
  have hcached : ∀ a n, concerned a → (a, n) ∈ r'.cache → first ≤ n := by
    intro a n ha hm
    rcases h.cached a n hm with hm | ⟨rfl, _, _⟩
    · exact hn.cached a n ha hm
    · exact hn.length
  refine ⟨Nat.le_trans hn.length h.length, hcached, ?_⟩
  intro c hc ha ho
  rcases h.called c hc with ⟨b, hb, hnum, happ, hs, _⟩ | ⟨_, hm, _⟩
  · rw [← hs]
    exact hn.called b hb (happ ▸ ha) (hnum ▸ ho)
  · exact hcached _ _ ha hm

/-- Where every call comes from. -/
theorem run_called (hold : ∀ c ∈ r.calls, c.number ∈ old) (hc : c ∈ (run r steps).1.calls) :
    c.number ∈ old ∨ .begin c.number c.application ∈ steps := by
  induction steps using List.reverseRecOn generalizing c with
  | nil => exact .inl (hold c hc)
  | append_singleton steps s ih =>
    rw [run_snoc] at hc
    rcases (step_evolves _ s).called c hc with ⟨b, hb, hn, ha, _, _⟩ | ⟨rfl, _, _⟩
    · have hb := ih hb
      rw [hn, ha] at hb
      exact hb.imp id (List.mem_append_left _)
    · exact .inr (by simp)

/-- What the run of a registry knows about its slots from `first` on. -/
theorem run_recorded (ht : Tenancy r) (hr : Recorded first r []) (hn : Newer first concerned old r)
    (steps : List Step) :
    Tenancy (run r steps).1 ∧ Recorded first (run r steps).1 (run r steps).2 ∧
      Newer first concerned old (run r steps).1 :=
  collect_keeps
    (P := fun r o => Tenancy r ∧ Recorded first r o ∧ Newer first concerned old r) (o := [])
    (fun r _ s ⟨ht, hr, hn⟩ =>
      have h := step_evolves r s
      ⟨h.tenancy ht, h.recorded ht hr, h.newer hn⟩)
    ⟨ht, hr, hn⟩ steps

/-- An entry that is returned to a new call for one of the applications concerned was looked up
for that application in the run. -/
theorem returned_looked (ht : Tenancy r) (hr : Recorded first r [])
    (hn : Newer first concerned old r) (hold : ∀ c ∈ r.calls, c.number ∈ old) (hk : k ∉ old)
    (he : .returned k (.ok e) ∈ (run r steps).2) :
    ∃ a, .begin k a ∈ steps ∧ (concerned a → Looked (run r steps).2 a e) := by
  induction steps using List.reverseRecOn with
  | nil => simp [run] at he
  | append_singleton steps s ih =>
    rw [run_snoc] at he ⊢
    rcases List.mem_append.mp he with he | he
    · obtain ⟨a, ha, hl⟩ := ih he
      exact ⟨a, List.mem_append_left _ ha, fun h => (hl h).append_left⟩
    · obtain ⟨_, hr, hn⟩ := run_recorded ht hr hn steps
      rcases ((step_evolves _ s).returned k e he).2 with ⟨a, n, rfl, hm, hs⟩ | ⟨c, hc, rfl, hs⟩
      · refine ⟨a, by simp, fun h => ?_⟩
        exact (hr.looked a n e (hn.cached a n h hm) (.inl hm) hs).append_left
      · have hb := (run_called hold hc).resolve_left hk
        refine ⟨c.application, List.mem_append_left _ hb, fun h => ?_⟩
        have hf := hn.called c hc h hk
        rcases hs with hs | ⟨hl, hs⟩
        · exact (hr.looked _ _ e hf (holds_of_call hc) hs).append_left
        · exact ⟨c.number, List.mem_append_left _ (hr.asked c hc hf hl),
            List.mem_append_right _ hs⟩

end Uplink.Registry
