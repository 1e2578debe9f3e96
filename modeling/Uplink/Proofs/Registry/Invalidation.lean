import Uplink.Proofs.Registry.Provenance

namespace Uplink.Registry

open Integration Store Time

variable {r : Registry} {a : Int64} {k n : Nat} {e : Entry} {drop : Step}
  {before after : List Step} {ttl : Option Duration}

/-- No slot of the application is left in the cache. -/
theorem dropped_not_cached (h : drop = .invalidate a ∨ drop = .invalidateAll) :
    (a, n) ∉ (step r drop).1.cache := by
  rcases h with rfl | rfl
  · simp only [step, invalidate]
    split
    · simp
    · rename_i hl
      rw [Option.not_isSome_iff_eq_none, List.lookup_eq_none_iff] at hl
      intro hm
      simpa using hl _ hm
  · simp [step, invalidateAll]

/-- From the moment of dropping on, new slots are all that the application gets. -/
theorem dropped_newer (h : drop = .invalidate a ∨ drop = .invalidateAll) :
    Newer (step r drop).1.slots.length (· = a) ((step r drop).1.calls.map (·.number))
      (step r drop).1 where
  length := Nat.le_refl _
  cached b n hb hm := by
    rw [hb] at hm
    exact absurd hm (dropped_not_cached h)
  called c hc _ ho := absurd (List.mem_map_of_mem hc) ho

/-- Nothing is in a slot that does not exist yet. -/
theorem Tenancy.recorded (h : Tenancy r) : Recorded r.slots.length r [] where
  asked c hc hf _ := by
    have := h.bound _ _ (holds_of_call hc)
    omega
  looked a n e hf hh _ := by
    have := h.bound a n hh
    omega

theorem Distinct.disjoint {xs ys : List Step} (h : Distinct (xs ++ ys)) (hk : k ∈ begun ys) :
    k ∉ begun xs := by
  unfold Distinct begun at h
  rw [List.filterMap_append] at h
  exact fun hx => (List.nodup_append.mp h).2.2 k hx k hk rfl

/-- A lookup begins once. -/
theorem asked_later {c : Nat} {a b : Int64} {xs ys : List Step} (hd : Distinct (xs ++ ys))
    (ha : .asked c a ∈ (run (run (start ttl) xs).1 ys).2) :
    .asked c b ∉ (run (start ttl) xs).2 := by
  intro hb
  have hn := (run_numbered ttl hd).once
  rw [run_append, asks_append] at hn
  exact (List.nodup_append.mp hn).2.2 c (mem_asks_of_asked hb) c (mem_asks_of_asked ha) rfl

/-- What a call that begins later returns was looked up later, where its application has only new
slots. -/
theorem looked_later {xs ys : List Step} (hd : Distinct (xs ++ ys))
    (hnew : Newer (run (start ttl) xs).1.slots.length (· = a)
      ((run (start ttl) xs).1.calls.map (·.number)) (run (start ttl) xs).1)
    (hk : .begin k a ∈ ys) (he : .returned k (.ok e) ∈ (run (start ttl) (xs ++ ys)).2) :
    Looked (run (run (start ttl) xs).1 ys).2 a e := by
  have hconserved := (run_numbered ttl hd.append_left).conserved
  have hfresh : k ∉ begun xs := hd.disjoint (mem_begun.mpr ⟨a, hk⟩)
  have hold : k ∉ (run (start ttl) xs).1.calls.map (·.number) :=
    fun h => hfresh (hconserved.mem_iff.mp (List.mem_append_right _ h))
  have hlater : .returned k (.ok e) ∈ (run (run (start ttl) xs).1 ys).2 := by
    rw [run_append] at he
    refine (List.mem_append.mp he).resolve_left fun h => hfresh ?_
    exact hconserved.mem_iff.mp (List.mem_append_left _ (mem_returns_of_returned h))
  have ht : Tenancy (run (start ttl) xs).1 := run_tenancy (start_tenancy ttl) xs
  obtain ⟨b, hb, hl⟩ := returned_looked ht ht.recorded hnew
    (fun c hc => List.mem_map_of_mem hc) hold hlater
  have hba : b = a := hd.application (List.mem_append_right _ hb) (List.mem_append_right _ hk)
  rw [hba] at hl
  exact hl rfl

/-- A call that begins after the entries of its application were dropped returns no entry whose
lookup began before, be there lookups in flight or not. -/
theorem no_stale_entry (ttl : Option Duration) (before after : List Step) (drop : Step)
    (a : Int64) (k : Nat) (e : Entry) (hd : Distinct (before ++ drop :: after))
    (hdrop : drop = .invalidate a ∨ drop = .invalidateAll) (hk : .begin k a ∈ after)
    (he : .returned k (.ok e) ∈ (run (start ttl) (before ++ drop :: after)).2) :
    (∃ c, .loaded c e ∈ (run (start ttl) (before ++ drop :: after)).2) ∧
      ∀ c, .loaded c e ∈ (run (start ttl) (before ++ drop :: after)).2 →
        .asked c a ∈ (run (start ttl) (before ++ drop :: after)).2 ∧
          ∀ b, .asked c b ∉ (run (start ttl) (before ++ [drop])).2 := by
  have split : before ++ drop :: after = (before ++ [drop]) ++ after := by simp
  rw [split] at hd he ⊢
  have hnew := dropped_newer (r := (run (start ttl) before).1) hdrop
  have hrun : (step (run (start ttl) before).1 drop).1 = (run (start ttl) (before ++ [drop])).1 := by
    rw [run_snoc]
  rw [hrun] at hnew
  obtain ⟨c, hasked, hloaded⟩ := looked_later hd hnew hk he
  have hrec : .loaded c e ∈ (run (start ttl) ((before ++ [drop]) ++ after)).2 := by
    rw [run_append]
    exact List.mem_append_right _ hloaded
  refine ⟨⟨c, hrec⟩, fun c' hc' => ?_⟩
  obtain rfl := loaded_unique hrec hc'
  refine ⟨?_, fun b => asked_later hd hasked⟩
  rw [run_append]
  exact List.mem_append_right _ hasked

/-- Entries are dropped while a lookup is out, and the second call is answered by a lookup of its
own, of a row less. -/
def overtaken : List Step :=
  [.begin 0 7, .invalidateAll, .begin 1 7, .answer 0 (.ok [⟨7, "HTTP", .null⟩]), .answer 1 (.ok []),
    .begin 2 7]

/-- A third call finds the entry of the second lookup. -/
theorem no_stale_entry_overtaken :
    Distinct overtaken ∧ .begin 2 7 ∈ overtaken.drop 2 ∧
      .returned 2 (.ok ⟨1, [], [], ⟨0⟩⟩) ∈ (run (start none) overtaken).2 ∧
      ∀ c, .loaded c ⟨1, [], [], ⟨0⟩⟩ ∈ (run (start none) overtaken).2 →
        .asked c 7 ∈ (run (start none) overtaken).2 ∧
          ∀ b, .asked c b ∉ (run (start none) [.begin 0 7, .invalidateAll]).2 := by
  have hd : Distinct overtaken := by decide
  have hk : Step.begin 2 7 ∈ overtaken.drop 2 := by simp [overtaken]
  have he : .returned 2 (.ok ⟨1, [], [], ⟨0⟩⟩) ∈ (run (start none) overtaken).2 :=
    List.mem_of_getLast? rfl
  exact ⟨hd, hk, he, (no_stale_entry none [.begin 0 7] (overtaken.drop 2) .invalidateAll 7 2
    ⟨1, [], [], ⟨0⟩⟩ hd (.inr rfl) hk he).2⟩

end Uplink.Registry
