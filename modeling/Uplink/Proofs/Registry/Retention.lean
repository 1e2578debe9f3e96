import Uplink.Proofs.Registry.Occupancy

namespace Uplink.Registry

open Integration Store Time

variable {r : Registry} {a : Int64} {k m n : Nat} {c : Call} {e f : Entry} {s : Step}
  {before after steps : List Step} {ttl : Option Duration}

/-- A lookup that was to fill a slot has failed. -/
def FailedIn (ttl : Option Duration) (steps : List Step) (n : Nat) : Prop :=
  ∃ (before : List Step) (c : Call) (x : StorageError) (after : List Step),
    steps = before ++ .answer c.number (.error x) :: after ∧
      c ∈ (run (start ttl) before).1.calls ∧ c.loading = true ∧ c.slot = n

theorem FailedIn.append (h : FailedIn ttl steps n) (more : List Step) :
    FailedIn ttl (steps ++ more) n := by
  obtain ⟨before, c, x, after, rfl, hc, hl, hn⟩ := h
  exact ⟨before, c, x, after ++ more, List.append_assoc .., hc, hl, hn⟩

/-- At some time of a run a slot was that of an application in the cache. -/
def CachedIn (r : Registry) (steps : List Step) (a : Int64) (n : Nat) : Prop :=
  ∃ before after, steps = before ++ after ∧ (a, n) ∈ (run r before).1.cache

theorem CachedIn.append (h : CachedIn r steps a n) (more : List Step) :
    CachedIn r (steps ++ more) a n := by
  obtain ⟨before, after, rfl, hm⟩ := h
  exact ⟨before, after ++ more, List.append_assoc .., hm⟩

theorem cachedIn_of_mem (h : (a, n) ∈ (run r steps).1.cache) : CachedIn r steps a n :=
  ⟨steps, [], (List.append_nil steps).symm, h⟩

/-- Calls that have begun meanwhile are in slots that they found or made in the cache. -/
theorem cachedIn_of_call (hnew : c.number ∉ r.calls.map (·.number))
    (hc : c ∈ (run r steps).1.calls) : CachedIn r steps c.application c.slot := by
  induction steps using List.reverseRecOn generalizing c with
  | nil => exact absurd (List.mem_map_of_mem hc) hnew
  | append_singleton steps s ih =>
    have hstep := step_evolves (run r steps).1 s
    rw [run_snoc] at hc
    rcases hstep.called c hc with ⟨b, hb, hk, ha, hs, -⟩ | ⟨-, hm, -⟩
    · rw [← ha, ← hs]
      exact (ih (hk ▸ hnew) hb).append [s]
    · refine cachedIn_of_mem ?_
      rwa [run_snoc]

/-- A slot that was there and is not in the cache does not come back. -/
theorem run_not_cached (hb : n < r.slots.length) (hn : (a, n) ∉ r.cache) (steps : List Step) :
    (a, n) ∉ (run r steps).1.cache := by
  refine (collect_keeps (f := step) (o := []) (P := fun q _ => n < q.slots.length ∧ (a, n) ∉ q.cache)
    ?_ ⟨hb, hn⟩ steps).2
  intro q _ s hq
  have hstep := step_evolves q s
  refine ⟨Nat.lt_of_lt_of_le hq.1 hstep.length, fun hm => ?_⟩
  rcases hstep.cached a n hm with hm | ⟨hlength, -, -⟩
  · exact hq.2 hm
  · exact Nat.lt_irrefl _ (hlength ▸ hq.1)

/-- The entries in the slots are among those that were made, and no two slots have one number. -/
structure Singular (r : Registry) : Prop where
  made : ∀ n e, (r.slotAt n).entry = some e → e.number < r.entries
  apart : ∀ m n e f, (r.slotAt m).entry = some e → (r.slotAt n).entry = some f →
    e.number = f.number → m = n

theorem Singular.step (h : Singular r) (ht : Tenancy r) (s : Step) :
    Singular (Registry.step r s).1 := by
  have hfilled := (step_evolves r s).filled
  rcases step_loads r s with ⟨hnone, hentries, -⟩ | ⟨c, hc, rows, rfl, -, hs⟩
  · have hold : ∀ n e, ((Registry.step r s).1.slotAt n).entry = some e →
        (r.slotAt n).entry = some e := by
      intro n e he
      refine (hfilled n e he).resolve_right ?_
      rintro ⟨c, -, -, -, hl⟩
      rw [← mem_loads, hnone] at hl
      cases hl
    refine ⟨fun n e he => ?_, fun m n e f he hf => h.apart m n e f (hold m e he) (hold n f hf)⟩
    rw [hentries]
    exact h.made n e (hold n e he)
  · rw [hs]
    have hentries : (fill r c rows).1.entries = r.entries + 1 :=
      congrArg Books.entries (fill_books r c rows)
    have hnew : ∀ n e, ((fill r c rows).1.slotAt n).entry = some e →
        n = c.slot ∧ e.number = r.entries ∨ (r.slotAt n).entry = some e := by
      intro n e he
      by_cases hn : n = c.slot
      · rw [hn, fill_entry (ht.bound _ _ (holds_of_call hc)), Option.some.injEq] at he
        exact .inl ⟨hn, he ▸ rfl⟩
      · rw [fill_slotAt_of_ne hn] at he
        exact .inr he
    refine ⟨fun n e he => ?_, fun m n e f he hf hnumber => ?_⟩
    · rw [hentries]
      rcases hnew n e he with ⟨-, hlast⟩ | hold
      · exact hlast ▸ Nat.lt_succ_self _
      · exact Nat.lt_succ_of_lt (h.made n e hold)
    · rcases hnew m e he with ⟨hm, hlast⟩ | he <;> rcases hnew n f hf with ⟨hn, hlast'⟩ | hf
      · exact hm.trans hn.symm
      · have := h.made n f hf
        omega
      · have := h.made m e he
        omega
      · exact h.apart m n e f he hf hnumber

theorem run_singular (ttl : Option Duration) (steps : List Step) :
    Singular (run (start ttl) steps).1 := by
  refine (collect_keeps (f := step) (o := []) (P := fun r _ => Tenancy r ∧ Singular r)
    ?_ ⟨start_tenancy ttl, ?_, ?_⟩ steps).2
  · intro r _ s hr
    exact ⟨(step_evolves r s).tenancy hr.1, hr.2.step hr.1 s⟩
  · intro n e he
    simp [slotAt, start, Slot.fresh] at he
  · intro m n e f he
    simp [slotAt, start, Slot.fresh] at he

/-- What a call returns stands in its slot when it has returned. -/
theorem step_stands (h : Lined r) (hsound : Sound r s) (he : .returned k (.ok e) ∈ (step r s).2) :
    (∃ b n, s = .begin k b ∧ (b, n) ∈ r.cache ∧ ((step r s).1.slotAt n).entry = some e) ∨
      ∃ c ∈ r.calls, c.number = k ∧ ((step r s).1.slotAt c.slot).entry = some e := by
  have keeps {n} (hn : (r.slotAt n).entry = some e) : ((step r s).1.slotAt n).entry = some e :=
    h.step_filled hsound.keyed hn s
  rcases ((step_evolves r s).returned k e he).2 with ⟨b, n, hs, hm, hn⟩ | ⟨c, hc, rfl, hfound⟩
  · exact .inl ⟨b, n, hs, hm, keeps hn⟩
  · refine .inr ⟨c, hc, rfl, ?_⟩
    rcases hfound with hn | ⟨-, hl⟩
    · exact keeps hn
    rw [← mem_loads] at hl
    rcases step_loads r s with ⟨hnone, -⟩ | ⟨d, hd, rows, rfl, -, hs⟩
    · rw [hnone] at hl
      cases hl
    · rw [hs, fill_loads, List.mem_singleton, Prod.mk.injEq] at hl
      obtain rfl := List.inj_on_of_nodup_map hsound.numbers hc hd hl.1
      rw [hs, fill_entry (hsound.tenancy.bound _ _ (holds_of_call hc)), hl.2]

/-- An entry that is returned stands in a slot that was in the cache when its call began or later.
-/
theorem returned_stands (before : List Step) (hd : Distinct (before ++ steps)) (hk : .begin k a ∈ steps)
    (he : .returned k (.ok e) ∈ (run (run (start ttl) before).1 steps).2) :
    ∃ n, CachedIn (run (start ttl) before).1 steps a n ∧
      ((run (start ttl) (before ++ steps)).1.slotAt n).entry = some e := by
  obtain ⟨xs, s, ys, rfl, hs⟩ := mem_run he
  have hsplit : before ++ (xs ++ s :: ys) = (before ++ xs ++ [s]) ++ ys := by simp
  have hbegun : .begin k a ∈ before ++ (xs ++ s :: ys) := List.mem_append_right _ hk
  have hnew : k ∉ (run (start ttl) before).1.calls.map (·.number) := by
    intro hm
    obtain ⟨c, hc, rfl⟩ := List.mem_map.mp hm
    exact hd.disjoint (mem_begun.mpr ⟨a, hk⟩) (mem_begun.mpr ⟨_, begun_of_call ttl hc⟩)
  have hall := hd
  rw [hsplit] at hd
  have hrun : (run (start ttl) (before ++ xs)).1 = (run (run (start ttl) before).1 xs).1 := by
    rw [run_append]
  have hsound := run_sound ttl hd.append_left
  have hlined := run_lined ttl hd.append_left.append_left
  suffices h : ∃ n, CachedIn (run (start ttl) before).1 xs a n ∧
      ((step (run (start ttl) (before ++ xs)).1 s).1.slotAt n).entry = some e by
    obtain ⟨n, hcached, hn⟩ := h
    refine ⟨n, hcached.append _, ?_⟩
    rw [hsplit, run_append]
    refine run_filled hd ?_
    rwa [run_snoc]
  rw [hrun] at hsound hlined ⊢
  rcases step_stands hlined hsound hs with ⟨b, n, rfl, hm, hn⟩ | ⟨c, hc, rfl, hn⟩
  · obtain rfl : b = a := hall.application (by simp) hbegun
    exact ⟨n, cachedIn_of_mem hm, hn⟩
  · have hcalled : .begin c.number c.application ∈ before ++ (xs ++ s :: ys) := by
      rw [← List.append_assoc]
      rw [← hrun] at hc
      exact List.mem_append_left _ (begun_of_call ttl hc)
    obtain rfl : c.application = a := hall.application hcalled hbegun
    exact ⟨c.slot, cachedIn_of_call hnew hc, hn⟩

theorem run_ttl (ttl : Option Duration) (steps : List Step) : (run (start ttl) steps).1.ttl = ttl :=
  (run_clock (run_keyed ttl []) steps).2.1

/-- A failed lookup takes its slot out of the cache for good. -/
theorem FailedIn.not_cached (h : FailedIn ttl steps n) (hd : Distinct steps) (a : Int64) :
    (a, n) ∉ (run (start ttl) steps).1.cache := by
  obtain ⟨before, c, x, after, rfl, hc, hl, rfl⟩ := h
  have ht := run_tenancy (start_tenancy ttl) before
  have hnumbers := (run_numbered ttl hd.append_left).calls_nodup hd.append_left
  have hstep : step (run (start ttl) before).1 (.answer c.number (.error x)) =
      fail (run (start ttl) before).1 c x := by
    simp only [step, answer, call?_of_mem hnumbers hc, hl, if_true]
  rw [run_append, run_cons]
  refine run_not_cached ?_ ?_ after
  · exact Nat.lt_of_lt_of_le (ht.bound _ _ (holds_of_call hc)) (step_evolves _ _).length
  · rw [hstep]
    intro hm
    obtain ⟨hm, hne⟩ := mem_retire.mp hm
    exact hne ⟨ht.unique _ _ _ (.inl hm) (holds_of_call hc), rfl⟩

/-- While nothing is dropped and what stands in it is good, a slot leaves the cache only as its
lookup fails. -/
theorem cached_or_failed {xs ys : List Step} (hd : Distinct steps) (hg : ∀ s ∈ steps, Gentle a s)
    (he : ((run (start ttl) steps).1.slotAt n).entry = some e)
    (hgood : isExpired ttl (run (start ttl) steps).1.now e = false)
    (hsteps : steps = before ++ xs ++ ys) (hm : (a, n) ∈ (run (start ttl) before).1.cache) :
    (a, n) ∈ (run (start ttl) (before ++ xs)).1.cache ∨ FailedIn ttl (before ++ xs) n := by
  induction xs using List.reverseRecOn generalizing ys with
  | nil => exact .inl (by rwa [List.append_nil])
  | append_singleton xs s ih =>
    have hsplit : steps = before ++ xs ++ s :: ys := by simp [hsteps]
    rw [← List.append_assoc]
    rcases ih hsplit with hin | hfailed
    · by_cases hout : (a, n) ∈ (run (start ttl) (before ++ xs ++ [s])).1.cache
      · exact .inl hout
      have hkeyed := run_keyed ttl (before ++ xs)
      have hgentle : Gentle a s := hg s (by simp [hsplit])
      rw [run_snoc] at hout
      rcases (step_caching hkeyed (run_empty ttl _) s).leaves hin hout with
        ⟨k, f, hf, hx⟩ | ⟨c, x, hc, hl, -, hs⟩ | _ | _ | _
      · -- what has expired stands there to the end, and is not good then
        obtain ⟨-, -, hnow⟩ := run_clock hkeyed (.begin k a :: ys)
        rw [hsplit] at hd he hgood
        rw [run_append] at he hgood
        rw [run_filled hd hf, Option.some.injEq] at he
        rw [he, run_ttl] at hx
        have hlater := isExpired_later hnow hx
        rw [hgood] at hlater
        cases hlater
      · exact .inr ⟨before ++ xs, c, x, [], rfl, hc, hl, hs⟩
      · exact absurd rfl hgentle.1
      · exact absurd rfl hgentle.2.1
      · exact absurd rfl hgentle.2.2
    · exact .inr (hfailed.append [s])

/-- Of the slots with good entries those are in the cache in which no lookup has failed. -/
theorem cached_iff (hd : Distinct steps) (hg : ∀ s ∈ steps, Gentle a s)
    (he : ((run (start ttl) steps).1.slotAt n).entry = some e)
    (hgood : isExpired ttl (run (start ttl) steps).1.now e = false)
    (hc : CachedIn (start ttl) steps a n) :
    (a, n) ∈ (run (start ttl) steps).1.cache ↔ ¬FailedIn ttl steps n := by
  refine ⟨fun hm hfailed => hfailed.not_cached hd a hm, fun hnone => ?_⟩
  obtain ⟨before, after, rfl, hm⟩ := hc
  exact (cached_or_failed hd hg he hgood (List.append_nil _).symm hm).resolve_right hnone

/-- As long as nothing is dropped, closed or expired, what becomes of an entry that has been
returned hangs on its slot. If no lookup has failed there, every call that begins next returns it,
and nobody is asked; if one has, no call that begins later returns it. -/
theorem returned_again (ttl : Option Duration) (before after : List Step) (a : Int64) (k : Nat)
    (e : Entry) (hd : Distinct (before ++ after)) (hg : ∀ s ∈ before, Gentle a s)
    (hk : .begin k a ∈ before) (he : .returned k (.ok e) ∈ (run (start ttl) before).2)
    (hgood : isExpired ttl (run (start ttl) before).1.now e = false) :
    let r := (run (start ttl) before).1
    ∃ n, (r.slotAt n).entry = some e ∧
      (¬FailedIn ttl before n →
        ∀ j, (step r (.begin j a)).2 = [.counted .hit, .returned j (.ok e)]) ∧
      (FailedIn ttl before n →
        ∀ j b, .begin j b ∈ after → .returned j (.ok e) ∉ (run r after).2) := by
  intro r
  obtain ⟨n, hcached, hn⟩ := returned_stands [] hd.append_left hk he
  refine ⟨n, hn, fun hnone j => ?_, fun hfailed j b hj hr => ?_⟩
  · have hopen : r.closed = false := (open_before_close ttl fun hm => (hg _ hm).2.2 rfl).1
    have hm := (cached_iff hd.append_left hg hn hgood hcached).mpr hnone
    have hnow : isExpired r.ttl r.now e = false := by rwa [run_ttl]
    rw [step, begin_of_good hopen (lookup_of_mem (run_once ttl before) hm) hn hnow]
  · -- it would stand in a slot that was in the cache, and there is only the one that was not
    obtain ⟨m, ⟨xs, ys, -, hm⟩, hstands⟩ := returned_stands before hd hj hr
    have hkept : ((run (start ttl) (before ++ after)).1.slotAt n).entry = some e := by
      rw [run_append]
      exact run_filled hd hn
    obtain rfl := (run_singular ttl (before ++ after)).apart m n e e hstands hkept rfl
    exact run_not_cached (lt_of_entry hn) (hfailed.not_cached hd.append_left b) xs hm

/-- One that has waited behind a failed lookup fills a slot that is out of the cache by then, and
the next call looks up again. -/
example :
    news 7 [0, 1, 2] (run (start none) [.begin 0 7, .begin 1 7,
      .answer 0 (.error (.unavailable "down")), .wake 1, .answer 1 (.ok []), .begin 2 7]).2 =
    [.asked 0 7, .returned 0 (.error (.storage (.unavailable "down"))), .asked 1 7,
      .loaded 1 ⟨0, [], [], ⟨0⟩⟩, .returned 1 (.ok ⟨0, [], [], ⟨0⟩⟩), .asked 2 7] := by
  rfl

end Uplink.Registry
