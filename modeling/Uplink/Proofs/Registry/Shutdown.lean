import Uplink.Proofs.Registry.Books

namespace Uplink.Registry

open Integration Store Time

variable {r : Registry} {a : Int64} {k n : Nat} {c : Call} {e : Entry} {s : Step}
  {o : List Output} {steps : List Step} {ttl : Option Duration}

theorem begin_of_closed (h : r.closed = true) (k : Nat) (a : Int64) :
    begin r k a = (r, [.returned k (.error .closed)]) := by
  simp only [begin, h, ↓reduceIte]

theorem close_of_closed (h : r.closed = true) : close r = (r, []) := by
  simp only [close, h, ↓reduceIte]

/-- A registry that refuses a call is closed. -/
theorem closed_of_refused (h : .returned k (.error .closed) ∈ (step r s).2) : r.closed = true := by
  cases step_fails h with
  | closed _ hc => exact hc

/-- What is not in flight in a closed registry does not come into flight. -/
theorem step_calls_closed (h : r.closed = true) (hk : k ∉ r.calls.map (·.number)) (s : Step) :
    k ∉ (step r s).1.calls.map (·.number) := by
  cases hs : s.begun? with
  | none => exact ((step_traffic r s (by simp [hs])).absent hk (by simp [hs])).2
  | some j =>
    cases s with
    | begin j a => rwa [step, begin_of_closed h]
    | _ => cases hs

/-- What was closed stays so. -/
theorem step_released (r : Registry) (s : Step) : r.released <+: (step r s).1.released := by
  have hb := step_booked r s
  generalize step r s = x at hb
  cases hb with
  | same _ _ hb _ => exact ⟨[], by rw [List.append_nil]; exact (congrArg Books.released hb).symm⟩
  | settled c e => exact ⟨_, (congrArg Books.released (settle_books r c e)).symm⟩
  | filled c rows => exact ⟨_, (congrArg Books.released (fill_books r c rows)).symm⟩
  | closed => exact ⟨_, (congrArg Books.released (close_books r)).symm⟩

theorem step_closed (h : r.closed = true) (s : Step) : (step r s).1.closed = true := by
  have hb := step_booked r s
  generalize step r s = x at hb
  cases hb with
  | same _ _ hb _ => exact (congrArg Books.closed hb).trans h
  | settled c e => exact (congrArg Books.closed (settle_books r c e)).trans h
  | filled c rows => exact (congrArg Books.closed (fill_books r c rows)).trans h
  | closed => exact congrArg Books.closed (close_books r)

/-- A closed registry takes nothing into its cache. -/
theorem step_empty (h : r.closed = true) (he : r.cache = []) (s : Step) :
    (step r s).1.cache = [] := by
  apply List.eq_nil_iff_forall_not_mem.mpr
  rintro ⟨a, n⟩ hm
  rcases (step_evolves r s).cached a n hm with hm | ⟨_, _, k, rfl⟩
  · simp [he] at hm
  · rw [step, begin_of_closed h, he] at hm
    cases hm

/-- A closed registry returns no entry. -/
theorem step_refused (h : r.closed = true) (s : Step) : .returned k (.ok e) ∉ (step r s).2 := by
  intro hm
  have ho := ((step_evolves r s).returned k e hm).1
  rw [h] at ho
  cases ho

/-- A registry that has been closed, and what came out since. -/
structure Shut (r : Registry) (o : List Output) : Prop where
  closed : r.closed = true
  empty : r.cache = []
  refused : ∀ k e, .returned k (.ok e) ∉ o
  released : ∀ k e, .loaded k e ∈ o → ∀ n ∈ e.numbers, n ∈ r.released

theorem Shut.step (h : Shut r o) (s : Step) : Shut (step r s).1 (o ++ (step r s).2) where
  closed := step_closed h.closed s
  empty := step_empty h.closed h.empty s
  refused k e hm := (List.mem_append.mp hm).elim (h.refused k e) (step_refused h.closed s)
  released k e hm n hn := by
    rcases List.mem_append.mp hm with hm | hm
    · exact (step_released r s).subset (h.released k e hm n hn)
    · rcases step_loads r s with ⟨hl, _⟩ | ⟨c, _, rows, _, _, hs⟩
      · rw [← mem_loads, hl] at hm
        cases hm
      · rw [hs, ← mem_loads, fill_loads, List.mem_singleton, Prod.mk.injEq] at hm
        have hb := congrArg Books.released (fill_books r c rows)
        rw [hs]
        change (fill r c rows).1.released = _ at hb
        rw [hb, h.closed, ← hm.2]
        exact List.mem_append_right _ hn

theorem close_shut (r : Registry) (h : r.closed = true → r.cache = []) :
    Shut (close r).1 (close r).2 where
  closed := congrArg Books.closed (close_books r)
  empty := by
    unfold close
    split
    · rename_i hc
      exact h hc
    · rfl
  refused k e hm := by
    unfold close at hm
    split at hm <;> simp at hm
  released k e hm := by
    unfold close at hm
    split at hm <;> simp at hm

theorem close_cache (h : r.closed = false) : (close r).1.cache = [] := by
  simp only [close, h, Bool.false_eq_true, ↓reduceIte]

/-- The cache of a closed registry is empty. -/
theorem run_empty (ttl : Option Duration) (steps : List Step)
    (h : (run (start ttl) steps).1.closed = true) : (run (start ttl) steps).1.cache = [] := by
  refine collect_keeps (f := step) (P := fun r _ => r.closed = true → r.cache = []) (o := [])
    ?_ (by simp [start]) steps h
  intro r _ s hr hc
  cases ho : r.closed with
  | true => exact step_empty ho (hr ho) s
  | false =>
    -- only a close can have closed it
    have still : ∀ {x : Outcome}, x.1.books.closed = r.closed → x.1.closed = true → False :=
      fun hb hx => Bool.false_ne_true (ho.symm.trans (hb.symm.trans hx))
    have hb := step_booked r s
    generalize step r s = x at hb hc
    cases hb with
    | same _ _ hb _ => exact (still (congrArg Books.closed hb) hc).elim
    | settled c e => exact (still (congrArg Books.closed (settle_books r c e)) hc).elim
    | filled c rows => exact (still (congrArg Books.closed (fill_books r c rows)) hc).elim
    | closed => exact close_cache ho

theorem Shut.run (h : Shut r o) (steps : List Step) :
    Shut (run r steps).1 (o ++ (run r steps).2) :=
  collect_keeps (f := Registry.step) (fun _ _ s h => h.step s) h steps

theorem run_released (r : Registry) (steps : List Step) :
    r.released <+: (run r steps).1.released :=
  collect_keeps (P := fun r' _ => r.released <+: r'.released) (o := [])
    (fun r' _ s h => h.trans (step_released r' s)) (List.prefix_refl _) steps

/-- Where nothing closes the registry, no webhook is closed. -/
theorem open_before_close (ttl : Option Duration) (h : .close ∉ steps) :
    (run (start ttl) steps).1.closed = false ∧ (run (start ttl) steps).1.released = [] := by
  induction steps using List.reverseRecOn with
  | nil => exact ⟨rfl, rfl⟩
  | append_singleton steps s ih =>
    rw [List.mem_append, not_or, List.mem_singleton] at h
    obtain ⟨hc, hr⟩ := ih h.1
    rw [run_snoc]
    have hb := step_booked (run (start ttl) steps).1 s
    generalize step (run (start ttl) steps).1 s = x at hb
    cases hb with
    | same _ _ hb _ =>
      exact ⟨(congrArg Books.closed hb).trans hc, (congrArg Books.released hb).trans hr⟩
    | settled c e =>
      have hb := settle_books (run (start ttl) steps).1 c e
      refine ⟨(congrArg Books.closed hb).trans hc, (congrArg Books.released hb).trans ?_⟩
      simp [hc, hr]
    | filled c rows =>
      have hb := fill_books (run (start ttl) steps).1 c rows
      refine ⟨(congrArg Books.closed hb).trans hc, (congrArg Books.released hb).trans ?_⟩
      simp [hc, hr]
    | closed => exact absurd rfl h.2

/-- Closing closes every webhook of a filled slot in the cache. -/
theorem close_released (h : r.closed = true → r.cache = []) (hm : (a, n) ∈ r.cache)
    (he : (r.slotAt n).entry = some e) (hk : k ∈ e.numbers) : k ∈ (close r).1.released := by
  have ho : r.closed = false := by
    cases hc : r.closed with
    | true => simp [h hc] at hm
    | false => rfl
  have hb := congrArg Books.released (close_books r)
  change (close r).1.released = _ at hb
  rw [hb, ho]
  refine List.mem_append_right _ (List.mem_flatMap.mpr ⟨e, ?_, hk⟩)
  exact List.mem_filterMap.mpr ⟨(a, n), hm, he⟩

/-- Closing misses nothing, whatever is in flight: no entry is returned from then on, every webhook
of a filled slot in the cache is closed, every webhook built later is closed, and the cache stays
empty. -/
theorem close_misses_nothing (ttl : Option Duration) (before after : List Step) :
    let r := (run (start ttl) before).1
    let r' := (run r (.close :: after)).1
    let outputs := (run r (.close :: after)).2
    (∀ k e, .returned k (.ok e) ∉ outputs) ∧
      (∀ a n e, (a, n) ∈ r.cache → (r.slotAt n).entry = some e →
        ∀ h ∈ e.hooks, (r'.backend h).closed = true) ∧
      (∀ k e, .loaded k e ∈ outputs → ∀ h ∈ e.hooks, (r'.backend h).closed = true) ∧
      r'.cache = [] := by
  intro r r' outputs
  have hempty : r.closed = true → r.cache = [] := run_empty ttl before
  have hshut : Shut r' outputs := by
    simp only [r', outputs, run_cons]
    exact (close_shut r hempty).run after
  have hlater : (close r).1.released <+: r'.released := by
    simp only [r', run_cons]
    exact run_released _ after
  have closed : ∀ h : Hook, h.number ∈ r'.released → (r'.backend h).closed = true :=
    fun h hm => List.contains_iff_mem.mpr hm
  refine ⟨hshut.refused, ?_, ?_, hshut.empty⟩
  · intro a n e hm he h hh
    exact closed h (hlater.subset (close_released hempty hm he (List.mem_map_of_mem hh)))
  · intro k e hm h hh
    exact closed h (hshut.released k e hm _ (List.mem_map_of_mem hh))

/-- In a closed registry no call comes into flight. -/
theorem step_calls_length (h : r.closed = true) (s : Step) :
    (step r s).1.calls.length ≤ r.calls.length := by
  cases hs : s.begun? with
  | none => exact (step_traffic r s (by simp [hs])).length_le hs
  | some k =>
    cases s with
    | begin k a => exact Nat.le_of_eq (by rw [step, begin_of_closed h])
    | _ => cases hs

/-- In a closed registry every entry that is closed once more costs a call in flight. -/
theorem step_again (h : r.closed = true) (s : Step) :
    ∃ again : List Entry,
      (step r s).1.released = r.released ++ again.flatMap Entry.numbers ∧
        again.length + (step r s).1.calls.length ≤ r.calls.length := by
  have hl := step_calls_length h s
  have hb := step_booked r s
  generalize step r s = x at hb hl
  cases hb with
  | same _ _ hb _ =>
    have hrel : x.1.released = r.released := congrArg Books.released hb
    exact ⟨[], by simpa using hrel, by simpa using hl⟩
  | settled c e hc =>
    have := length_filter_number hc
    refine ⟨[e], (congrArg Books.released (settle_books r c e)).trans ?_, ?_⟩
    · simp [h]
    · rw [settle_calls, List.length_singleton]
      omega
  | filled c rows hc =>
    have := length_filter_number hc
    refine ⟨[r.entryOf rows], (congrArg Books.released (fill_books r c rows)).trans ?_, ?_⟩
    · simp [h]
    · rw [fill_eq, settle_calls, List.length_singleton]
      change 1 + (r.calls.filter _).length ≤ _
      omega
  | closed => exact ⟨[], by rw [close_of_closed h]; simp, by rw [close_of_closed h]; simp⟩

theorem run_again (h : r.closed = true) (steps : List Step) :
    ∃ again : List Entry,
      (run r steps).1.released = r.released ++ again.flatMap Entry.numbers ∧
        again.length + (run r steps).1.calls.length ≤ r.calls.length := by
  refine (collect_keeps (f := step) (P := fun r' _ => r'.closed = true ∧ ∃ again : List Entry,
    r'.released = r.released ++ again.flatMap Entry.numbers ∧
      again.length + r'.calls.length ≤ r.calls.length) (o := []) ?_ ⟨h, [], by simp⟩ steps).2
  rintro r' _ s ⟨hc, again, hr, hl⟩
  obtain ⟨more, hr', hl'⟩ := step_again hc s
  refine ⟨step_closed hc s, again ++ more, ?_, ?_⟩
  · rw [hr', hr, List.flatMap_append, List.append_assoc]
  · rw [List.length_append]
    omega

/-- The first close closes what is cached. After it, entries are closed by the calls that were in
flight then, one by each at most, and it may be the same entry. -/
theorem close_again (ttl : Option Duration) (before after : List Step) (h : .close ∉ before) :
    ∃ again : List Entry,
      (run (start ttl) (before ++ .close :: after)).1.released =
        (run (start ttl) before).1.cachedEntries.flatMap Entry.numbers ++
          again.flatMap Entry.numbers ∧
      again.length ≤ (run (start ttl) before).1.calls.length := by
  obtain ⟨hopen, hnone⟩ := open_before_close ttl h
  have hb := close_books (run (start ttl) before).1
  have hclosed : (close (run (start ttl) before).1).1.closed = true := congrArg Books.closed hb
  obtain ⟨again, hr, hl⟩ := run_again hclosed after
  refine ⟨again, ?_, ?_⟩
  · rw [run_append, run_cons]
    refine hr.trans (congrArg (· ++ _) ((congrArg Books.released hb).trans ?_))
    simp [hnone, hopen]
  · have hcalls : (close (run (start ttl) before).1).1.calls = (run (start ttl) before).1.calls := by
      simp only [close, hopen, Bool.false_eq_true, ↓reduceIte, foldl_release]
    rw [hcalls] at hl
    omega

/-- Two calls that share a slot close its webhook both. -/
example :
    (run (start none) [.begin 0 7, .begin 1 7, .close, .answer 0 (.ok [⟨7, "HTTP", .null⟩]),
      .wake 1]).1.released = [0, 0] := by
  rfl

end Uplink.Registry
