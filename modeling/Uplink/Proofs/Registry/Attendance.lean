import Uplink.Proofs.Registry.Provenance

namespace Uplink.Registry

open Integration Store Time

variable {r r' : Registry} {a b : Int64} {k m n : Nat} {c d : Call} {e : Entry} {s : Step}
  {steps : List Step} {ttl : Option Duration}

/-- An application has at most one slot in the cache. -/
def Keyed (r : Registry) : Prop := ∀ a m n, (a, m) ∈ r.cache → (a, n) ∈ r.cache → m = n

theorem Keyed.of_fewer (h : Keyed r) (hc : ∀ x ∈ r'.cache, x ∈ r.cache) : Keyed r' :=
  fun a m n hm hn => h a m n (hc _ hm) (hc _ hn)

theorem not_cached_of_lookup (h : r.cache.lookup a = none) : (a, n) ∉ r.cache :=
  fun hm => lookup_none_iff.mp h (List.mem_map_of_mem hm)

theorem lookup_of_not_cached (h : ∀ n, (a, n) ∉ r.cache) : r.cache.lookup a = none := by
  cases hl : r.cache.lookup a with
  | none => rfl
  | some n => exact absurd (mem_of_lookup hl) (h n)

/-- The registry with a new slot for an application. -/
def grown (r : Registry) (a : Int64) : Registry :=
  { r with cache := r.cache ++ [(a, r.slots.length)], slots := r.slots ++ [.fresh] }

@[simp] theorem grown_length (r : Registry) (a : Int64) :
    (r.grown a).slots.length = r.slots.length + 1 := by
  simp [grown]

@[simp] theorem grown_slotAt (r : Registry) (a : Int64) (n : Nat) :
    (r.grown a).slotAt n = r.slotAt n :=
  slotAt_snoc r _ n

theorem mem_grown : (b, n) ∈ (r.grown a).cache ↔ (b, n) ∈ r.cache ∨ b = a ∧ n = r.slots.length := by
  simp only [grown, List.mem_append, List.mem_singleton, Prod.mk.injEq]

/-- The registry in which an application has no good entry any more: the one that it had, if any,
has expired and been taken out of the cache. -/
def Cleared (r : Registry) (a : Int64) (q : Registry) : Prop :=
  q = r ∨ ∃ n e, (a, n) ∈ r.cache ∧ (r.slotAt n).entry = some e ∧
    isExpired r.ttl r.now e = true ∧ q = r.retire a n

theorem Cleared.same {q : Registry} (h : Cleared r a q) : q = { r with cache := q.cache } := by
  rcases h with rfl | ⟨n, e, _, _, _, rfl⟩ <;> rfl

/-- The ways in which a call can begin. -/
inductive Began (r : Registry) (k : Nat) (a : Int64) : Outcome → Prop where
  | refused (closed : r.closed = true) : Began r k a (r, [.returned k (.error .closed)])
  | found (n : Nat) (e : Entry) (isOpen : r.closed = false) (cached : (a, n) ∈ r.cache)
      (entry : (r.slotAt n).entry = some e) (good : isExpired r.ttl r.now e = false) :
      Began r k a ({ r with stats := { r.stats with hits := r.stats.hits + 1 } },
        [.counted .hit, .returned k (.ok e)])
  | joined (n : Nat) (isOpen : r.closed = false) (cached : (a, n) ∈ r.cache)
      (empty : (r.slotAt n).entry = none) : Began r k a (enter r k a n)
  /-- A new slot is opened. -/
  | opened (q : Registry) (isOpen : r.closed = false) (cleared : Cleared r a q)
      (absent : ∀ n, (a, n) ∉ q.cache) : Began r k a (enter (q.grown a) k a r.slots.length)

/-- A slot that has just been made has no entry, so a call enters it. -/
theorem begin_of_absent (ho : r.closed = false) (h : r.cache.lookup a = none) (k : Nat) :
    begin r k a = enter (r.grown a) k a r.slots.length := by
  have hs : ((r.grown a).slotAt r.slots.length).entry = none := by
    rw [grown_slotAt, slotAt_of_length_le (Nat.le_refl _)]
    rfl
  unfold begin
  rw [if_neg (by simp [ho]), obtain_of_none h]
  dsimp only
  split
  · rename_i heq
    cases hs.symm.trans heq
  · rfl

/-- A call enters the slot of its application while that is not filled. -/
theorem begin_of_empty (ho : r.closed = false) (h : r.cache.lookup a = some n)
    (he : (r.slotAt n).entry = none) (k : Nat) : begin r k a = enter r k a n := by
  simp [begin, ho, obtain_of_some h, he]

/-- A call returns a good entry at once. -/
theorem begin_of_good (ho : r.closed = false) (h : r.cache.lookup a = some n)
    (he : (r.slotAt n).entry = some e) (hx : isExpired r.ttl r.now e = false) (k : Nat) :
    begin r k a = ({ r with stats := { r.stats with hits := r.stats.hits + 1 } },
      [.counted .hit, .returned k (.ok e)]) := by
  simp [begin, ho, obtain_of_some h, he, hx]

/-- Once its slot is out of the cache, an application has none there. -/
theorem retire_absent (hk : Keyed r) (h : (a, n) ∈ r.cache) (m : Nat) :
    (a, m) ∉ (r.retire a n).cache := by
  intro hm
  obtain ⟨hm, hne⟩ := mem_retire.mp hm
  exact hne ⟨rfl, hk a m n hm h⟩

/-- A call that finds an expired entry enters a new slot. -/
theorem begin_of_stale (hk : Keyed r) (ho : r.closed = false) (h : r.cache.lookup a = some n)
    (he : (r.slotAt n).entry = some e) (hx : isExpired r.ttl r.now e = true) (k : Nat) :
    begin r k a = enter ((r.retire a n).grown a) k a r.slots.length := by
  have hn := obtain_of_none (lookup_of_not_cached (retire_absent hk (mem_of_lookup h)))
  simp only [begin, ho, obtain_of_some h, he, hx, hn, Bool.false_eq_true, if_false, if_true]
  rfl

theorem begin_began (hk : Keyed r) (k : Nat) (a : Int64) : Began r k a (begin r k a) := by
  cases ho : r.closed with
  | true =>
    have hb : begin r k a = (r, [.returned k (.error .closed)]) := by simp [begin, ho]
    rw [hb]
    exact .refused ho
  | false =>
    cases hl : r.cache.lookup a with
    | none =>
      rw [begin_of_absent ho hl]
      exact .opened r ho (.inl rfl) (fun n => not_cached_of_lookup hl)
    | some n =>
      have hm := mem_of_lookup hl
      cases he : (r.slotAt n).entry with
      | none =>
        rw [begin_of_empty ho hl he]
        exact .joined n ho hm he
      | some e =>
        cases hx : isExpired r.ttl r.now e with
        | false =>
          rw [begin_of_good ho hl he hx]
          exact .found n e ho hm he hx
        | true =>
          rw [begin_of_stale hk ho hl he hx]
          exact .opened _ ho (.inr ⟨n, e, hm, he, hx, rfl⟩) (retire_absent hk hm)

theorem enter_cache (r : Registry) (k : Nat) (a : Int64) (n : Nat) :
    (enter r k a n).1.cache = r.cache := by
  unfold enter
  dsimp only
  split <;> rfl

theorem enter_entry (r : Registry) (k : Nat) (a : Int64) (n m : Nat) :
    ((enter r k a n).1.slotAt m).entry = (r.slotAt m).entry := by
  unfold enter
  dsimp only
  split <;> exact entry_setSlot (by rfl) m

theorem step_keyed (h : Keyed r) (s : Step) : Keyed (step r s).1 := by
  by_cases hs : ∃ k a, s = .begin k a
  · obtain ⟨k, a, rfl⟩ := hs
    have hb := begin_began h k a
    change Keyed (begin r k a).1
    generalize begin r k a = x at hb
    cases hb with
    | refused => exact h
    | found => exact h
    | joined n => exact h.of_fewer (by simp [enter_cache])
    | opened q _ hc habs =>
      have hq : Keyed q := by
        rcases hc with rfl | ⟨n, e, _, _, _, rfl⟩
        · exact h
        · exact h.of_fewer fun x hx => (mem_retire.mp hx).1
      intro b m n hm hn
      rw [enter_cache] at hm hn
      rcases mem_grown.mp hm with hm | ⟨hb, hm⟩ <;> rcases mem_grown.mp hn with hn | ⟨hb', hn⟩
      · exact hq b m n hm hn
      · exact absurd (hb' ▸ hm) (habs m)
      · exact absurd (hb ▸ hn) (habs n)
      · exact hm.trans hn.symm
  · refine h.of_fewer fun x hx => ?_
    rcases (step_evolves r s).cached x.1 x.2 hx with hm | ⟨_, _, k, hk⟩
    · exact hm
    · exact absurd ⟨k, x.1, hk⟩ hs

theorem run_keyed (ttl : Option Duration) (steps : List Step) : Keyed (run (start ttl) steps).1 :=
  collect_keeps (f := step) (P := fun r _ => Keyed r) (o := []) (fun _ _ s h => step_keyed h s)
    (by simp [Keyed, start]) steps

theorem enter_of_free (h : (r.slotAt n).holder = none) (k : Nat) (a : Int64) :
    enter r k a n =
      load (r.setSlot n { r.slotAt n with holder := some k }) ⟨k, a, n, false⟩ := by
  simp only [enter, h]

/-- A call that enters a slot in the hands of another waits there, and nothing else happens. -/
theorem enter_of_held {j : Nat} (h : (r.slotAt n).holder = some j) (k : Nat) (a : Int64) :
    (enter r k a n).2 = [] ∧ (enter r k a n).1.calls = r.calls ++ [⟨k, a, n, false⟩] ∧
      ∀ m, ((enter r k a n).1.slotAt m).entry = (r.slotAt m).entry ∧
        ((enter r k a n).1.slotAt m).holder = (r.slotAt m).holder := by
  simp only [enter, h, true_and]
  intro m
  change ((r.setSlot n _).slotAt m).entry = _ ∧ ((r.setSlot n _).slotAt m).holder = _
  rw [slotAt_setSlot]
  split
  · rename_i hm
    rw [hm.1]
    exact ⟨rfl, h.symm⟩
  · exact ⟨rfl, rfl⟩

/-- Every empty slot in the cache is in the hands of a call in flight. -/
def Attended (r : Registry) : Prop :=
  ∀ a n, (a, n) ∈ r.cache → (r.slotAt n).entry = none →
    ∃ c ∈ r.calls, c.slot = n ∧ (r.slotAt n).holder = some c.number

theorem Attended.of_fewer (h : Attended r) (hc : ∀ x ∈ r'.cache, x ∈ r.cache)
    (hs : ∀ n, r'.slotAt n = r.slotAt n) (hk : ∀ c ∈ r.calls, c ∈ r'.calls) : Attended r' := by
  intro a n hm he
  rw [hs] at he ⊢
  obtain ⟨c, hc', hn, hh⟩ := h a n (hc _ hm) he
  exact ⟨c, hk c hc', hn, hh⟩

/-- A call in another slot is another call. -/
theorem number_ne_of_slot_ne (hn : (r.calls.map (·.number)).Nodup) (hc : c ∈ r.calls)
    (hd : d ∈ r.calls) (hs : d.slot ≠ c.slot) : d.number ≠ c.number := by
  intro he
  exact hs (congrArg Call.slot (List.inj_on_of_nodup_map hn hd hc he))

/-- A call may leave when it leaves no empty slot of its own in the cache. -/
theorem Attended.dropped (h : Attended r) (hn : (r.calls.map (·.number)).Nodup) (hc : c ∈ r.calls)
    (hcache : ∀ x ∈ r'.cache, x ∈ r.cache)
    (hs : ∀ n, n ≠ c.slot → r'.slotAt n = r.slotAt n)
    (hk : r'.calls = r.calls.filter (·.number != c.number))
    (hown : ∀ b, (b, c.slot) ∈ r'.cache → (r'.slotAt c.slot).entry ≠ none) : Attended r' := by
  intro b n hm he
  have hne : n ≠ c.slot := fun h => hown b (h ▸ hm) (h ▸ he)
  rw [hs n hne] at he ⊢
  obtain ⟨d, hd, hds, hh⟩ := h b n (hcache _ hm) he
  refine ⟨d, ?_, hds, hh⟩
  rw [hk, List.mem_filter, bne_iff_ne]
  exact ⟨hd, number_ne_of_slot_ne hn hc hd (hds ▸ hne)⟩

theorem begin_attended (hk : Keyed r) (ht : Tenancy r) (h : Attended r) (a : Int64)
    (hf : k ∉ r.calls.map (·.number)) : Attended (begin r k a).1 := by
  have hb := begin_began hk k a
  generalize begin r k a = x at hb
  cases hb with
  | refused => exact h
  | found => exact h.of_fewer (fun _ hx => hx) (fun _ => rfl) (fun _ hc => hc)
  | joined n _ hm he =>
    obtain ⟨c, hc, hs, hh⟩ := h a n hm he
    obtain ⟨-, hcalls, hslots⟩ := enter_of_held hh k a
    intro b m hbm hbe
    rw [enter_cache] at hbm
    rw [(hslots m).1] at hbe
    rw [(hslots m).2, hcalls]
    obtain ⟨d, hd, hds, hdh⟩ := h b m hbm hbe
    exact ⟨d, List.mem_append_left _ hd, hds, hdh⟩
  | opened q _ hc habs =>
    have hsame := hc.same
    have hlen : q.slots.length = r.slots.length := by rw [hsame]
    have hcalls : q.calls = r.calls := by rw [hsame]
    have hslots : ∀ n, q.slotAt n = r.slotAt n := fun n => by rw [hsame]; rfl
    have hfewer : ∀ x ∈ q.cache, x ∈ r.cache := by
      rcases hc with rfl | ⟨n, e, _, _, _, rfl⟩
      · exact fun x hx => hx
      · exact fun x hx => (mem_retire.mp hx).1
    have hnew : (q.grown a).slotAt r.slots.length = .fresh := by
      rw [grown_slotAt, slotAt_of_length_le (Nat.le_of_eq hlen)]
    rw [enter_of_free (by rw [hnew]; rfl)]
    intro b m hbm hbe
    change ((Registry.setSlot _ _ _).slotAt m).entry = none at hbe
    change ∃ c ∈ List.filter _ q.calls ++ [⟨k, a, r.slots.length, true⟩],
      c.slot = m ∧ ((Registry.setSlot _ _ _).slotAt m).holder = some c.number
    rw [slotAt_setSlot] at hbe ⊢
    have hbound : r.slots.length < (q.grown a).slots.length := by simp [hlen]
    rcases mem_grown.mp hbm with hbm | ⟨_, hm⟩
    · have hlt := ht.bound b m (.inl (hfewer _ hbm))
      rw [if_neg (by omega), grown_slotAt, hslots] at hbe ⊢
      obtain ⟨d, hd, hds, hdh⟩ := h b m (hfewer _ hbm) hbe
      refine ⟨d, List.mem_append_left _ ?_, hds, hdh⟩
      rw [hcalls, filter_number_eq_self hf]
      exact hd
    · rw [hlen] at hm
      refine ⟨⟨k, a, r.slots.length, true⟩, by simp, hm.symm, ?_⟩
      rw [if_pos ⟨hm, hbound⟩]

theorem settle_attended (h : Attended r) (hn : (r.calls.map (·.number)).Nodup) (hc : c ∈ r.calls)
    (he : (r.slotAt c.slot).entry = some e) : Attended (settle r c e).1 := by
  refine h.dropped hn hc (fun x hx => settle_cache hx) (fun n _ => settle_slotAt r c e n)
    (settle_calls r c e) ?_
  intro b _
  rw [settle_slotAt, he]
  exact Option.some_ne_none e

theorem fill_attended (ht : Tenancy r) (h : Attended r) (hn : (r.calls.map (·.number)).Nodup)
    (hc : c ∈ r.calls) (rows : List Store.Integration) : Attended (fill r c rows).1 := by
  have hb := ht.bound _ _ (holds_of_call hc)
  refine h.dropped hn hc (fun x hx => settle_cache (r := r.filledSlot c rows) hx)
    (fun n hne => fill_slotAt_of_ne hne rows) (fill_calls r c rows) ?_
  intro b _
  rw [fill_entry hb]
  exact Option.some_ne_none _

theorem fail_attended (ht : Tenancy r) (h : Attended r) (hn : (r.calls.map (·.number)).Nodup)
    (hc : c ∈ r.calls) (x : StorageError) : Attended (fail r c x).1 := by
  refine h.dropped hn hc (fun y hy => (mem_retire.mp hy).1)
    (fun n hne => fail_slotAt_of_ne hne x) rfl ?_
  intro b hm
  -- a slot has one application, and of that one it has just been taken
  obtain ⟨hm, hne⟩ := mem_retire.mp hm
  exact absurd ⟨ht.unique b _ _ (.inl hm) (holds_of_call hc), rfl⟩ hne

theorem load_attended (h : Attended r) (hn : (r.calls.map (·.number)).Nodup) (hc : c ∈ r.calls) :
    Attended (load r c).1 := by
  intro b n hm he
  obtain ⟨d, hd, hds, hh⟩ := h b n hm he
  change ∃ d ∈ r.calls.filter (·.number != c.number) ++ [{ c with loading := true }],
    d.slot = n ∧ (r.slotAt n).holder = some d.number
  by_cases hdc : d.number = c.number
  · have hsame : d = c := List.inj_on_of_nodup_map hn hd hc hdc
    rw [hsame] at hds hh
    exact ⟨{ c with loading := true }, by simp, hds, hh⟩
  · exact ⟨d, List.mem_append_left _ (List.mem_filter.mpr ⟨hd, by simpa using hdc⟩), hds, hh⟩

theorem answer_attended (ht : Tenancy r) (h : Attended r) (hn : (r.calls.map (·.number)).Nodup)
    (k : Nat) (found : Lookup) : Attended (answer r k found).1 := by
  have hx := answer_answering r k found
  generalize answer r k found = x at hx ⊢
  cases hx with
  | unasked => exact h
  | fills c rows hm => exact fill_attended ht h hn hm rows
  | fails c x hm => exact fail_attended ht h hn hm x

theorem wake_attended (h : Attended r) (hn : (r.calls.map (·.number)).Nodup) (k : Nat) :
    Attended (wake r k).1 := by
  have hx := wake_waking r k
  generalize wake r k = x at hx ⊢
  cases hx with
  | stays => exact h
  | settles c e hm _ he => exact settle_attended h hn hm he
  | loads c hm => exact load_attended h hn hm

theorem step_attended (hk : Keyed r) (ht : Tenancy r) (hn : (r.calls.map (·.number)).Nodup)
    (hf : ∀ k, s.begun? = some k → k ∉ r.calls.map (·.number)) (h : Attended r) :
    Attended (step r s).1 := by
  cases s with
  | begin k a => exact begin_attended hk ht h a (hf k rfl)
  | answer k found => exact answer_attended ht h hn k found
  | wake k => exact wake_attended h hn k
  | invalidate a =>
    simp only [step, invalidate]
    split
    · exact h.of_fewer (fun _ hx => (List.mem_filter.mp hx).1) (fun _ => rfl) (fun _ hc => hc)
    · exact h
  | invalidateAll => exact fun _ _ hm => absurd hm List.not_mem_nil
  | close =>
    simp only [step, close]
    split
    · exact h
    · exact fun _ _ hm => absurd hm List.not_mem_nil
  | pass time => exact h

/-- Whatever happened, every empty slot in the cache has a call in flight that is to fill it. -/
theorem run_attended (ttl : Option Duration) (hd : Distinct steps) :
    Attended (run (start ttl) steps).1 := by
  induction steps using List.reverseRecOn with
  | nil => exact fun _ _ hm => absurd hm List.not_mem_nil
  | append_singleton steps s ih =>
    have hn := run_numbered ttl hd.append_left
    rw [run_snoc]
    exact step_attended (run_keyed ttl steps) (run_tenancy (start_tenancy ttl) steps)
      (hn.calls_nodup hd.append_left) (hn.fresh hd) (ih hd.append_left)

end Uplink.Registry
