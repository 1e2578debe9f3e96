import Mathlib.Data.Set.Card
import Uplink.Proofs.Registry.Lines
import Uplink.Proofs.Registry.Steady
import Uplink.Proofs.Registry.TimedCache

namespace Uplink.Registry

open Integration Store Time

variable {r q : Registry} {a b : Int64} {k m n : Nat} {c : Call} {e e' : Entry} {s : Step}
  {cache : List (Int64 × Nat)} {before after steps : List Step} {ttl : Option Duration}

/-- The cache behind a step. -/
inductive Caching (r : Registry) : Step → List (Int64 × Nat) → Prop where
  | kept (s : Step) : Caching r s r.cache
  | opened (k : Nat) (a : Int64) (q : Registry) (cleared : Cleared r a q)
    (absent : ∀ n, (a, n) ∉ q.cache) : Caching r (.begin k a) (q.cache ++ [(a, r.slots.length)])
  | failed (c : Call) (x : StorageError) (inFlight : c ∈ r.calls) (loading : c.loading = true) :
    Caching r (.answer c.number (.error x)) (r.retire c.application c.slot).cache
  | invalidated (a : Int64) : Caching r (.invalidate a) (r.cache.filter (·.1 != a))
  | emptied (s : Step) (all : s = .invalidateAll ∨ s = .close) : Caching r s []

/-- Where it is closed, the registry has nothing cached that a call could take out. -/
theorem settle_cache_eq (h : r.closed = true → r.cache = []) (c : Call) (e : Entry) :
    (settle r c e).1.cache = r.cache := by
  unfold settle
  dsimp only
  split
  · next hc =>
    have hempty := h hc
    simp only [release, retire, dropCall, hempty, List.filter_nil]
  · rfl

theorem begin_caching (hk : Keyed r) (k : Nat) (a : Int64) :
    Caching r (.begin k a) (begin r k a).1.cache := by
  have hb := begin_began hk k a
  generalize begin r k a = x at hb
  cases hb with
  | refused | found => exact .kept _
  | joined =>
    rw [enter_cache]
    exact .kept _
  | opened q _ hcleared habsent =>
    have hlength : q.slots.length = r.slots.length := by rw [hcleared.same]
    rw [enter_cache, grown, hlength]
    exact .opened k a q hcleared habsent

theorem step_caching (hk : Keyed r) (h : r.closed = true → r.cache = []) (s : Step) :
    Caching r s (step r s).1.cache := by
  cases s with
  | begin k a => exact begin_caching hk k a
  | answer k found =>
    have hx := answer_answering r k found
    rw [step]
    generalize answer r k found = x at hx
    cases hx with
    | unasked => exact .kept _
    | fills c rows =>
      rw [fill_eq, settle_cache_eq (r := r.filledSlot c rows) h]
      exact .kept _
    | fails c x hc hl => exact .failed c x hc hl
  | wake k =>
    have hx := wake_waking r k
    rw [step]
    generalize wake r k = x at hx
    cases hx with
    | stays | loads => exact .kept _
    | settles c e =>
      rw [settle_cache_eq h]
      exact .kept _
  | invalidate a =>
    simp only [step, invalidate]
    split
    · exact .invalidated a
    · exact .kept _
  | invalidateAll => exact .emptied _ (.inl rfl)
  | close =>
    simp only [step, close]
    split
    · exact .kept _
    · exact .emptied _ (.inr rfl)
  | pass time => exact .kept _

/-- Why a slot of an application can leave the cache. -/
inductive Leaves (r : Registry) (a : Int64) (n : Nat) : Step → Prop where
  | expired (k : Nat) (e : Entry) (filled : (r.slotAt n).entry = some e)
    (stale : isExpired r.ttl r.now e = true) : Leaves r a n (.begin k a)
  /-- The lookup has failed that was to fill it. -/
  | failed (c : Call) (x : StorageError) (inFlight : c ∈ r.calls) (loading : c.loading = true)
    (own : c.application = a) (there : c.slot = n) : Leaves r a n (.answer c.number (.error x))
  | invalidated : Leaves r a n (.invalidate a)
  | allInvalidated : Leaves r a n .invalidateAll
  | closed : Leaves r a n .close

theorem Caching.leaves (h : Caching r s cache) (hm : (a, n) ∈ r.cache) (hn : (a, n) ∉ cache) :
    Leaves r a n s := by
  cases h with
  | kept => exact absurd hm hn
  | opened k b q hcleared =>
    rw [List.mem_append, not_or] at hn
    rcases hcleared with rfl | ⟨m, e, _, he, hx, rfl⟩
    · exact absurd hm hn.1
    · have hgone := hn.1
      rw [mem_retire, not_and_not_right] at hgone
      obtain ⟨rfl, rfl⟩ := hgone hm
      exact .expired k e he hx
  | failed c x hc hl =>
    rw [mem_retire, not_and_not_right] at hn
    obtain ⟨rfl, rfl⟩ := hn hm
    exact .failed c x hc hl rfl rfl
  | invalidated b =>
    rw [mem_filter_ne, not_and_not_right] at hn
    obtain rfl := hn hm
    exact .invalidated
  | emptied _ hall =>
    rcases hall with rfl | rfl
    · exact .allInvalidated
    · exact .closed

theorem Cleared.sublist (h : Cleared r a q) : q.cache.Sublist r.cache := by
  rcases h with rfl | ⟨n, e, -, -, -, rfl⟩
  · exact .refl _
  · exact List.filter_sublist

/-- No application gets a second slot in the cache. -/
theorem Caching.once (h : Caching r s cache) (hr : (r.cache.map Prod.fst).Nodup) :
    (cache.map Prod.fst).Nodup := by
  have fewer {xs : List (Int64 × Nat)} (hx : xs.Sublist r.cache) : (xs.map Prod.fst).Nodup :=
    hr.sublist (hx.map _)
  cases h with
  | kept => exact hr
  | opened k a q hcleared habsent =>
    rw [List.map_append, List.map_cons, List.map_nil, ← List.concat_eq_append]
    refine (fewer hcleared.sublist).concat fun hm => ?_
    obtain ⟨⟨b, n⟩, hbn, rfl⟩ := List.mem_map.mp hm
    exact habsent n hbn
  | failed | invalidated => exact fewer List.filter_sublist
  | emptied => exact List.nodup_nil

theorem run_once (ttl : Option Duration) (steps : List Step) :
    ((run (start ttl) steps).1.cache.map Prod.fst).Nodup := by
  induction steps using List.reverseRecOn with
  | nil => exact List.nodup_nil
  | append_singleton steps s ih =>
    rw [run_snoc]
    exact (step_caching (run_keyed ttl steps) (run_empty ttl steps) s).once ih

/-- Only the answer to a lookup that is out changes what stands in a slot. -/
theorem step_entry (hk : Keyed r) (s : Step) (n : Nat) :
    ((step r s).1.slotAt n).entry = (r.slotAt n).entry ∨
      ∃ c ∈ r.calls, c.slot = n ∧ c.loading = true := by
  cases s with
  | begin k a =>
    have hb := begin_began hk k a
    rw [step]
    generalize begin r k a = x at hb
    cases hb with
    | refused | found => exact .inl rfl
    | joined m => exact .inl (enter_entry r k a m n)
    | opened q _ hcleared =>
      left
      rw [enter_entry, grown_slotAt, hcleared.same]
      rfl
  | answer k found =>
    have hx := answer_answering r k found
    rw [step]
    generalize answer r k found = x at hx
    cases hx with
    | unasked => exact .inl rfl
    | fills c rows hc hl =>
      by_cases hn : n = c.slot
      · exact .inr ⟨c, hc, hn.symm, hl⟩
      · exact .inl (by rw [fill_slotAt_of_ne hn])
    | fails c x hc hl =>
      by_cases hn : n = c.slot
      · exact .inr ⟨c, hc, hn.symm, hl⟩
      · exact .inl (by rw [fail_slotAt_of_ne hn])
  | wake k =>
    have hx := wake_waking r k
    rw [step]
    generalize wake r k = x at hx
    cases hx with
    | stays | loads => exact .inl rfl
    | settles c e => exact .inl (by rw [settle_slotAt])
  | invalidate a =>
    simp only [step, invalidate]
    split <;> exact .inl rfl
  | invalidateAll => exact .inl rfl
  | close =>
    simp only [step, close]
    split
    · exact .inl rfl
    · rw [foldl_release]
      exact .inl rfl
  | pass time => exact .inl rfl

/-- No lookup is out for a filled slot. -/
theorem Lined.not_loading (h : Lined r) (he : (r.slotAt n).entry = some e) (hc : c ∈ r.calls)
    (hs : c.slot = n) : c.loading = false := by
  cases hl : c.loading with
  | false => rfl
  | true =>
    rw [← hs, (h.loader c hc hl).1] at he
    cases he

/-- A filled slot stays as it is. -/
theorem Lined.step_filled (h : Lined r) (hk : Keyed r) (he : (r.slotAt n).entry = some e)
    (s : Step) : ((step r s).1.slotAt n).entry = some e := by
  rcases step_entry hk s n with hs | ⟨c, hc, hs, hl⟩
  · rw [hs, he]
  · rw [h.not_loading he hc hs] at hl
    cases hl

theorem run_filled (hd : Distinct (before ++ after))
    (he : ((run (start ttl) before).1.slotAt n).entry = some e) :
    ((run (run (start ttl) before).1 after).1.slotAt n).entry = some e := by
  induction after using List.reverseRecOn with
  | nil => exact he
  | append_singleton after s ih =>
    rw [← List.append_assoc] at hd
    have hlined := run_lined ttl hd.append_left
    have hkeyed := run_keyed ttl (before ++ after)
    rw [run_append] at hlined hkeyed
    rw [run_snoc]
    exact hlined.step_filled hkeyed (ih hd.append_left) s

/-- Whatever a call returns from a filled slot is what stands there. -/
theorem Lined.returned_filled (h : Lined r) (hsound : Sound r s) (hm : (a, n) ∈ r.cache)
    (he : (r.slotAt n).entry = some e) (hr : .returned k (.ok e') ∈ (step r s).2)
    (hcall : s = .begin k a ∨ ∃ c ∈ r.calls, c.number = k ∧ c.slot = n) : e' = e := by
  rcases ((step_evolves r s).returned k e' hr).2 with ⟨b, m, rfl, hbm, he'⟩ | ⟨d, hd, rfl, hfound⟩
  · rcases hcall with hs | ⟨c, hc, rfl, -⟩
    · cases hs
      rw [hsound.keyed a m n hbm hm, he, Option.some.injEq] at he'
      exact he'.symm
    · exact absurd (List.mem_map_of_mem hc) (hsound.fresh c.number rfl)
  · rcases hcall with rfl | ⟨c, hc, hnumber, rfl⟩
    · exact absurd (List.mem_map_of_mem hd) (hsound.fresh d.number rfl)
    · obtain rfl := List.inj_on_of_nodup_map hsound.numbers hc hd hnumber
      rcases hfound with he' | ⟨hl, -⟩
      · rw [he, Option.some.injEq] at he'
        exact he'.symm
      · rw [h.not_loading he hc rfl] at hl
        cases hl

/-- A slot of an application is filled, or a call for it is in flight that is to fill it. -/
def Alive (r : Registry) (a : Int64) (n : Nat) : Prop :=
  (∃ e, (r.slotAt n).entry = some e) ∨
    ∃ c ∈ r.calls, c.application = a ∧ c.slot = n ∧ (r.slotAt n).holder = some c.number

theorem Attended.alive (h : Attended r) (ht : Tenancy r) (hm : (a, n) ∈ r.cache) :
    Alive r a n := by
  cases he : (r.slotAt n).entry with
  | some e => exact .inl ⟨e, he⟩
  | none =>
    obtain ⟨c, hc, rfl, hholder⟩ := h a n hm he
    exact .inr ⟨c, hc, ht.unique _ _ _ (holds_of_call hc) (.inl hm), rfl, hholder⟩

theorem cachedEntry?_of_mem (ho : (r.cache.map Prod.fst).Nodup) (hm : (a, n) ∈ r.cache) :
    r.cachedEntry? a = (r.slotAt n).entry := by
  unfold cachedEntry?
  rw [lookup_of_mem ho hm, Option.bind_some]

/-- Where every cached slot is filled, as many applications are counted as have an entry. -/
theorem ncard_cachedEntry (ho : (r.cache.map Prod.fst).Nodup)
    (hfilled : ∀ a n, (a, n) ∈ r.cache → ∃ e, (r.slotAt n).entry = some e) :
    {a | ∃ e, r.cachedEntry? a = some e}.ncard = r.cachedApplications := by
  have heq : {a | ∃ e, r.cachedEntry? a = some e} = ↑(r.cache.map Prod.fst).toFinset := by
    ext a
    rw [Set.mem_ofPred_eq, Finset.mem_coe, List.mem_toFinset]
    constructor
    · intro h
      obtain ⟨e, he⟩ := h
      obtain ⟨n, hn, -⟩ := Option.bind_eq_some_iff.mp he
      exact List.mem_map_of_mem (mem_of_lookup hn)
    · intro hm
      obtain ⟨⟨a, n⟩, hcached, rfl⟩ := List.mem_map.mp hm
      rw [cachedEntry?_of_mem ho hcached]
      exact hfilled a n hcached
  rw [heq, Set.ncard_coe_finset, List.toFinset_card_of_nodup ho, List.length_map,
    cachedApplications]

/-- No slot in the cache is dead: it is filled or a call in flight is to fill it. It leaves when it
is dropped, or when it is its own entry that has expired or its own lookup that has failed, and
what it is filled with once is what calls return from it. With no call in flight, all that is
counted as cached is loaded. -/
theorem no_dead_slot (ttl : Option Duration) (before after : List Step)
    (hd : Distinct (before ++ after)) :
    let r := (run (start ttl) before).1
    let r' := (run r after).1
    (∀ a n, (a, n) ∈ r.cache → Alive r a n) ∧
      (∀ a n b m, (b, m) ∈ (r.retire a n).cache ↔ (b, m) ∈ r.cache ∧ ¬(b = a ∧ m = n)) ∧
      (∀ s a n, (a, n) ∈ r.cache → (a, n) ∉ (step r s).1.cache → Leaves r a n s) ∧
      (∀ n e, (r.slotAt n).entry = some e →
        (r'.slotAt n).entry = some e ∧ ∀ c ∈ r.calls, c.slot = n → c.loading = false) ∧
      (∀ a n e, (a, n) ∈ r.cache → (a, n) ∈ r'.cache → r.cachedEntry? a = some e →
        cachedEntry? r' a = some e) ∧
      (∀ s, Distinct (before ++ [s]) → ∀ a n e, (a, n) ∈ r.cache → (r.slotAt n).entry = some e →
        ∀ k e', .returned k (.ok e') ∈ (step r s).2 →
          (s = .begin k a ∨ ∃ c ∈ r.calls, c.number = k ∧ c.slot = n) → e' = e) ∧
      (r.calls = [] → {a | ∃ e, r.cachedEntry? a = some e}.ncard = r.cachedApplications) := by
  intro r r'
  have hbefore := hd.append_left
  have hkeyed : Keyed r := run_keyed ttl before
  have hlined : Lined r := run_lined ttl hbefore
  have halive : ∀ a n, (a, n) ∈ r.cache → Alive r a n := fun a n hm =>
    (run_attended ttl hbefore).alive (run_tenancy (start_tenancy ttl) before) hm
  have honce : (r.cache.map Prod.fst).Nodup := run_once ttl before
  have honce' : (r'.cache.map Prod.fst).Nodup := by
    have h := run_once ttl (before ++ after)
    rwa [run_append] at h
  refine ⟨halive, fun _ _ _ _ => mem_retire, ?_, ?_, ?_, ?_, ?_⟩
  · intro s a n hm hn
    exact (step_caching hkeyed (run_empty ttl before) s).leaves hm hn
  · intro n e he
    exact ⟨run_filled hd he, fun c hc hs => hlined.not_loading he hc hs⟩
  · intro a n e hm hm' he
    rw [cachedEntry?_of_mem honce hm] at he
    rw [cachedEntry?_of_mem honce' hm']
    exact run_filled hd he
  · intro s hs a n e hm he k e' hr hcall
    exact hlined.returned_filled (run_sound ttl hs) hm he hr hcall
  · intro hidle
    refine ncard_cachedEntry honce fun a n hm => (halive a n hm).resolve_right ?_
    rintro ⟨c, hc, -⟩
    rw [hidle] at hc
    cases hc

/-- A lookup fails while another call waits for it, and a third call opens a slot anew. -/
def reopened : List Step :=
  [.begin 0 7, .begin 1 7, .answer 0 (.error (.unavailable "down")), .begin 2 7, .wake 1,
    .answer 2 (.ok [])]

/-- The call that waited fills the slot that has left the cache, and nothing comes of it there. -/
def refilled : List Step := [.answer 1 (.ok []), .begin 3 7]

theorem no_dead_slot_reopened :
    let r := (run (start none) reopened).1
    let r' := (run r refilled).1
    Distinct (reopened ++ refilled) ∧ r.cache = [(7, 1)] ∧ Alive r 7 1 ∧
      cachedEntry? r' 7 = some ⟨0, [], [], ⟨0⟩⟩ := by
  intro r r'
  have hd : Distinct (reopened ++ refilled) := by decide
  have hcache : r.cache = [(7, 1)] := rfl
  have hm : (7, 1) ∈ r.cache := List.mem_singleton_self _
  have hm' : (7, 1) ∈ r'.cache := List.mem_singleton_self _
  obtain ⟨halive, -, -, -, hkept, -⟩ := no_dead_slot none reopened refilled hd
  exact ⟨hd, hcache, halive 7 1 hm, hkept 7 1 _ hm hm' rfl⟩

end Uplink.Registry
