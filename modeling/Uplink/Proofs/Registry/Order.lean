import Uplink.Proofs.Registry.Lines

namespace Uplink.Registry

open Integration Store Time

variable {r r' q : Registry} {a : Int64} {j k m n : Nat} {c : Call} {e : Entry} {s : Step}
  {calls : List Call} {steps : List Step} {ttl : Option Duration} {found : Lookup}
  {answers : List (Nat × Lookup)}

/-- The calls in a slot, in order. -/
def tenants (n : Nat) (calls : List Call) : List Call := calls.filter (·.slot == n)

theorem within_eq (n : Nat) (calls : List Call) :
    within n calls = (tenants n calls).map (·.number) := rfl

theorem tenants_other (h : c.slot ≠ n) (calls : List Call) :
    tenants n (calls ++ [c]) = tenants n calls := by
  simp [tenants, h]

/-- A call that leaves is missed in its own slot only. -/
theorem tenants_drop (hn : (calls.map (·.number)).Nodup) (hc : c ∈ calls) (h : c.slot ≠ n) :
    tenants n (calls.filter (·.number != c.number)) = tenants n calls := by
  rw [tenants, tenants, List.filter_filter]
  apply List.filter_congr
  intro b hb
  by_cases hs : b.slot = n
  · have hne : b.number ≠ c.number := by
      intro he
      have hbc := List.inj_on_of_nodup_map hn hb hc he
      rw [hbc] at hs
      exact h hs
    simp [hs, hne]
  · simp [hs]

/-- While a slot is empty, its calls stand in line as they came, and its holder's lookup is out. -/
def InTurn (r : Registry) (n : Nat) : Prop :=
  (r.slotAt n).entry = none → within n r.calls = (r.slotAt n).line ∧
    ∀ c ∈ tenants n r.calls, (r.slotAt n).holder = some c.number → c.loading = true

theorem InTurn.of_same (h : InTurn r n) (hs : r'.slotAt n = r.slotAt n)
    (hc : tenants n r'.calls = tenants n r.calls) : InTurn r' n := by
  rw [InTurn, within_eq] at h ⊢
  rw [hs, hc]
  exact h

/-- The calls of every slot in the cache stand in line as they came. -/
def Queued (r : Registry) : Prop := ∀ a n, (a, n) ∈ r.cache → InTurn r n

theorem Queued.of_same (h : Queued r) (hcache : ∀ x ∈ r'.cache, x ∈ r.cache)
    (hs : ∀ n, r'.slotAt n = r.slotAt n) (hc : r'.calls = r.calls) : Queued r' := by
  intro a n hm
  exact (h a n (hcache _ hm)).of_same (hs n) (by rw [hc])

theorem enter_calls (hf : k ∉ r.calls.map (·.number)) (a : Int64) :
    (enter r k a n).1.calls = r.calls ++ [⟨k, a, n, (r.slotAt n).holder.isNone⟩] := by
  cases hh : (r.slotAt n).holder with
  | none =>
    rw [enter_of_free hh]
    change r.calls.filter (·.number != k) ++ [⟨k, a, n, true⟩] = _
    rw [filter_number_eq_self hf]
    rfl
  | some i => simp only [enter, hh, Option.isNone_some]

theorem enter_slot (hb : n < r.slots.length) (k : Nat) (a : Int64) :
    ((enter r k a n).1.slotAt n).holder = (r.slotAt n).holder.or (some k) ∧
      ((enter r k a n).1.slotAt n).queue =
        (r.slotAt n).queue ++ if (r.slotAt n).holder.isNone then [] else [k] := by
  have hslot : ∀ x, (r.setSlot n x).slotAt n = x := by
    intro x
    rw [slotAt_setSlot, if_pos ⟨rfl, hb⟩]
  cases hh : (r.slotAt n).holder with
  | none =>
    rw [enter_of_free hh]
    change ((r.setSlot n _).slotAt n).holder = _ ∧ ((r.setSlot n _).slotAt n).queue = _
    rw [hslot]
    exact ⟨rfl, (List.append_nil _).symm⟩
  | some i =>
    simp only [enter, hh]
    change ((r.setSlot n _).slotAt n).holder = _ ∧ ((r.setSlot n _).slotAt n).queue = _
    rw [hslot]
    exact ⟨rfl, rfl⟩

theorem enter_elsewhere (h : m ≠ n) (k : Nat) (a : Int64) :
    (enter r k a n).1.slotAt m = r.slotAt m := by
  have hslot : ∀ x, (r.setSlot n x).slotAt m = r.slotAt m := by
    intro x
    rw [slotAt_setSlot, if_neg]
    intro hm
    exact h hm.1
  cases hh : (r.slotAt n).holder with
  | none =>
    rw [enter_of_free hh]
    exact hslot _
  | some i =>
    simp only [enter, hh]
    exact hslot _

/-- A call that enters an empty slot comes last in its line, and where it comes first it looks up.
-/
theorem enter_inTurn (h : InTurn r n) (hb : n < r.slots.length)
    (hf : k ∉ r.calls.map (·.number)) (he : (r.slotAt n).entry = none)
    (hfree : (r.slotAt n).holder = none → (r.slotAt n).queue = []) (a : Int64) :
    InTurn (enter r k a n).1 n := by
  obtain ⟨hline, hfirst⟩ := h he
  obtain ⟨hholder, hqueue⟩ := enter_slot hb k a
  have hnumber : ∀ c ∈ tenants n r.calls, c.number ≠ k := by
    rintro c hc rfl
    exact hf (List.mem_map_of_mem (List.mem_of_mem_filter hc))
  intro _
  rw [enter_calls hf, within_append, hline, Slot.line, Slot.line, hholder, hqueue, tenants,
    List.filter_append, ← tenants]
  cases hh : (r.slotAt n).holder with
  | none =>
    rw [Slot.line, hh, hfree hh] at hline
    have hnobody : tenants n r.calls = [] := List.map_eq_nil_iff.mp hline
    constructor
    · simp [within, hfree hh]
    · intro c hc _
      rw [hnobody] at hc
      simp at hc
      rw [hc]
  | some i =>
    constructor
    · simp [within]
    · intro c hc hnumbered
      rcases List.mem_append.mp hc with hc | hc
      · exact hfirst c hc (hh.trans hnumbered)
      · -- the holder was there before, and the call that enters was not
        have hin : i ∈ within n r.calls := by
          rw [hline, Slot.line, hh]
          exact List.mem_cons_self
        obtain ⟨b, hb, rfl⟩ := List.mem_map.mp hin
        have hc := List.mem_singleton.mp (List.mem_of_mem_filter hc)
        rw [hc] at hnumbered
        exact absurd (Option.some.inj hnumbered) (hnumber b hb)

theorem enter_queued (h : ∀ b m, (b, m) ∈ r.cache → m ≠ n → InTurn r m) (hown : InTurn r n)
    (hb : n < r.slots.length) (hf : k ∉ r.calls.map (·.number))
    (he : (r.slotAt n).entry = none)
    (hfree : (r.slotAt n).holder = none → (r.slotAt n).queue = []) (a : Int64) :
    Queued (enter r k a n).1 := by
  intro b m hm
  rw [enter_cache] at hm
  by_cases hne : m = n
  · subst hne
    exact enter_inTurn hown hb hf he hfree a
  · apply (h b m hm hne).of_same (enter_elsewhere hne k a)
    rw [enter_calls hf, tenants_other (Ne.symm hne)]

theorem begin_queued (h : Queued r) (hl : Lined r) (hk : Keyed r) (ht : Tenancy r)
    (hf : k ∉ r.calls.map (·.number)) (a : Int64) : Queued (begin r k a).1 := by
  have hb := begin_began hk k a
  generalize begin r k a = x at hb
  cases hb with
  | refused => exact h
  | found => exact h.of_same (fun _ hx => hx) (fun _ => rfl) rfl
  | joined n _ hm he =>
    apply enter_queued (fun b m hm _ => h b m hm) (h a n hm) (ht.bound a n (.inl hm)) hf he
    exact ((hl.line n he).2)
  | opened q _ hcleared _ =>
    have hsame := hcleared.same
    have hlen : q.slots.length = r.slots.length := by rw [hsame]
    have hcalls : q.calls = r.calls := by rw [hsame]
    have hslot : ∀ m, (q.grown a).slotAt m = r.slotAt m := by
      intro m
      rw [grown_slotAt, hsame]
      rfl
    have hfresh : (q.grown a).slotAt r.slots.length = .fresh := by
      rw [hslot, slotAt_of_length_le (Nat.le_refl _)]
    have hcache : ∀ x ∈ q.cache, x ∈ r.cache := by
      rcases hcleared with rfl | ⟨n, e, _, _, _, rfl⟩
      · exact fun _ hx => hx
      · exact fun _ hx => (mem_retire.mp hx).1
    -- nobody is in a slot that has just been made
    have hnobody : tenants r.slots.length (q.grown a).calls = [] := by
      apply List.filter_eq_nil_iff.mpr
      intro b hb hs
      have hm : b ∈ r.calls := hcalls ▸ hb
      have hlt := ht.bound _ _ (holds_of_call hm)
      rw [beq_iff_eq.mp hs] at hlt
      exact Nat.lt_irrefl _ hlt
    apply enter_queued
    · intro b m hm hne
      rcases mem_grown.mp hm with hm | ⟨-, hm⟩
      · exact (h b m (hcache _ hm)).of_same (hslot m) (by rw [← hcalls]; rfl)
      · exact absurd (hm.trans hlen) hne
    · intro _
      rw [within_eq, hnobody, hfresh]
      exact ⟨rfl, fun c hc => by cases hc⟩
    · rw [grown_length, hlen]
      exact Nat.lt_succ_self _
    · exact hcalls ▸ hf
    · rw [hfresh]
      rfl
    · intro _
      rw [hfresh]
      rfl

theorem answer_queued (h : Queued r) (ht : Tenancy r) (hn : (r.calls.map (·.number)).Nodup)
    (k : Nat) (found : Lookup) : Queued (answer r k found).1 := by
  have hx := answer_answering r k found
  generalize answer r k found = x at hx
  cases hx with
  | unasked => exact h
  | fills c rows hm hl =>
    have hb := ht.bound _ _ (holds_of_call hm)
    intro a n hcached
    rw [fill_eq] at hcached
    have hcached : (a, n) ∈ r.cache := settle_cache (r := r.filledSlot c rows) hcached
    by_cases hne : n = c.slot
    · intro hnone
      rw [hne, fill_entry hb] at hnone
      cases hnone
    · apply (h a n hcached).of_same (fill_slotAt_of_ne hne rows)
      rw [fill_calls, tenants_drop hn hm (Ne.symm hne)]
  | fails c x hm hl =>
    intro a n hcached
    obtain ⟨hcached, hretired⟩ : (a, n) ∈ r.cache ∧ ¬(a = c.application ∧ n = c.slot) :=
      mem_retire.mp hcached
    -- the slot of the call has just left the cache
    have hne : n ≠ c.slot := by
      rintro rfl
      exact hretired ⟨ht.unique a c.application c.slot (.inl hcached) (holds_of_call hm), rfl⟩
    exact (h a n hcached).of_same (fail_slotAt_of_ne hne x) (tenants_drop hn hm (Ne.symm hne))

theorem wake_queued (h : Queued r) (hn : (r.calls.map (·.number)).Nodup) (k : Nat) :
    Queued (wake r k).1 := by
  have hx := wake_waking r k
  generalize wake r k = x at hx
  cases hx with
  | stays => exact h
  | settles c e hm _ he =>
    have hs := settle_slotAt r c e
    intro a n hcached
    by_cases hne : n = c.slot
    · intro hnone
      rw [hs, hne, he] at hnone
      cases hnone
    · apply (h a n (settle_cache hcached)).of_same (hs n)
      rw [settle_calls, tenants_drop hn hm (Ne.symm hne)]
  | loads c hm hwaits he hh =>
    intro a n hcached
    have hcached : (a, n) ∈ r.cache := hcached
    -- in the cache a holder's lookup is out from the first, so this slot is not there
    have hne : n ≠ c.slot := by
      rintro rfl
      have hload := ((h a c.slot hcached) he).2 c (List.mem_filter.mpr ⟨hm, beq_self_eq_true _⟩) hh
      rw [hwaits] at hload
      cases hload
    apply (h a n hcached).of_same
    · rfl
    · change tenants n (r.calls.filter (·.number != c.number) ++ [{ c with loading := true }]) = _
      rw [tenants_other (c := { c with loading := true }) (Ne.symm hne),
        tenants_drop hn hm (Ne.symm hne)]

theorem step_queued (h : Queued r) (hl : Lined r) (hk : Keyed r) (ht : Tenancy r)
    (hn : (r.calls.map (·.number)).Nodup)
    (hf : ∀ k, s.begun? = some k → k ∉ r.calls.map (·.number)) : Queued (step r s).1 := by
  cases s with
  | begin k a => exact begin_queued h hl hk ht (hf k rfl) a
  | answer k found => exact answer_queued h ht hn k found
  | wake k => exact wake_queued h hn k
  | invalidate a =>
    simp only [step, invalidate]
    split
    · exact h.of_same (fun _ hx => (List.mem_filter.mp hx).1) (fun _ => rfl) rfl
    · exact h
  | invalidateAll =>
    intro a n hm
    cases hm
  | close =>
    simp only [step, close]
    split
    · exact h
    · intro a n hm
      cases hm
  | pass time => exact h.of_same (fun _ hx => hx) (fun _ => rfl) rfl

/-- Whatever happened, the calls in the empty slots of the cache stand in line as they came. -/
theorem run_queued (ttl : Option Duration) (hd : Distinct steps) :
    Queued (run (start ttl) steps).1 := by
  induction steps using List.reverseRecOn with
  | nil =>
    intro a n hm
    cases hm
  | append_singleton steps s ih =>
    have hn := run_numbered ttl hd.append_left
    rw [run_snoc]
    exact step_queued (ih hd.append_left) (run_lined ttl hd.append_left) (run_keyed ttl steps)
      (run_tenancy (start_tenancy ttl) steps) (hn.calls_nodup hd.append_left) (hn.fresh hd)

/-- The calls go on in this order, and each lookup is answered as it is made. -/
def finishing (answers : List (Nat × Lookup)) : List Step :=
  answers.flatMap fun (k, found) => [.wake k, .answer k found]

theorem slot_ne (hc : c ∈ calls) (hout : c.number ∉ within n calls) : c.slot ≠ n := by
  intro hs
  exact hout (mem_within.mpr ⟨c, hc, hs, rfl⟩)

theorem wake_elsewhere (hn : (r.calls.map (·.number)).Nodup) (hj : j ∉ within n r.calls) :
    (wake r j).1.slotAt n = r.slotAt n ∧ tenants n (wake r j).1.calls = tenants n r.calls := by
  have hx := wake_waking r j
  generalize wake r j = x at hx
  cases hx with
  | stays => exact ⟨rfl, rfl⟩
  | settles c e hm =>
    have hne : c.slot ≠ n := slot_ne hm hj
    refine ⟨settle_slotAt r c e n, ?_⟩
    rw [settle_calls, tenants_drop hn hm hne]
  | loads c hm =>
    have hne : c.slot ≠ n := slot_ne hm hj
    constructor
    · rfl
    · change tenants n (r.calls.filter (·.number != c.number) ++ [{ c with loading := true }]) = _
      rw [tenants_other (c := { c with loading := true }) hne, tenants_drop hn hm hne]

theorem answer_elsewhere (hn : (r.calls.map (·.number)).Nodup) (hj : j ∉ within n r.calls)
    (found : Lookup) :
    (answer r j found).1.slotAt n = r.slotAt n ∧
      tenants n (answer r j found).1.calls = tenants n r.calls := by
  have hx := answer_answering r j found
  generalize answer r j found = x at hx
  cases hx with
  | unasked => exact ⟨rfl, rfl⟩
  | fills c rows hm =>
    have hne : c.slot ≠ n := slot_ne hm hj
    refine ⟨fill_slotAt_of_ne hne.symm rows, ?_⟩
    rw [fill_calls]
    exact tenants_drop hn hm hne
  | fails c x hm =>
    have hne : c.slot ≠ n := slot_ne hm hj
    constructor
    · exact (slotAt_setSlot r c.slot n _).trans (if_neg fun hm => hne hm.1.symm)
    · exact tenants_drop hn hm hne

/-- A call that goes on in another slot changes nothing in this one. -/
theorem finish_elsewhere (hn : (r.calls.map (·.number)).Nodup)
    (hn' : ((wake r j).1.calls.map (·.number)).Nodup) (hj : j ∉ within n r.calls)
    (found : Lookup) :
    (answer (wake r j).1 j found).1.slotAt n = r.slotAt n ∧
      within n (answer (wake r j).1 j found).1.calls = within n r.calls := by
  obtain ⟨hslot, hcalls⟩ := wake_elsewhere hn hj
  have hj' : j ∉ within n (wake r j).1.calls := by
    rw [within_eq, hcalls]
    exact hj
  obtain ⟨hslot', hcalls'⟩ := answer_elsewhere hn' hj' found
  rw [within_eq, hcalls', hcalls, hslot', hslot]
  exact ⟨rfl, rfl⟩

/-- The answer to a lookup fills the slot, or leaves it to those who wait. -/
theorem answer_turn (hc : r.call? j = some c) (hl : c.loading = true)
    (hb : c.slot < r.slots.length) (found : Lookup) :
    (answer r j found).1.calls = r.calls.filter (·.number != j) ∧
      (((answer r j found).1.slotAt c.slot).entry.isSome ∨
        ((answer r j found).1.slotAt c.slot).line = (r.slotAt c.slot).queue) := by
  obtain ⟨-, rfl⟩ := call?_eq_some hc
  cases found with
  | ok rows =>
    have ha : answer r c.number (.ok rows) = fill r c rows := by
      simp only [answer, hc, hl, if_true]
    rw [ha]
    refine ⟨fill_calls r c rows, .inl ?_⟩
    rw [fill_entry hb]
    rfl
  | error x =>
    have ha : answer r c.number (.error x) = fail r c x := by
      simp only [answer, hc, hl, if_true]
    rw [ha]
    refine ⟨rfl, .inr ?_⟩
    change ((r.setSlot c.slot _).slotAt c.slot).line = _
    rw [slotAt_setSlot, if_pos ⟨rfl, hb⟩]
    cases hq : (r.slotAt c.slot).queue <;> simp [Slot.line]

/-- A call whose slot is filled, or whose turn it is, returns. -/
theorem turn_returns (hl : Lined r) (ht : Tenancy r) (hn : (r.calls.map (·.number)).Nodup)
    (hc : c ∈ r.calls)
    (hturn : (r.slotAt c.slot).entry = none → (r.slotAt c.slot).holder = some c.number)
    (found : Lookup) :
    let q := (answer (wake r c.number).1 c.number found).1
    q.calls = r.calls.filter (·.number != c.number) ∧
      ((q.slotAt c.slot).entry.isSome ∨ (r.slotAt c.slot).entry = none ∧
        (q.slotAt c.slot).line = (r.slotAt c.slot).queue) := by
  have hcall := call?_of_mem hn hc
  have hb := ht.bound _ _ (holds_of_call hc)
  intro q
  cases hload : c.loading with
  | true =>
    -- its lookup is out already
    have hw : wake r c.number = (r, []) := by
      simp only [wake, hcall, hload, if_true]
    obtain ⟨hcalls, hslot⟩ := answer_turn hcall hload hb found
    simp only [q, hw]
    exact ⟨hcalls, hslot.imp_right fun h => ⟨(hl.loader c hc hload).1, h⟩⟩
  | false =>
    cases he : (r.slotAt c.slot).entry with
    | some e =>
      have hw : wake r c.number = settle r c e := by
        simp only [wake, hcall, hload, he, Bool.false_eq_true, if_false]
      have hgone : (settle r c e).1.call? c.number = none := by
        simp [call?, settle_calls]
      have ha : answer (settle r c e).1 c.number found = ((settle r c e).1, []) := by
        simp only [answer, hgone]
      simp only [q, hw, ha]
      refine ⟨settle_calls r c e, .inl ?_⟩
      rw [settle_slotAt, he]
      rfl
    | none =>
      have hw : wake r c.number = load r c := by
        simp only [wake, hcall, hload, he, hturn he, Bool.false_eq_true, if_false, if_true]
      have hcall' : (load r c).1.call? c.number = some { c with loading := true } := by
        rw [call?, load, List.find?_append, List.find?_eq_none.mpr]
        · simp
        · intro b hb
          simpa using (mem_filter_number hb).2
      obtain ⟨hcalls, hslot⟩ := answer_turn hcall' rfl hb found
      simp only [q, hw, true_and]
      refine ⟨hcalls.trans ?_, hslot⟩
      simp [load, List.filter_append]

theorem within_filter (hk : k ∈ within n calls) (hne : k ≠ j) :
    k ∈ within n (calls.filter (·.number != j)) := by
  obtain ⟨c, hc, hs, rfl⟩ := mem_within.mp hk
  exact mem_within.mpr ⟨c, List.mem_filter.mpr ⟨hc, by simpa using hne⟩, hs, rfl⟩

/-- A call that has returned stays away. -/
theorem finishing_absent (hk : k ∉ r.calls.map (·.number)) (answers : List (Nat × Lookup)) :
    k ∉ (run r (finishing answers)).1.calls.map (·.number) := by
  have hone : ∀ {r : Registry} {s : Step}, s.begun? = none → k ∉ r.calls.map (·.number) →
      k ∉ (step r s).1.calls.map (·.number) := by
    intro r s hs hk
    apply ((step_traffic r s ?_).absent hk ?_).2
    · intro j hj
      rw [hs] at hj
      cases hj
    · rw [hs]
      exact nofun
  induction answers generalizing r with
  | nil => exact hk
  | cons x answers ih =>
    change k ∉ (run r (.wake x.1 :: .answer x.1 x.2 :: finishing answers)).1.calls.map (·.number)
    rw [run_cons, run_cons]
    exact ih (hone rfl (hone rfl hk))

/-- The first in line is the one whose turn it is. -/
theorem line_first {slot : Slot} {ns : List Nat} (hm : j ∈ slot.line)
    (hfree : slot.holder = none → slot.queue = []) (hs : slot.line.Sublist (j :: ns))
    (hj : j ∉ ns) : slot.holder = some j ∧ slot.queue.Sublist ns := by
  rcases List.sublist_cons_iff.mp hs with hs | ⟨rest, hline, hrest⟩
  · exact absurd (hs.subset hm) hj
  · cases hh : slot.holder with
    | none =>
      rw [Slot.line, hh, hfree hh] at hline
      cases hline
    | some i =>
      rw [Slot.line, hh] at hline
      cases hline
      exact ⟨rfl, hrest⟩

theorem Distinct.snoc (hd : Distinct steps) (hs : s.begun? = none) : Distinct (steps ++ [s]) := by
  rw [Distinct, begun_snoc, hs, Option.toList_none, List.append_nil]
  exact hd

/-- Where the calls of a slot go on in the order of its line, each of them returns. -/
theorem finishing_returns (hd : Distinct steps) (hn : (answers.map (·.1)).Nodup)
    (hk : k ∈ within n (run (start ttl) steps).1.calls) (hans : k ∈ answers.map (·.1))
    (hline : ((run (start ttl) steps).1.slotAt n).entry.isSome ∨
      ((run (start ttl) steps).1.slotAt n).line.Sublist (answers.map (·.1))) :
    k ∉ (run (run (start ttl) steps).1 (finishing answers)).1.calls.map (·.number) := by
  induction answers generalizing steps with
  | nil => cases hans
  | cons x answers ih =>
    obtain ⟨j, found⟩ := x
    obtain ⟨hj, hn⟩ := List.nodup_cons.mp hn
    have hwoken : Distinct (steps ++ [.wake j]) := hd.snoc rfl
    have hanswered : Distinct (steps ++ [.wake j] ++ [.answer j found]) := hwoken.snoc rfl
    have ih := ih hanswered hn
    have hnum := (run_numbered ttl hd).calls_nodup hd
    have hnum' := (run_numbered ttl hwoken).calls_nodup hwoken
    have hlined := run_lined ttl hd
    have hten := run_tenancy (start_tenancy ttl) steps
    have hwake : (run (start ttl) (steps ++ [.wake j])).1 =
        (wake (run (start ttl) steps).1 j).1 := by
      rw [run_snoc]
      rfl
    have hanswer : (run (start ttl) (steps ++ [.wake j] ++ [.answer j found])).1 =
        (answer (wake (run (start ttl) steps).1 j).1 j found).1 := by
      rw [run_snoc, hwake]
      rfl
    rw [hanswer] at ih
    rw [hwake] at hnum'
    change k ∉ (run _ (.wake j :: .answer j found :: finishing answers)).1.calls.map (·.number)
    rw [run_cons, run_cons]
    generalize (run (start ttl) steps).1 = r at *
    by_cases hin : j ∈ within n r.calls
    · -- the turn of the call that goes on has come
      obtain ⟨c, hc, rfl, rfl⟩ := mem_within.mp hin
      have hturn : (r.slotAt c.slot).entry = none → (r.slotAt c.slot).holder = some c.number ∧
          (r.slotAt c.slot).queue.Sublist (answers.map (·.1)) := by
        intro he
        rw [he] at hline
        obtain ⟨hperm, hfree⟩ := hlined.line c.slot he
        exact line_first (hperm.mem_iff.mpr hin) hfree (hline.resolve_left (by simp)) hj
      obtain ⟨hcalls, hslot⟩ :=
        turn_returns hlined hten hnum hc (fun he => (hturn he).1) found
      by_cases hkc : k = c.number
      · apply finishing_absent
        change k ∉ (answer (wake r c.number).1 c.number found).1.calls.map (·.number)
        rw [hcalls, hkc]
        simp
      · apply ih
        · rw [hcalls]
          exact within_filter hk hkc
        · exact (List.mem_cons.mp hans).resolve_left hkc
        · rcases hslot with hslot | ⟨he, hslot⟩
          · exact .inl hslot
          · exact .inr (hslot ▸ (hturn he).2)
    · -- the call that goes on is in another slot
      obtain ⟨hslot, hcalls⟩ := finish_elsewhere hnum hnum' hin found
      apply ih
      · exact hcalls ▸ hk
      · apply (List.mem_cons.mp hans).resolve_left
        rintro rfl
        exact hin hk
      · rw [hslot]
        cases he : (r.slotAt n).entry with
        | some e => exact .inl rfl
        | none =>
          -- nor is it in the line of this one
          have hout : j ∉ (r.slotAt n).line := fun hm =>
            hin ((hlined.line n he).1.mem_iff.mp hm)
          rw [he] at hline
          rcases List.sublist_cons_iff.mp (hline.resolve_left (by simp)) with hs | ⟨_, hfirst, -⟩
          · exact .inr hs
          · rw [hfirst] at hout
            exact absurd List.mem_cons_self hout

/-- A call that has just begun returns when all that are in flight go on in their order. -/
theorem begin_finishes (hd : Distinct (steps ++ [.begin k a]))
    (hans : answers.map (·.1) = (run (start ttl) (steps ++ [.begin k a])).1.calls.map (·.number)) :
    k ∉ (run (run (start ttl) (steps ++ [.begin k a])).1 (finishing answers)).1.calls.map
      (·.number) := by
  have hn := (run_numbered ttl hd).calls_nodup hd
  by_cases hk : k ∈ (run (start ttl) (steps ++ [.begin k a])).1.calls.map (·.number)
  · obtain ⟨c, hc, hck⟩ := List.mem_map.mp hk
    -- its slot is in the cache, since it was not in flight before
    have hcached : (c.application, c.slot) ∈ (run (start ttl) (steps ++ [.begin k a])).1.cache := by
      have hold := (run_numbered ttl hd.append_left).fresh hd k rfl
      rw [run_snoc] at hc ⊢
      rcases (step_evolves _ _).called c hc with ⟨b, hb, hbc, -⟩ | ⟨-, hm, -⟩
      · rw [← hck, ← hbc] at hold
        exact absurd (List.mem_map_of_mem hb) hold
      · exact hm
    apply finishing_returns (n := c.slot) hd (hans ▸ hn) (mem_within.mpr ⟨c, hc, rfl, hck⟩)
      (hans ▸ hk)
    cases he : ((run (start ttl) (steps ++ [.begin k a])).1.slotAt c.slot).entry with
    | some e => exact .inl rfl
    | none =>
      obtain ⟨hline, -⟩ := run_queued ttl hd c.application c.slot hcached he
      rw [← hline, hans]
      exact .inr (List.filter_sublist.map _)
  · exact finishing_absent hk answers

end Uplink.Registry
