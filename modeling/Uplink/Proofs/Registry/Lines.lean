import Mathlib.Algebra.BigOperators.Group.List.Basic
import Mathlib.Algebra.GroupWithZero.Nat
import Uplink.Proofs.Registry.SingleFlight

namespace Uplink.Registry

open Integration Store Time

variable {r r' : Registry} {a : Int64} {k n : Nat} {c : Call} {e : Entry} {s : Step}
  {calls : List Call} {steps : List Step} {ttl : Option Duration} {lookup : Int64 → Lookup}

/-- The numbers of the calls in a slot. -/
def within (n : Nat) (calls : List Call) : List Nat :=
  (calls.filter (·.slot == n)).map (·.number)

@[simp] theorem within_append (n : Nat) (calls calls' : List Call) :
    within n (calls ++ calls') = within n calls ++ within n calls' := by
  simp [within]

theorem within_self (c : Call) : within c.slot [c] = [c.number] := by
  simp [within]

theorem within_other (h : c.slot ≠ n) : within n [c] = [] := by
  simp [within, h]

theorem mem_within : k ∈ within n calls ↔ ∃ c ∈ calls, c.slot = n ∧ c.number = k := by
  simp [within, and_assoc]

/-- A call is all there is to its number. -/
theorem filter_perm (hn : (calls.map (·.number)).Nodup) (hc : c ∈ calls) :
    (c :: calls.filter (·.number != c.number)).Perm calls := by
  obtain ⟨pre, post, rfl⟩ := List.append_of_mem hc
  have hfront : (pre ++ c :: post).Perm (c :: (pre ++ post)) := List.perm_middle
  rw [(hfront.map _).nodup_iff, List.map_cons, List.nodup_cons] at hn
  refine .trans ?_ hfront.symm
  rw [List.filter_append, List.filter_cons_of_neg (by simp), ← List.filter_append,
    filter_number_eq_self hn.1]

theorem within_drop (hn : (calls.map (·.number)).Nodup) (hc : c ∈ calls) (n : Nat) :
    (within n [c] ++ within n (calls.filter (·.number != c.number))).Perm (within n calls) := by
  rw [← within_append]
  exact ((filter_perm hn hc).filter _).map _

def Slot.line (s : Slot) : List Nat := s.holder.toList ++ s.queue

/-- Those in line for a slot, if it is empty, are these, and nobody waits where nobody holds it. -/
def Slot.Serves (s : Slot) (numbers : List Nat) : Prop :=
  s.entry = none → s.line.Perm numbers ∧ (s.holder = none → s.queue = [])

/-- The calls in empty slots stand in line. -/
structure Lined (r : Registry) : Prop where
  line : ∀ n, (r.slotAt n).Serves (within n r.calls)
  loader : ∀ c ∈ r.calls, c.loading = true →
    (r.slotAt c.slot).entry = none ∧ (r.slotAt c.slot).holder = some c.number

theorem Lined.of_same (h : Lined r) (hs : ∀ n, r'.slotAt n = r.slotAt n)
    (hc : r'.calls = r.calls) : Lined r' := by
  refine ⟨fun n => ?_, fun c => ?_⟩
  · rw [hs, hc]
    exact h.line n
  · rw [hs, hc]
    exact h.loader c

/-- A call comes into an empty slot, which then still serves those that are in it. -/
theorem Lined.joined (h : Lined r) (hb : c.slot < r.slots.length) {x : Slot} (hx : x.entry = none)
    (hline : x.Serves (within c.slot r.calls ++ [c.number]))
    (hold : ∀ b ∈ r.calls, b.slot = c.slot → b.loading = true → x.holder = some b.number)
    (hnew : c.loading = true → x.holder = some c.number) :
    Lined { r.setSlot c.slot x with calls := r.calls ++ [c] } := by
  have hslot : ∀ m, (r.setSlot c.slot x).slotAt m = if m = c.slot then x else r.slotAt m := by
    intro m
    rw [slotAt_setSlot]
    simp only [hb, and_true]
  refine ⟨fun m => ?_, fun b hm hl => ?_⟩
  · change ((r.setSlot c.slot x).slotAt m).Serves (within m (r.calls ++ [c]))
    rw [hslot, within_append]
    split
    · rename_i hm
      rw [hm, within_self]
      exact hline
    · rename_i hm
      rw [within_other (Ne.symm hm), List.append_nil]
      exact h.line m
  · change ((r.setSlot c.slot x).slotAt b.slot).entry = none ∧
      ((r.setSlot c.slot x).slotAt b.slot).holder = some b.number
    rw [hslot]
    rcases List.mem_append.mp hm with hm | hm
    · split
      · rename_i hs
        exact ⟨hx, hold b hm hs hl⟩
      · exact h.loader b hm hl
    · obtain rfl := List.mem_singleton.mp hm
      rw [if_pos rfl]
      exact ⟨hx, hnew hl⟩

theorem enter_lined (h : Lined r) (hb : n < r.slots.length) (hf : k ∉ r.calls.map (·.number))
    (he : (r.slotAt n).entry = none) (a : Int64) : Lined (enter r k a n).1 := by
  obtain ⟨hline, hfree⟩ := h.line n he
  rw [Slot.line] at hline
  cases hh : (r.slotAt n).holder with
  | none =>
    -- nobody is in the slot, and the call takes it
    have hempty : within n r.calls = [] := by
      rw [hh, hfree hh] at hline
      exact List.nil_perm.mp hline
    let x : Slot := { r.slotAt n with holder := some k }
    have hjoined : Lined { r.setSlot n x with calls := r.calls ++ [⟨k, a, n, true⟩] } := by
      refine h.joined (c := ⟨k, a, n, true⟩) hb he (fun _ => ?_) (fun b hm hs _ => ?_) fun _ => rfl
      · rw [hempty, Slot.line, hfree hh]
        exact ⟨.refl _, fun _ => rfl⟩
      · have hin : b.number ∈ within n r.calls := mem_within.mpr ⟨b, hm, hs, rfl⟩
        rw [hempty] at hin
        cases hin
    rw [enter_of_free hh]
    refine hjoined.of_same (fun _ => rfl) ?_
    change r.calls.filter (·.number != k) ++ [⟨k, a, n, true⟩] = _
    rw [filter_number_eq_self hf]
  | some j =>
    -- the call waits behind those that are in the slot
    simp only [enter, hh]
    rw [hh] at hline
    refine h.joined (c := ⟨k, a, n, false⟩) hb he (fun _ => ?_) (fun b hm hs hl => ?_) (by simp)
    · rw [Slot.line, ← List.append_assoc]
      exact ⟨hline.append_right _, by simp⟩
    · rw [← hh, ← (h.loader b hm hl).2, hs]

theorem begin_lined (h : Lined r) (hk : Keyed r) (ht : Tenancy r)
    (hf : k ∉ r.calls.map (·.number)) (a : Int64) : Lined (begin r k a).1 := by
  have hb := begin_began hk k a
  generalize begin r k a = x at hb
  cases hb with
  | refused => exact h
  | found => exact h.of_same (fun _ => rfl) rfl
  | joined n _ hm he => exact enter_lined h (ht.bound a n (.inl hm)) hf he a
  | opened q _ hcleared _ =>
    have hsame := hcleared.same
    have hlen : q.slots.length = r.slots.length := by rw [hsame]
    have hcalls : q.calls = r.calls := by rw [hsame]
    have hslots : ∀ n, q.slotAt n = r.slotAt n := fun n => by rw [hsame]; rfl
    have hgrown : Lined (q.grown a) :=
      h.of_same (fun n => (grown_slotAt q a n).trans (hslots n)) hcalls
    refine enter_lined hgrown (by simp [hlen]) (hcalls ▸ hf) ?_ a
    rw [grown_slotAt, slotAt_of_length_le (Nat.le_of_eq hlen)]
    rfl

/-- A call that finds its slot filled may go. -/
theorem settle_lined (h : Lined r) (hn : (r.calls.map (·.number)).Nodup) (hc : c ∈ r.calls)
    (he : (r.slotAt c.slot).entry = some e) (f : Entry) : Lined (settle r c f).1 := by
  have hs := settle_slotAt r c f
  refine ⟨fun n => ?_, fun b hm hl => ?_⟩
  · rw [hs, settle_calls]
    intro hnone
    have hne : c.slot ≠ n := by
      rintro rfl
      rw [he] at hnone
      cases hnone
    have hdrop := within_drop hn hc n
    rw [within_other hne, List.nil_append] at hdrop
    obtain ⟨hline, hfree⟩ := h.line n hnone
    exact ⟨hline.trans hdrop.symm, hfree⟩
  · rw [hs]
    rw [settle_calls] at hm
    exact h.loader b (mem_filter_number hm).1 hl

theorem load_lined (h : Lined r) (hn : (r.calls.map (·.number)).Nodup) (hc : c ∈ r.calls)
    (he : (r.slotAt c.slot).entry = none) (hh : (r.slotAt c.slot).holder = some c.number) :
    Lined (load r c).1 := by
  refine ⟨fun n hnone => ?_, fun b hm hl => ?_⟩
  · obtain ⟨hline, hfree⟩ := h.line n hnone
    have hsame : within n [{ c with loading := true }] = within n [c] := by
      by_cases hs : c.slot = n <;> simp [within, hs]
    refine ⟨hline.trans (.symm ?_), hfree⟩
    change (within n (r.calls.filter _ ++ [{ c with loading := true }])).Perm _
    rw [within_append, hsame]
    exact List.perm_append_comm.trans (within_drop hn hc n)
  · change b ∈ r.calls.filter _ ++ [{ c with loading := true }] at hm
    rcases List.mem_append.mp hm with hm | hm
    · exact h.loader b (mem_filter_number hm).1 hl
    · rw [List.mem_singleton.mp hm]
      exact ⟨he, hh⟩

/-- When the call whose lookup is out is gone, its slot goes to others, or is filled. -/
theorem Lined.answered (h : Lined r) (hn : (r.calls.map (·.number)).Nodup) (hc : c ∈ r.calls)
    (hl : c.loading = true) (hs : ∀ n, n ≠ c.slot → r'.slotAt n = r.slotAt n)
    (hk : r'.calls = r.calls.filter (·.number != c.number))
    (hown : (r'.slotAt c.slot).entry = none → (r'.slotAt c.slot).line = (r.slotAt c.slot).queue ∧
      ((r'.slotAt c.slot).holder = none → (r'.slotAt c.slot).queue = [])) : Lined r' := by
  obtain ⟨hempty, hholder⟩ := h.loader c hc hl
  have hdrop := within_drop hn hc
  refine ⟨fun n hnone => ?_, fun b hm hload => ?_⟩
  · by_cases hne : n = c.slot
    · subst hne
      obtain ⟨hline, hfree⟩ := hown hnone
      refine ⟨?_, hfree⟩
      have hold := (h.line c.slot hempty).1
      have hself := hdrop c.slot
      rw [Slot.line, hholder] at hold
      rw [within_self] at hself
      rw [hline, hk]
      exact (List.perm_cons _).mp (hold.trans hself.symm)
    · rw [hs n hne] at hnone ⊢
      obtain ⟨hline, hfree⟩ := h.line n hnone
      have hother := hdrop n
      rw [within_other (Ne.symm hne), List.nil_append] at hother
      rw [hk]
      exact ⟨hline.trans hother.symm, hfree⟩
  · rw [hk] at hm
    obtain ⟨hm, hne⟩ := mem_filter_number hm
    obtain ⟨hentry, hhold⟩ := h.loader b hm hload
    have hslot : b.slot ≠ c.slot := by
      intro he
      rw [he, hholder, Option.some.injEq] at hhold
      exact hne hhold.symm
    rw [hs _ hslot]
    exact ⟨hentry, hhold⟩

theorem answer_lined (h : Lined r) (ht : Tenancy r) (hn : (r.calls.map (·.number)).Nodup)
    (k : Nat) (found : Lookup) : Lined (answer r k found).1 := by
  have hx := answer_answering r k found
  generalize answer r k found = x at hx ⊢
  cases hx with
  | unasked => exact h
  | fills c rows hm hl =>
    have hb := ht.bound _ _ (holds_of_call hm)
    refine h.answered hn hm hl (fun n hne => fill_slotAt_of_ne hne rows) (fill_calls r c rows)
      fun hnone => ?_
    rw [fill_entry hb] at hnone
    cases hnone
  | fails c x hm hl =>
    have hb := ht.bound _ _ (holds_of_call hm)
    refine h.answered hn hm hl (fun n hne => fail_slotAt_of_ne hne x) rfl fun _ => ?_
    rw [fail_slotAt hb]
    cases hq : (r.slotAt c.slot).queue <;> simp [Slot.line]

theorem wake_lined (h : Lined r) (hn : (r.calls.map (·.number)).Nodup) (k : Nat) :
    Lined (wake r k).1 := by
  have hx := wake_waking r k
  generalize wake r k = x at hx ⊢
  cases hx with
  | stays => exact h
  | settles c e hm _ he => exact settle_lined h hn hm he e
  | loads c hm _ he hh => exact load_lined h hn hm he hh

theorem step_lined (h : Lined r) (hk : Keyed r) (ht : Tenancy r)
    (hn : (r.calls.map (·.number)).Nodup)
    (hf : ∀ k, s.begun? = some k → k ∉ r.calls.map (·.number)) : Lined (step r s).1 := by
  cases s with
  | begin k a => exact begin_lined h hk ht (hf k rfl) a
  | answer k found => exact answer_lined h ht hn k found
  | wake k => exact wake_lined h hn k
  | invalidate a =>
    simp only [step, invalidate]
    split <;> exact h.of_same (fun _ => rfl) rfl
  | invalidateAll => exact h.of_same (fun _ => rfl) rfl
  | close =>
    simp only [step, close]
    split
    · exact h
    · rw [foldl_release]
      exact h.of_same (fun _ => rfl) rfl
  | pass time => exact h.of_same (fun _ => rfl) rfl

/-- Whatever happened, the calls in empty slots stand in line. -/
theorem run_lined (ttl : Option Duration) (hd : Distinct steps) :
    Lined (run (start ttl) steps).1 := by
  induction steps using List.reverseRecOn with
  | nil =>
    refine ⟨fun n _ => ?_, fun c hc => by cases hc⟩
    rw [slotAt_of_length_le (Nat.zero_le _)]
    exact ⟨.refl _, fun _ => rfl⟩
  | append_singleton steps s ih =>
    have hn := run_numbered ttl hd.append_left
    rw [run_snoc]
    exact step_lined (ih hd.append_left) (run_keyed ttl steps) (run_tenancy (start_tenancy ttl) steps)
      (hn.calls_nodup hd.append_left) (hn.fresh hd)

/-- What there is for a call in flight to do: to look up, perhaps, and to return. -/
def Call.due (c : Call) : Nat := if c.loading then 1 else 2

def pending (r : Registry) : Nat := (r.calls.map Call.due).sum

/-- The call that goes on next. -/
theorem next?_eq_some (h : next? r lookup = some s) :
    ∃ c ∈ r.calls, c.loading = true ∧ s = .answer c.number (lookup c.application) ∨
      c.loading = false ∧ s = .wake c.number ∧
        ((r.slotAt c.slot).entry.isSome ∨ (r.slotAt c.slot).holder = some c.number) := by
  obtain ⟨c, hc, hs⟩ := List.exists_of_findSome?_eq_some h
  refine ⟨c, hc, ?_⟩
  cases hl : c.loading with
  | true =>
    rw [hl, if_pos rfl] at hs
    exact .inl ⟨rfl, (Option.some.inj hs).symm⟩
  | false =>
    simp only [hl, Bool.false_eq_true, if_false, Option.ite_none_right_eq_some,
      Option.some.injEq] at hs
    exact .inr ⟨rfl, hs.2.symm, hs.1⟩

/-- As long as calls are in flight, one of them can go on. -/
theorem Lined.next (h : Lined r) (hne : r.calls ≠ []) (lookup : Int64 → Lookup) :
    ∃ s, next? r lookup = some s := by
  obtain ⟨c, hc⟩ := List.exists_mem_of_ne_nil _ hne
  rw [← Option.isSome_iff_exists, next?, List.findSome?_isSome_iff]
  cases he : (r.slotAt c.slot).entry with
  | some e => exact ⟨c, hc, by cases hl : c.loading <;> simp [he]⟩
  | none =>
    -- the slot is empty, so somebody holds it, and that one can go on
    obtain ⟨hline, hfree⟩ := h.line c.slot he
    have hm : c.number ∈ (r.slotAt c.slot).line := by
      rw [hline.mem_iff, mem_within]
      exact ⟨c, hc, rfl, rfl⟩
    cases hh : (r.slotAt c.slot).holder with
    | none => simp [Slot.line, hh, hfree hh] at hm
    | some j =>
      have hj : j ∈ (r.slotAt c.slot).line := by simp [Slot.line, hh]
      rw [hline.mem_iff, mem_within] at hj
      obtain ⟨b, hb, hs, rfl⟩ := hj
      exact ⟨b, hb, by cases hl : b.loading <;> simp [hs, hh]⟩

theorem pending_of_leaves (hn : (r.calls.map (·.number)).Nodup) (hc : c ∈ r.calls)
    (hk : r'.calls = r.calls.filter (·.number != c.number)) : pending r' < pending r := by
  have hperm := ((filter_perm hn hc).map Call.due).sum_eq
  have hdue : 0 < c.due := by
    unfold Call.due
    split <;> omega
  rw [List.map_cons, List.sum_cons] at hperm
  rw [pending, pending, hk, ← hperm]
  omega

/-- When the next call goes on, there is less to do. -/
theorem next?_pending (hn : (r.calls.map (·.number)).Nodup) (h : next? r lookup = some s) :
    pending (step r s).1 < pending r := by
  obtain ⟨c, hc, ⟨hl, rfl⟩ | ⟨hl, rfl, hready⟩⟩ := next?_eq_some h
  · simp only [step, answer, call?_of_mem hn hc, hl, if_true]
    cases lookup c.application with
    | ok rows =>
      refine pending_of_leaves hn hc ?_
      change (fill r c rows).1.calls = _
      rw [fill_eq, settle_calls]
      rfl
    | error x => exact pending_of_leaves hn hc rfl
  · simp only [step, wake, call?_of_mem hn hc, hl, Bool.false_eq_true, if_false]
    cases he : (r.slotAt c.slot).entry with
    | some e => exact pending_of_leaves hn hc (settle_calls r c e)
    | none =>
      rw [he] at hready
      have hperm := ((filter_perm hn hc).map Call.due).sum_eq
      rw [List.map_cons, List.sum_cons] at hperm
      simp only [hready.resolve_left (by simp), if_true, pending, load, List.map_append,
        List.sum_append, List.map_cons, List.map_nil, List.sum_singleton, ← hperm]
      simp only [Call.due, hl, if_true, Bool.false_eq_true, if_false]
      omega

end Uplink.Registry
