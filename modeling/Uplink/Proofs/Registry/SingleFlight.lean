import Uplink.Proofs.Registry.Bystander
import Uplink.Proofs.Registry.Invalidation
import Uplink.Proofs.Registry.Origin

namespace Uplink.Registry

open Integration Store Time

variable {r r' : Registry} {a b : Int64} {k m n : Nat} {c : Call} {e : Entry} {s : Step}
  {o : List Output} {own : List Nat} {slot : Option Nat} {steps xs ys before : List Step}
  {ttl : Option Duration}

/-- Only time itself changes the clock. -/
theorem enter_clock (r : Registry) (k : Nat) (a : Int64) (n : Nat) :
    (enter r k a n).1.ttl = r.ttl ∧ (enter r k a n).1.now = r.now := by
  unfold enter
  dsimp only
  split <;> exact ⟨rfl, rfl⟩

theorem begin_clock (hk : Keyed r) (k : Nat) (a : Int64) :
    (begin r k a).1.ttl = r.ttl ∧ (begin r k a).1.now = r.now := by
  have hb := begin_began hk k a
  generalize begin r k a = x at hb
  cases hb with
  | refused => exact ⟨rfl, rfl⟩
  | found => exact ⟨rfl, rfl⟩
  | joined n => exact enter_clock r k a n
  | opened q _ hc =>
    obtain ⟨ht, hn⟩ := enter_clock (q.grown a) k a r.slots.length
    have hsame := hc.same
    exact ⟨ht.trans (by rw [hsame]; rfl), hn.trans (by rw [hsame]; rfl)⟩

theorem settle_clock (r : Registry) (c : Call) (e : Entry) :
    (settle r c e).1.ttl = r.ttl ∧ (settle r c e).1.now = r.now := by
  unfold settle
  dsimp only
  split <;> exact ⟨rfl, rfl⟩

theorem answer_clock (r : Registry) (k : Nat) (found : Lookup) :
    (answer r k found).1.ttl = r.ttl ∧ (answer r k found).1.now = r.now := by
  have h := answer_answering r k found
  generalize answer r k found = x at h ⊢
  cases h with
  | unasked | fails => exact ⟨rfl, rfl⟩
  | fills c rows => exact settle_clock (r.filledSlot c rows) c (r.entryOf rows)

theorem wake_clock (r : Registry) (k : Nat) :
    (wake r k).1.ttl = r.ttl ∧ (wake r k).1.now = r.now := by
  have h := wake_waking r k
  generalize wake r k = x at h ⊢
  cases h with
  | stays | loads => exact ⟨rfl, rfl⟩
  | settles c e => exact settle_clock r c e

theorem step_clock (hk : Keyed r) (s : Step) :
    (step r s).1.ttl = r.ttl ∧ r.now ≤ (step r s).1.now := by
  have same : ∀ {q : Registry}, q.ttl = r.ttl ∧ q.now = r.now → q.ttl = r.ttl ∧ r.now ≤ q.now :=
    fun h => ⟨h.1, h.2 ▸ Nat.le_refl _⟩
  cases s with
  | begin k a => exact same (begin_clock hk k a)
  | answer k found => exact same (answer_clock r k found)
  | wake k => exact same (wake_clock r k)
  | invalidate a =>
    simp only [step, invalidate]
    split <;> exact same ⟨rfl, rfl⟩
  | invalidateAll => exact same ⟨rfl, rfl⟩
  | close =>
    simp only [step, close]
    split
    · exact same ⟨rfl, rfl⟩
    · rw [foldl_release]
      exact same ⟨rfl, rfl⟩
  | pass time => exact ⟨rfl, Nat.le_add_right _ _⟩

theorem run_clock (hk : Keyed r) (steps : List Step) :
    Keyed (run r steps).1 ∧ (run r steps).1.ttl = r.ttl ∧ r.now ≤ (run r steps).1.now :=
  collect_keeps (f := step) (P := fun q _ => Keyed q ∧ q.ttl = r.ttl ∧ r.now ≤ q.now) (o := [])
    (fun _ _ s ⟨hq, ht, hn⟩ =>
      have hc := step_clock hq s
      ⟨step_keyed hq s, hc.1.trans ht, Nat.le_trans hn hc.2⟩)
    ⟨hk, rfl, Nat.le_refl _⟩ steps

/-- What has expired stays so. -/
theorem isExpired_later {now later : Duration} (h : now ≤ later) (hx : isExpired ttl now e = true) :
    isExpired ttl later e = true := by
  cases ttl with
  | none => cases hx
  | some ttl =>
    simp only [isExpired, decide_eq_true_eq] at hx ⊢
    exact Nat.le_trans hx h

/-- The calls that begin for an application, in order. -/
def callsFor (a : Int64) (steps : List Step) : List Nat :=
  steps.filterMap fun
    | .begin k b => if b = a then some k else none
    | _ => none

theorem mem_callsFor : k ∈ callsFor a steps ↔ .begin k a ∈ steps := by
  simp only [callsFor, List.mem_filterMap]
  constructor
  · rintro ⟨s, hs, hk⟩
    cases s with
    | begin j b =>
      simp only [Option.ite_none_right_eq_some, Option.some.injEq] at hk
      obtain ⟨rfl, rfl⟩ := hk
      exact hs
    | _ => cases hk
  · exact fun h => ⟨_, h, by simp⟩

theorem callsFor_append (a : Int64) (xs ys : List Step) :
    callsFor a (xs ++ ys) = callsFor a xs ++ callsFor a ys :=
  List.filterMap_append

/-- The registry is open, no call for the application is in flight, and no entry cached for it is
good any more. -/
structure Vacant (r : Registry) (a : Int64) : Prop where
  isOpen : r.closed = false
  idle : ∀ c ∈ r.calls, c.application ≠ a
  stale : ∀ n e, (a, n) ∈ r.cache → (r.slotAt n).entry = some e → isExpired r.ttl r.now e = true

/-- The lookup of one call is out, and the others wait for it in the same slot. -/
structure Awaited (r : Registry) (a : Int64) (n k : Nat) : Prop where
  isOpen : r.closed = false
  cached : ∀ m, (a, m) ∈ r.cache ↔ m = n
  empty : (r.slotAt n).entry = none
  holder : (r.slotAt n).holder = some k
  loader : ⟨k, a, n, true⟩ ∈ r.calls
  waiting : ∀ c ∈ r.calls, c.application = a → c.number ≠ k → c.slot = n ∧ c.loading = false

/-- The slot has been filled. -/
structure Filled (r : Registry) (a : Int64) (n : Nat) (e : Entry) : Prop where
  isOpen : r.closed = false
  cached : ∀ m, (a, m) ∈ r.cache ↔ m = n
  entry : (r.slotAt n).entry = some e
  waiting : ∀ c ∈ r.calls, c.application = a → c.slot = n ∧ c.loading = false

theorem Vacant.apart (hv : Vacant r a) (h : Apart a r r') : Vacant r' a where
  isOpen := h.closed.trans hv.isOpen
  idle c hc ha := hv.idle c ((h.calls c ha).mp hc) ha
  stale n e hm he := by
    have hm := (h.cached n).mp hm
    rw [h.slot n (.inl hm)] at he
    rw [h.ttl]
    exact isExpired_later h.time (hv.stale n e hm he)

theorem Awaited.apart (hw : Awaited r a n k) (h : Apart a r r') : Awaited r' a n k := by
  have hs := h.slot n (.inl ((hw.cached n).mpr rfl))
  refine ⟨h.closed.trans hw.isOpen, fun m => (h.cached m).trans (hw.cached m), ?_, ?_, ?_, ?_⟩
  · rw [hs, hw.empty]
  · rw [hs, hw.holder]
  · exact (h.calls _ rfl).mpr hw.loader
  · exact fun c hc ha => hw.waiting c ((h.calls c ha).mp hc) ha

theorem Filled.apart (hf : Filled r a n e) (h : Apart a r r') : Filled r' a n e where
  isOpen := h.closed.trans hf.isOpen
  cached m := (h.cached m).trans (hf.cached m)
  entry := by rw [h.slot n (.inl ((hf.cached n).mpr rfl)), hf.entry]
  waiting c hc ha := hf.waiting c ((h.calls c ha).mp hc) ha

/-- What is known of any state of a run and of its next step. -/
structure Ready (own : List Nat) (a : Int64) (r : Registry) (s : Step) : Prop where
  keyed : Keyed r
  tenancy : Tenancy r
  attended : Attended r
  numbers : (r.calls.map (·.number)).Nodup
  fresh : ∀ k, s.begun? = some k → k ∉ r.calls.map (·.number)
  owned : Owned own a r s

/-- A step that neither drops entries of the application nor closes the registry. -/
def Gentle (a : Int64) (s : Step) : Prop := s ≠ .invalidate a ∧ s ≠ .invalidateAll ∧ s ≠ .close

theorem Ready.apart (h : Ready own a r s) (hs : ¬Concerns r a s) :
    Apart a r (step r s).1 ∧ news a own (step r s).2 = [] :=
  step_apart h.keyed h.tenancy h.fresh h.numbers h.owned hs

theorem call?_of_mem (hn : (r.calls.map (·.number)).Nodup) (hc : c ∈ r.calls) :
    r.call? c.number = some c := by
  cases h : r.call? c.number with
  | none =>
    have := List.find?_eq_none.mp h c hc
    simp at this
  | some d =>
    obtain ⟨hd, he⟩ := call?_eq_some h
    rw [List.inj_on_of_nodup_map hn hd hc he]

theorem Vacant.begin (hv : Vacant r a) (h : Ready own a r (.begin k a)) :
    Awaited (begin r k a).1 a r.slots.length k ∧ news a own (begin r k a).2 = [.asked k a] := by
  have hb := begin_began h.keyed k a
  generalize Registry.begin r k a = x at hb
  cases hb with
  | refused hc => exact absurd hc (by simp [hv.isOpen])
  | found n e _ hm he hg =>
    rw [hv.stale n e hm he] at hg
    cases hg
  | joined n _ hm he =>
    obtain ⟨c, hc, rfl, _⟩ := h.attended a n hm he
    exact absurd (h.tenancy.unique _ _ _ (holds_of_call hc) (.inl hm)) (hv.idle c hc)
  | opened q _ hc habs =>
    have hsame := hc.same
    have hlen : q.slots.length = r.slots.length := by rw [hsame]
    have hcalls : q.calls = r.calls := by rw [hsame]
    have hfree : (q.grown a).slotAt r.slots.length = .fresh := by
      rw [grown_slotAt, slotAt_of_length_le (Nat.le_of_eq hlen)]
    have hbound : r.slots.length < (q.grown a).slots.length := by simp [hlen]
    rw [enter_of_free (by rw [hfree]; rfl), hfree]
    have hslot : ∀ x, ((q.grown a).setSlot r.slots.length x).slotAt r.slots.length = x := by
      intro x
      rw [slotAt_setSlot, if_pos ⟨rfl, hbound⟩]
    refine ⟨⟨?_, ?_, ?_, ?_, ?_, ?_⟩, news_asked_self⟩
    · change q.closed = false
      rw [hsame]
      exact hv.isOpen
    · intro m
      refine mem_grown.trans ⟨?_, fun hm => .inr ⟨rfl, hm.trans hlen.symm⟩⟩
      rintro (hm | ⟨_, hm⟩)
      · exact absurd hm (habs m)
      · exact hm.trans hlen
    · exact congrArg Slot.entry (hslot _)
    · exact congrArg Slot.holder (hslot _)
    · simp [load]
    · intro c hc ha hk
      simp only [load, List.mem_append, List.mem_filter, List.mem_singleton] at hc
      rcases hc with ⟨hc, _⟩ | rfl
      · exact absurd ha (hv.idle c (hcalls ▸ hc))
      · exact absurd rfl hk

/-- Until a call begins for the application, it stays as it is. -/
theorem Vacant.step (hv : Vacant r a) (h : Ready own a r s) (hg : Gentle a s) :
    (callsFor a [s] = [] ∧ Vacant (step r s).1 a ∧ news a own (step r s).2 = []) ∨
      ∃ k, s = .begin k a ∧ Awaited (step r s).1 a r.slots.length k ∧
        news a own (step r s).2 = [.asked k a] := by
  by_cases hs : Concerns r a s
  · cases s with
    | begin k b =>
      obtain rfl : b = a := hs
      exact .inr ⟨k, rfl, hv.begin h⟩
    | answer k found =>
      obtain ⟨c, hc, _, ha⟩ := hs
      exact absurd ha (hv.idle c hc)
    | wake k =>
      obtain ⟨c, hc, _, ha⟩ := hs
      exact absurd ha (hv.idle c hc)
    | invalidate b => exact absurd (congrArg Step.invalidate hs) hg.1
    | invalidateAll => exact absurd rfl hg.2.1
    | close => exact absurd rfl hg.2.2
    | pass => exact hs.elim
  · obtain ⟨hap, hnews⟩ := h.apart hs
    refine .inl ⟨?_, hv.apart hap, hnews⟩
    rw [List.eq_nil_iff_forall_not_mem]
    intro k hk
    rw [mem_callsFor, List.mem_singleton] at hk
    exact hs (hk ▸ rfl)

/-- A call that begins while the lookup is out waits for it. -/
theorem Awaited.begin {j : Nat} (hw : Awaited r a n k) (h : Ready own a r (.begin j a)) :
    Awaited (begin r j a).1 a n k ∧ news a own (begin r j a).2 = [] := by
  have hb := begin_began h.keyed j a
  generalize Registry.begin r j a = x at hb
  cases hb with
  | refused hc => exact absurd hc (by simp [hw.isOpen])
  | found m e _ hm he =>
    rw [(hw.cached m).mp hm, hw.empty] at he
    cases he
  | opened q _ hc habs =>
    rcases hc with rfl | ⟨m, e, hm, he, _, _⟩
    · exact absurd ((hw.cached n).mpr rfl) (habs n)
    · rw [(hw.cached m).mp hm, hw.empty] at he
      cases he
  | joined m _ hm =>
    obtain rfl := (hw.cached m).mp hm
    obtain ⟨hout, hcalls, hslots⟩ := enter_of_held hw.holder j a
    have hclosed : (enter r j a m).1.closed = r.closed :=
      congrArg Books.closed (enter_books r j a m)
    rw [hout]
    refine ⟨⟨hclosed.trans hw.isOpen, fun i => ?_, (hslots m).1.trans hw.empty,
      (hslots m).2.trans hw.holder, ?_, ?_⟩, rfl⟩
    · rw [enter_cache]
      exact hw.cached i
    · rw [hcalls]
      exact List.mem_append_left _ hw.loader
    · intro c hc ha hk
      rw [hcalls] at hc
      rcases List.mem_append.mp hc with hc | hc
      · exact hw.waiting c hc ha hk
      · rw [List.mem_singleton.mp hc]
        exact ⟨rfl, rfl⟩

/-- The answer to the lookup fills the slot. -/
theorem Awaited.fill (hw : Awaited r a n k) (ht : Tenancy r)
    (rows : List Store.Integration) :
    Filled (fill r ⟨k, a, n, true⟩ rows).1 a n (r.entryOf rows) ∧
      (fill r ⟨k, a, n, true⟩ rows).2 = r.fillCounts rows ++
        [.loaded k (r.entryOf rows), .counted (.cached r.cachedApplications),
          .returned k (.ok (r.entryOf rows))] := by
  have hb := ht.bound _ _ (holds_of_call hw.loader)
  rw [fill_eq, settle_of_open (r := r.filledSlot _ rows) hw.isOpen]
  refine ⟨⟨hw.isOpen, hw.cached, ?_, ?_⟩, rfl⟩
  · change ((r.setSlot n _).slotAt n).entry = _
    rw [slotAt_setSlot, if_pos ⟨rfl, hb⟩]
  · intro c hc ha
    have hm : c ∈ r.calls ∧ c.number ≠ k := mem_filter_number (c := ⟨k, a, n, true⟩) hc
    exact hw.waiting c hm.1 ha hm.2

theorem Awaited.answer (hw : Awaited r a n k) (hn : (r.calls.map (·.number)).Nodup)
    (rows : List Store.Integration) :
    answer r k (.ok rows) = Registry.fill r ⟨k, a, n, true⟩ rows := by
  have hc : r.call? k = some ⟨k, a, n, true⟩ := call?_of_mem hn hw.loader
  simp only [Registry.answer, hc, if_true]

/-- While the lookup is out, nothing but its answer changes anything for the application. -/
theorem Awaited.step (hw : Awaited r a n k) (h : Ready own a r s) (hg : Gentle a s) (hk : k ∈ own)
    (hok : ∀ x, s ≠ .answer k (.error x)) :
    (Awaited (step r s).1 a n k ∧ news a own (step r s).2 = []) ∨
      ∃ rows, s = .answer k (.ok rows) ∧ Filled (step r s).1 a n (r.entryOf rows) ∧
        news a own (step r s).2 =
          [.loaded k (r.entryOf rows), .returned k (.ok (r.entryOf rows))] := by
  by_cases hs : Concerns r a s
  · cases s with
    | begin j b =>
      obtain rfl : b = a := hs
      exact .inl (hw.begin h)
    | answer j found =>
      obtain ⟨c, hc, rfl, ha⟩ := hs
      by_cases hck : c.number = k
      · rw [hck] at hok ⊢
        cases found with
        | error x => exact absurd rfl (hok x)
        | ok rows =>
          obtain ⟨hf, hout⟩ := hw.fill h.tenancy rows
          refine .inr ⟨rows, rfl, ?_⟩
          rw [Registry.step, hw.answer h.numbers]
          refine ⟨hf, ?_⟩
          rw [hout, news_append, news_fillCounts, news_loaded_mem hk, news_counted,
            news_returned_mem hk]
          rfl
      · have hidle : Registry.answer r c.number found = (r, []) := by
          simp [Registry.answer, call?_of_mem h.numbers hc, (hw.waiting c hc ha hck).2]
        rw [Registry.step, hidle]
        exact .inl ⟨hw, rfl⟩
    | wake j =>
      obtain ⟨c, hc, rfl, ha⟩ := hs
      have hidle : wake r c.number = (r, []) := by
        by_cases hck : c.number = k
        · have hcl : r.call? k = some ⟨k, a, n, true⟩ := call?_of_mem h.numbers hw.loader
          simp [wake, hck, hcl]
        · obtain ⟨hcs, hcl⟩ := hw.waiting c hc ha hck
          simp [wake, call?_of_mem h.numbers hc, hcl, hcs, hw.empty, hw.holder, Ne.symm hck]
      rw [Registry.step, hidle]
      exact .inl ⟨hw, rfl⟩
    | invalidate b => exact absurd (congrArg Step.invalidate hs) hg.1
    | invalidateAll => exact absurd rfl hg.2.1
    | close => exact absurd rfl hg.2.2
    | pass => exact hs.elim
  · obtain ⟨hap, hnews⟩ := h.apart hs
    exact .inl ⟨hw.apart hap, hnews⟩

/-- A call that finds the entry returns it at once. -/
theorem Filled.begin (hf : Filled r a n e) (h : Ready own a r (.begin k a)) (hk : k ∈ own)
    (hgood : isExpired r.ttl r.now e = false) :
    Filled (begin r k a).1 a n e ∧ news a own (begin r k a).2 = [.returned k (.ok e)] := by
  have hb := begin_began h.keyed k a
  generalize Registry.begin r k a = x at hb
  cases hb with
  | refused hc => exact absurd hc (by simp [hf.isOpen])
  | joined m _ hm he =>
    rw [(hf.cached m).mp hm, hf.entry] at he
    cases he
  | opened q _ hc habs =>
    rcases hc with rfl | ⟨m, f, hm, he, hx, _⟩
    · exact absurd ((hf.cached n).mpr rfl) (habs n)
    · rw [(hf.cached m).mp hm, hf.entry, Option.some.injEq] at he
      rw [← he, hgood] at hx
      cases hx
  | found m f _ hm he =>
    rw [(hf.cached m).mp hm, hf.entry, Option.some.injEq] at he
    rw [← he]
    exact ⟨⟨hf.isOpen, hf.cached, hf.entry, hf.waiting⟩, news_returned_mem hk⟩

/-- A call that waited returns the entry when it goes on. -/
theorem Filled.wake (hf : Filled r a n e) (hn : (r.calls.map (·.number)).Nodup) (hc : c ∈ r.calls)
    (ha : c.application = a) :
    wake r c.number = (r.dropCall c.number,
      [.counted (.cached r.cachedApplications), .returned c.number (.ok e)]) := by
  obtain ⟨hcs, hcl⟩ := hf.waiting c hc ha
  simp only [Registry.wake, call?_of_mem hn hc, hcl, hcs, hf.entry, Bool.false_eq_true, if_false]
  exact settle_of_open hf.isOpen c e

/-- Once the slot is filled, its entry is all that a call for the application hears of. -/
theorem Filled.step (hf : Filled r a n e) (h : Ready own a r s) (hg : Gentle a s)
    (hbegun : ∀ k, s = .begin k a → k ∈ own) (hgood : isExpired r.ttl r.now e = false) :
    Filled (step r s).1 a n e ∧
      ∃ js : List Nat, news a own (step r s).2 = js.map fun j => .returned j (.ok e) := by
  by_cases hs : Concerns r a s
  · cases s with
    | begin k b =>
      obtain rfl : b = a := hs
      obtain ⟨hf', hnews⟩ := hf.begin h (hbegun k rfl) hgood
      exact ⟨hf', [k], hnews⟩
    | answer j found =>
      obtain ⟨c, hc, rfl, ha⟩ := hs
      have hidle : answer r c.number found = (r, []) := by
        simp [answer, call?_of_mem h.numbers hc, (hf.waiting c hc ha).2]
      rw [Registry.step, hidle]
      exact ⟨hf, [], rfl⟩
    | wake j =>
      obtain ⟨c, hc, rfl, ha⟩ := hs
      rw [Registry.step, hf.wake h.numbers hc ha]
      refine ⟨⟨hf.isOpen, hf.cached, hf.entry, fun d hd hda => ?_⟩, ?_⟩
      · exact hf.waiting d (List.mem_filter.mp hd).1 hda
      · rw [news_counted]
        by_cases hown : c.number ∈ own
        · exact ⟨[c.number], news_returned_mem hown⟩
        · exact ⟨[], news_returned_not_mem hown⟩
    | invalidate b => exact absurd (congrArg Step.invalidate hs) hg.1
    | invalidateAll => exact absurd rfl hg.2.1
    | close => exact absurd rfl hg.2.2
    | pass => exact hs.elim
  · obtain ⟨hap, hnews⟩ := h.apart hs
    exact ⟨hf.apart hap, [], hnews⟩

/-- How far the calls for an application have come: the slot that they share, the steps done, the
state, and what they have heard. -/
inductive Flight (a : Int64) : Option Nat → List Step → Registry → List Output → Prop where
  | vacant (xs : List Step) (r : Registry) (nobody : callsFor a xs = []) (vacant : Vacant r a) :
      Flight a none xs r []
  | awaited (n k : Nat) (xs : List Step) (r : Registry) (first : (callsFor a xs).head? = some k)
      (awaited : Awaited r a n k) : Flight a (some n) xs r [.asked k a]
  | filled (n k : Nat) (e : Entry) (rows : List Store.Integration) (js : List Nat)
      (xs : List Step) (r : Registry) (first : (callsFor a xs).head? = some k)
      (answered : .answer k (.ok rows) ∈ xs) (built : BuiltFrom rows e) (filled : Filled r a n e) :
      Flight a (some n) xs r (.asked k a :: .loaded k e :: js.map fun j => .returned j (.ok e))

theorem head?_callsFor_snoc (h : (callsFor a xs).head? = some k) (s : Step) :
    (callsFor a (xs ++ [s])).head? = some k := by
  rw [callsFor_append, List.head?_append, h]
  rfl

theorem Flight.step (hfl : Flight a slot xs r o) (h : Ready own a r s) (hg : Gentle a s)
    (hown : ∀ k ∈ callsFor a (xs ++ [s]), k ∈ own)
    (hok : ∀ k x, (callsFor a xs).head? = some k → s ≠ .answer k (.error x))
    (hgood : ∀ k e, .loaded k e ∈ o → isExpired r.ttl r.now e = false) :
    ∃ slot', Flight a slot' (xs ++ [s]) (step r s).1 (o ++ news a own (step r s).2) ∧
      ∀ n, slot = some n → slot' = some n := by
  have mine : ∀ k, (callsFor a xs).head? = some k → k ∈ own := by
    intro k hk
    refine hown k ?_
    rw [callsFor_append]
    exact List.mem_append_left _ (List.mem_of_mem_head? hk)
  cases hfl with
  | vacant _ _ hx hv =>
    rcases hv.step h hg with ⟨hs, hv, hnews⟩ | ⟨k, rfl, hw, hnews⟩
    · rw [hnews]
      refine ⟨none, .vacant _ _ ?_ hv, fun n hn => nomatch hn⟩
      rw [callsFor_append, hx, hs]
      rfl
    · rw [hnews]
      refine ⟨some r.slots.length, .awaited _ k _ _ ?_ hw, fun n hn => nomatch hn⟩
      rw [callsFor_append, hx]
      simp [callsFor]
  | awaited n k _ _ hx hw =>
    have hk := mine k hx
    have hfirst := head?_callsFor_snoc hx s
    rcases hw.step h hg hk (fun x => hok k x hx) with ⟨hw, hnews⟩ | ⟨rows, rfl, hf, hnews⟩
    · rw [hnews, List.append_nil]
      exact ⟨some n, .awaited n k _ _ hfirst hw, fun _ hn => hn⟩
    · rw [hnews]
      exact ⟨some n, .filled n k _ rows [k] _ _ hfirst (by simp) (entryOf_builtFrom r rows) hf,
        fun _ hn => hn⟩
  | filled n k e rows js _ _ hx ha hb hf =>
    have hfirst := head?_callsFor_snoc hx s
    have hbegun : ∀ j, s = .begin j a → j ∈ own := by
      rintro j rfl
      exact hown j (by simp [mem_callsFor])
    obtain ⟨hf', more, hnews⟩ := hf.step h hg hbegun (hgood k e (by simp))
    refine ⟨some n, ?_, fun _ hn => hn⟩
    have hall := Flight.filled n k e rows (js ++ more) _ _ hfirst
      (List.mem_append_left [s] ha) hb hf'
    rw [List.map_append, ← hnews] at hall
    exact hall

/-- Nothing gets in the way of the calls for an application: its entry is not dropped, the registry
is not closed, the lookup of the first of them succeeds, and what it finds is good to the end. -/
structure Undisturbed (r : Registry) (a : Int64) (steps : List Step) : Prop where
  gentle : ∀ s ∈ steps, Gentle a s
  answered : ∀ k x, (callsFor a steps).head? = some k → .answer k (.error x) ∉ steps
  good : ∀ k e, .begin k a ∈ steps → .loaded k e ∈ (run r steps).2 →
    isExpired r.ttl (run r steps).1.now e = false

/-- Every call in flight has begun for its application. -/
theorem begun_of_call (ttl : Option Duration) {all : List Step}
    (hc : c ∈ (run (start ttl) all).1.calls) : .begin c.number c.application ∈ all := by
  have hnone : ∀ c ∈ (start ttl).calls, c.number ∈ ([] : List Nat) := fun _ h => nomatch h
  exact (run_called hnone hc).resolve_left List.not_mem_nil

theorem run_ready {zs : List Step} (hd : Distinct (before ++ (xs ++ s :: zs))) (a : Int64) :
    Ready (callsFor a (xs ++ s :: zs)) a (run (run (start ttl) before).1 xs).1 s := by
  have hrun : (run (run (start ttl) before).1 xs).1 = (run (start ttl) (before ++ xs)).1 := by
    rw [run_append]
  have hsplit : before ++ (xs ++ s :: zs) = (before ++ xs ++ [s]) ++ zs := by simp
  rw [hsplit] at hd
  have hn := run_numbered ttl hd.append_left.append_left
  rw [hrun]
  refine ⟨run_keyed ttl _, run_tenancy (start_tenancy ttl) _,
    run_attended ttl hd.append_left.append_left, hn.calls_nodup hd.append_left.append_left,
    hn.fresh hd.append_left, ⟨?_, ?_⟩⟩
  · intro c hc hown
    have hb : .begin c.number c.application ∈ (before ++ xs ++ [s]) ++ zs :=
      List.mem_append_left _ (List.mem_append_left _ (begun_of_call ttl hc))
    refine hd.application hb ?_
    rw [← hsplit]
    exact List.mem_append_right _ (mem_callsFor.mp hown)
  · rintro k b rfl hown
    refine hd.application (k := k) (by simp) ?_
    rw [← hsplit]
    exact List.mem_append_right _ (mem_callsFor.mp hown)

theorem mem_news_loaded : .loaded k e ∈ news a own o ↔ .loaded k e ∈ o ∧ k ∈ own := by
  simp [news]

/-- What a call has found is good all the time. -/
theorem Undisturbed.good_now (hu : Undisturbed r a (xs ++ ys)) (hk : Keyed r)
    (hl : .loaded k e ∈ news a (callsFor a (xs ++ ys)) (run r xs).2) :
    isExpired (run r xs).1.ttl (run r xs).1.now e = false := by
  obtain ⟨hl, hown⟩ := mem_news_loaded.mp hl
  obtain ⟨hkeyed, httl, -⟩ := run_clock hk xs
  obtain ⟨-, -, hnow⟩ := run_clock hkeyed ys
  have hend := hu.good k e (mem_callsFor.mp hown) (by
    rw [run_append]
    exact List.mem_append_left _ hl)
  rw [run_append] at hend
  rw [httl]
  by_contra hx
  rw [Bool.not_eq_false] at hx
  rw [isExpired_later hnow hx] at hend
  cases hend

/-- From any moment on, the calls for the application go on in the slot that they have then. -/
theorem run_flight {ws zs : List Step} (hkey : Keyed r)
    (hr : ∀ xs s zs, steps = xs ++ s :: zs → Ready (callsFor a steps) a (run r xs).1 s)
    (hu : Undisturbed r a steps) (hsteps : steps = ws ++ xs ++ zs)
    (hfl : Flight a slot ws (run r ws).1 (news a (callsFor a steps) (run r ws).2)) :
    ∃ slot', Flight a slot' (ws ++ xs) (run r (ws ++ xs)).1
        (news a (callsFor a steps) (run r (ws ++ xs)).2) ∧
      ∀ n, slot = some n → slot' = some n := by
  induction xs using List.reverseRecOn generalizing zs with
  | nil => exact ⟨slot, by simpa using hfl, fun _ hn => hn⟩
  | append_singleton xs s ih =>
    have hsplit : steps = (ws ++ xs) ++ s :: zs := by simp [hsteps]
    obtain ⟨slot', hf, hkeep⟩ := ih hsplit
    have hown : ∀ k ∈ callsFor a (ws ++ xs ++ [s]), k ∈ callsFor a steps := by
      intro k hk
      rw [mem_callsFor] at hk ⊢
      rw [hsteps]
      exact List.mem_append_left _ (by simpa using hk)
    have hmem : s ∈ steps := by simp [hsteps]
    have hgood : ∀ k e, .loaded k e ∈ news a (callsFor a steps) (run r (ws ++ xs)).2 →
        isExpired (run r (ws ++ xs)).1.ttl (run r (ws ++ xs)).1.now e = false := by
      intro k e hl
      rw [hsplit] at hl hu
      exact hu.good_now hkey hl
    have hok : ∀ k x, (callsFor a (ws ++ xs)).head? = some k → s ≠ .answer k (.error x) := by
      rintro k x hk rfl
      refine hu.answered k x ?_ hmem
      rw [hsplit, callsFor_append, List.head?_append, hk]
      rfl
    obtain ⟨slot'', hf', hkeep'⟩ := hf.step (hr _ s zs hsplit) (hu.gentle s hmem) hown hok hgood
    refine ⟨slot'', ?_, fun n hn => hkeep' n (hkeep n hn)⟩
    rw [← List.append_assoc, run_snoc, news_append]
    exact hf'

/-- The slot that the calls share is the one that the application has in the cache. -/
theorem Flight.cached (hfl : Flight a slot xs r o) (hx : callsFor a xs ≠ []) :
    ∃ n, slot = some n ∧ ∀ m, (a, m) ∈ r.cache ↔ m = n := by
  cases hfl with
  | vacant _ _ h => exact absurd h hx
  | awaited n k _ _ _ hw => exact ⟨n, rfl, hw.cached⟩
  | filled n k e rows js _ _ _ _ _ hf => exact ⟨n, rfl, hf.cached⟩

/-- All calls share one slot, which stays in the cache from the first of them on. -/
theorem run_one_slot (hkey : Keyed r)
    (hr : ∀ xs s zs, steps = xs ++ s :: zs → Ready (callsFor a steps) a (run r xs).1 s)
    (hu : Undisturbed r a steps) (hv : Vacant r a) (hsome : callsFor a steps ≠ []) :
    ∃ n, Flight a (some n) steps (run r steps).1 (news a (callsFor a steps) (run r steps).2) ∧
      ∀ xs ys, steps = xs ++ ys → callsFor a xs ≠ [] →
        ∀ m, (a, m) ∈ (run r xs).1.cache ↔ m = n := by
  have hstart : Flight a none [] (run r []).1 (news a (callsFor a steps) (run r []).2) :=
    .vacant [] r rfl hv
  obtain ⟨slot, hend, -⟩ := run_flight hkey hr hu (show steps = [] ++ steps ++ [] by simp) hstart
  rw [List.nil_append] at hend
  obtain ⟨n, rfl, hn⟩ := hend.cached hsome
  refine ⟨n, hend, ?_⟩
  rintro xs ys hsteps hx
  obtain ⟨slot, hearlier, -⟩ :=
    run_flight hkey hr hu (show steps = [] ++ xs ++ ys by simpa using hsteps) hstart
  rw [List.nil_append] at hearlier
  obtain ⟨k, rfl, hk⟩ := hearlier.cached hx
  -- from that moment on the slot is kept, so it is the one of the end
  obtain ⟨slot, hlater, hkeep⟩ :=
    run_flight hkey hr hu (show steps = xs ++ ys ++ [] by simpa using hsteps) hearlier
  obtain ⟨m, rfl, hm⟩ := hlater.cached (by rwa [← hsteps])
  obtain rfl : m = k := Option.some.inj (hkeep k rfl)
  rw [← hsteps] at hm
  obtain rfl : m = n := (hn m).mp ((hm m).mpr rfl)
  exact hk

/-- A call that has begun for the application has returned or is in flight for it. -/
theorem returned_or_called (ttl : Option Duration) (hd : Distinct (before ++ steps))
    (hk : k ∈ callsFor a steps) :
    (∃ result, .returned k result ∈ (run (run (start ttl) before).1 steps).2) ∨
      ∃ c ∈ (run (run (start ttl) before).1 steps).1.calls, c.number = k ∧ c.application = a := by
  have hb := mem_callsFor.mp hk
  have hn := (run_numbered ttl hd).conserved
  have hm := hn.mem_iff.mpr (mem_begun.mpr ⟨a, List.mem_append_right _ hb⟩)
  rw [run_append, returns_append, List.mem_append, List.mem_append] at hm
  rcases hm with (hm | hm) | hm
  · -- it has not returned before it began
    have hold := (run_numbered ttl hd.append_left).conserved.mem_iff.mp (List.mem_append_left _ hm)
    exact absurd hold (hd.disjoint (mem_begun.mpr ⟨a, hb⟩))
  · exact .inl (returned_of_mem_returns hm)
  · obtain ⟨c, hc, rfl⟩ := List.mem_map.mp hm
    have hcalled : .begin c.number c.application ∈ before ++ steps := by
      refine begun_of_call ttl ?_
      rw [run_append]
      exact hc
    exact .inr ⟨c, hc, rfl, hd.application hcalled (List.mem_append_right _ hb)⟩

/-- Calls for an application that has no good entry share one lookup, whatever happens to other
applications meanwhile. The first of them makes it, in a slot that stays in the cache. Until it is
answered nobody returns; its rows are then built once, and everybody returns the entry that they
make, those who waited as soon as they go on. -/
theorem single_flight (ttl : Option Duration) (before steps : List Step) (a : Int64)
    (hd : Distinct (before ++ steps)) (hv : Vacant (run (start ttl) before).1 a)
    (hu : Undisturbed (run (start ttl) before).1 a steps) (hsome : callsFor a steps ≠ []) :
    let r := (run (start ttl) before).1
    let r' := (run r steps).1
    let heard := news a (callsFor a steps) (run r steps).2
    ∃ first slot, (callsFor a steps).head? = some first ∧
      (∀ xs ys, steps = xs ++ ys → callsFor a xs ≠ [] →
        ∀ n, (a, n) ∈ (run r xs).1.cache ↔ n = slot) ∧
      ((heard = [.asked first a] ∧
          ∀ rows, ∃ e, BuiltFrom rows e ∧
            .returned first (.ok e) ∈ (step r' (.answer first (.ok rows))).2) ∨
        ∃ rows e, ∃ js : List Nat, .answer first (.ok rows) ∈ steps ∧ BuiltFrom rows e ∧
          heard = .asked first a :: .loaded first e :: js.map (fun j => .returned j (.ok e)) ∧
          ∀ k ∈ callsFor a steps, k ∈ js ∨ .returned k (.ok e) ∈ (step r' (.wake k)).2) := by
  intro r r' heard
  have hkey : Keyed r := run_keyed ttl before
  have hr : ∀ xs s zs, steps = xs ++ s :: zs → Ready (callsFor a steps) a (run r xs).1 s := by
    rintro xs s zs rfl
    exact run_ready hd a
  have hnumbers : (r'.calls.map (·.number)).Nodup := by
    have hn := (run_numbered ttl hd).calls_nodup hd
    rw [run_append] at hn
    exact hn
  obtain ⟨slot, hend, hkept⟩ := run_one_slot hkey hr hu hv hsome
  generalize hheard : news a (callsFor a steps) (run r steps).2 = o at hend
  cases hend with
  | awaited _ first _ _ hx hw =>
    refine ⟨first, slot, hx, hkept, .inl ⟨hheard, fun rows => ?_⟩⟩
    have ht : Tenancy r' := run_tenancy (run_tenancy (start_tenancy ttl) before) steps
    refine ⟨r'.entryOf rows, entryOf_builtFrom _ rows, ?_⟩
    rw [step, hw.answer hnumbers, (hw.fill ht rows).2]
    exact List.mem_append_right _ (by simp [r'])
  | filled _ first e rows js _ _ hx ha hb hf =>
    refine ⟨first, slot, hx, hkept, .inr ⟨rows, e, js, ha, hb, hheard, fun k hk => ?_⟩⟩
    rcases returned_or_called ttl hd hk with ⟨result, hret⟩ | ⟨c, hc, rfl, hca⟩
    · have hm : .returned k result ∈ news a (callsFor a steps) (run r steps).2 := by
        simpa [news] using ⟨hret, hk⟩
      rw [hheard] at hm
      simp only [List.mem_cons, reduceCtorEq, List.mem_map, Output.returned.injEq, false_or] at hm
      obtain ⟨j, hj, rfl, -⟩ := hm
      exact .inl hj
    · refine .inr ?_
      rw [step, hf.wake hnumbers hc hca]
      simp

/-- An entry of the application 7 has expired when calls for it come. One waits for the lookup of
the first, and while that is out the lookup of another application fails. -/
def renewed : List Step :=
  [.begin 1 7, .begin 2 7, .begin 3 8, .answer 3 (.error (.unavailable "down")),
    .answer 1 (.ok [⟨7, "HTTP", .null⟩]), .begin 4 7, .wake 2]

/-- The state in which they come. -/
def outdated : Registry :=
  (run (start (some ⟨10⟩)) [.begin 0 7, .answer 0 (.ok []), .pass ⟨10⟩]).1

/-- The three calls for it make one lookup between them and return one entry, in one slot. -/
theorem single_flight_renewed :
    Distinct ([.begin 0 7, .answer 0 (.ok []), .pass ⟨10⟩] ++ renewed) ∧ Vacant outdated 7 ∧
      Undisturbed outdated 7 renewed ∧ callsFor 7 renewed = [1, 2, 4] ∧
      ∃ slot, (∀ n, (7, n) ∈ (run outdated renewed).1.cache ↔ n = slot) ∧
        ∃ e, ∃ js : List Nat, news 7 [1, 2, 4] (run outdated renewed).2 =
          .asked 1 7 :: .loaded 1 e :: js.map fun j => .returned j (.ok e) := by
  have hd : Distinct ([.begin 0 7, .answer 0 (.ok []), .pass ⟨10⟩] ++ renewed) := by decide
  have hv : Vacant outdated 7 := by
    refine ⟨rfl, (fun _ hc => nomatch hc), fun n e hm he => ?_⟩
    have hm : (7, n) ∈ [((7 : Int64), 0)] := hm
    obtain rfl : n = 0 := by simpa using hm
    have he : some (⟨0, [], [], ⟨0⟩⟩ : Entry) = some e := he
    cases he
    rfl
  have hu : Undisturbed outdated 7 renewed := by
    refine ⟨by simp [renewed, Gentle], fun k x hk => ?_, fun k e _ hl => ?_⟩
    · cases hk
      simp [renewed]
    · have hl : (k, e) ∈ loads (run outdated renewed).2 := mem_loads.mpr hl
      have hl : (k, e) ∈ [(1, (⟨1, _, _, ⟨10⟩⟩ : Entry))] := hl
      simp only [List.mem_singleton, Prod.mk.injEq] at hl
      rw [hl.2]
      rfl
  have hc : callsFor 7 renewed = [1, 2, 4] := rfl
  obtain ⟨first, slot, hf, hs, hout⟩ := single_flight (some ⟨10⟩)
    [.begin 0 7, .answer 0 (.ok []), .pass ⟨10⟩] renewed 7 hd hv hu (by simp [hc])
  refine ⟨hd, hv, hu, hc, slot, hs renewed [] (by simp) (by simp [hc]), ?_⟩
  cases hf
  rcases hout with ⟨hnews, -⟩ | ⟨rows, e, js, -, -, hnews, -⟩
  · cases congrArg List.length hnews
  · exact ⟨e, js, hnews⟩

end Uplink.Registry
