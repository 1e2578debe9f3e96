import Uplink.Proofs.Registry.Attendance
import Uplink.Proofs.Registry.Books

namespace Uplink.Registry

open Integration Store Time

variable {r q r' : Registry} {a b : Int64} {k m n : Nat} {c d : Call} {e : Entry} {s : Step}
  {o o' : List Output} {own : List Nat}

/-- What comes out for some calls, which are those for an application. -/
def news (a : Int64) (own : List Nat) (o : List Output) : List Output :=
  o.filter fun
    | .counted _ => false
    | .asked _ b => b == a
    | .loaded k _ => own.contains k
    | .returned k _ => own.contains k

@[simp] theorem news_append (a : Int64) (own : List Nat) (o o' : List Output) :
    news a own (o ++ o') = news a own o ++ news a own o' :=
  List.filter_append ..

@[simp] theorem news_counted (x : Count) : news a own (.counted x :: o) = news a own o := rfl

theorem news_asked_self : news a own (.asked k a :: o) = .asked k a :: news a own o := by
  simp [news]

theorem news_asked_ne (h : b ≠ a) : news a own (.asked k b :: o) = news a own o := by
  simp [news, h]

theorem news_loaded_mem (h : k ∈ own) :
    news a own (.loaded k e :: o) = .loaded k e :: news a own o := by
  simp [news, h]

theorem news_loaded_not_mem (h : k ∉ own) : news a own (.loaded k e :: o) = news a own o := by
  simp [news, h]

theorem news_returned_mem {result : Resolved} (h : k ∈ own) :
    news a own (.returned k result :: o) = .returned k result :: news a own o := by
  simp [news, h]

theorem news_returned_not_mem {result : Resolved} (h : k ∉ own) :
    news a own (.returned k result :: o) = news a own o := by
  simp [news, h]

theorem news_fillCounts (r : Registry) (rows : List Store.Integration) :
    news a own (r.fillCounts rows) = [] := by
  refine List.filter_eq_nil_iff.mpr fun x hx => ?_
  obtain ⟨y, rfl⟩ := mem_fillCounts hx
  simp

/-- The numbers are those of calls for the application, as far as the step knows. -/
structure Owned (own : List Nat) (a : Int64) (r : Registry) (s : Step) : Prop where
  called : ∀ c ∈ r.calls, c.number ∈ own → c.application = a
  begun : ∀ k b, s = .begin k b → k ∈ own → b = a

/-- A step that touches the application. -/
def Concerns (r : Registry) (a : Int64) : Step → Prop
  | .begin _ b | .invalidate b => b = a
  | .answer k _ | .wake k => ∃ c ∈ r.calls, c.number = k ∧ c.application = a
  | .invalidateAll | .close => True
  | .pass _ => False

/-- From one state to the other nothing happened to an application, but that time may have
passed. -/
structure Apart (a : Int64) (r r' : Registry) : Prop where
  closed : r'.closed = r.closed
  ttl : r'.ttl = r.ttl
  time : r.now ≤ r'.now
  cached : ∀ n, (a, n) ∈ r'.cache ↔ (a, n) ∈ r.cache
  slot : ∀ n, r.Holds a n → r'.slotAt n = r.slotAt n
  calls : ∀ c, c.application = a → (c ∈ r'.calls ↔ c ∈ r.calls)

theorem Apart.refl (a : Int64) (r : Registry) : Apart a r r :=
  ⟨rfl, rfl, Nat.le_refl _, fun _ => .rfl, fun _ _ => rfl, fun _ _ => .rfl⟩

theorem Apart.holds (h : Apart a r r') : r'.Holds a n ↔ r.Holds a n := by
  refine or_congr (h.cached n) ⟨?_, ?_⟩
  · rintro ⟨c, hc, ha, hn⟩
    exact ⟨c, (h.calls c ha).mp hc, ha, hn⟩
  · rintro ⟨c, hc, ha, hn⟩
    exact ⟨c, (h.calls c ha).mpr hc, ha, hn⟩

theorem Apart.trans (h : Apart a r q) (h' : Apart a q r') : Apart a r r' where
  closed := h'.closed.trans h.closed
  ttl := h'.ttl.trans h.ttl
  time := Nat.le_trans h.time h'.time
  cached n := (h'.cached n).trans (h.cached n)
  slot n hn := (h'.slot n (h.holds.mpr hn)).trans (h.slot n hn)
  calls c hc := (h'.calls c hc).trans (h.calls c hc)

theorem setSlot_apart (hm : ¬r.Holds a m) (x : Slot) : Apart a r (r.setSlot m x) where
  closed := rfl
  ttl := rfl
  time := Nat.le_refl _
  cached _ := .rfl
  slot n hn := by
    rw [slotAt_setSlot, if_neg]
    rintro ⟨rfl, -⟩
    exact hm hn
  calls _ _ := .rfl

theorem retire_apart (hb : b ≠ a) (r : Registry) (m : Nat) : Apart a r (r.retire b m) where
  closed := rfl
  ttl := rfl
  time := Nat.le_refl _
  cached n := by
    rw [mem_retire]
    exact ⟨And.left, fun h => ⟨h, fun hn => hb hn.1.symm⟩⟩
  slot _ _ := rfl
  calls _ _ := .rfl

theorem dropCall_apart (hk : ∀ c ∈ r.calls, c.application = a → c.number ≠ k) :
    Apart a r (r.dropCall k) where
  closed := rfl
  ttl := rfl
  time := Nat.le_refl _
  cached _ := .rfl
  slot _ _ := rfl
  calls c hc := by
    simp only [dropCall, List.mem_filter, bne_iff_ne]
    exact ⟨And.left, fun h => ⟨h, hk c h hc⟩⟩

theorem grown_apart (hb : b ≠ a) (r : Registry) : Apart a r (r.grown b) where
  closed := rfl
  ttl := rfl
  time := Nat.le_refl _
  cached n := by
    rw [mem_grown]
    exact ⟨fun h => h.resolve_right fun h' => hb h'.1.symm, .inl⟩
  slot n _ := grown_slotAt r b n
  calls _ _ := .rfl

theorem load_apart (hc : c.application ≠ a)
    (hk : ∀ d ∈ r.calls, d.application = a → d.number ≠ c.number) : Apart a r (load r c).1 where
  closed := rfl
  ttl := rfl
  time := Nat.le_refl _
  cached _ := .rfl
  slot _ _ := rfl
  calls d hd := by
    simp only [load, List.mem_append, List.mem_filter, bne_iff_ne, List.mem_singleton]
    refine ⟨fun h => ?_, fun h => .inl ⟨h, hk d h hd⟩⟩
    rcases h with h | rfl
    · exact h.1
    · exact absurd hd hc

theorem enter_apart (hb : b ≠ a) (hn : ¬r.Holds a n)
    (hk : ∀ c ∈ r.calls, c.application = a → c.number ≠ k) : Apart a r (enter r k b n).1 := by
  cases hh : (r.slotAt n).holder with
  | none =>
    rw [enter_of_free hh]
    exact (setSlot_apart hn _).trans (load_apart hb hk)
  | some j =>
    simp only [enter, hh]
    refine (setSlot_apart hn ⟨(r.slotAt n).entry, some j, (r.slotAt n).queue ++ [k]⟩).trans ?_
    refine ⟨rfl, rfl, Nat.le_refl _, fun _ => .rfl, fun _ _ => rfl, fun c hc => ?_⟩
    simp only [List.mem_append, List.mem_singleton]
    refine ⟨fun h => h.resolve_right ?_, .inl⟩
    rintro rfl
    exact hb hc

theorem news_enter (hb : b ≠ a) (n : Nat) : news a own (enter r k b n).2 = [] := by
  cases hh : (r.slotAt n).holder with
  | none =>
    rw [enter_of_free hh]
    exact news_asked_ne hb
  | some j =>
    rw [(enter_of_held hh k b).1]
    rfl

theorem settle_of_open (ho : r.closed = false) (c : Call) (e : Entry) :
    settle r c e = (r.dropCall c.number,
      [.counted (.cached r.cachedApplications), .returned c.number (.ok e)]) := by
  simp only [settle, dropCall, ho, Bool.false_eq_true, if_false]
  rfl

theorem settle_apart (hc : c.application ≠ a)
    (hk : ∀ d ∈ r.calls, d.application = a → d.number ≠ c.number) (e : Entry) :
    Apart a r (settle r c e).1 := by
  have hd := dropCall_apart hk
  unfold settle
  dsimp only
  split
  · exact (hd.trans (retire_apart hc _ c.slot)).trans
      ⟨rfl, rfl, Nat.le_refl _, fun _ => .rfl, fun _ _ => rfl, fun _ _ => .rfl⟩
  · exact hd

theorem news_settle (hk : c.number ∉ own) (e : Entry) : news a own (settle r c e).2 = [] := by
  unfold settle
  dsimp only
  split
  · exact news_returned_not_mem hk
  · exact news_returned_not_mem hk

theorem begin_apart (hkey : Keyed r) (ht : Tenancy r) (hf : k ∉ r.calls.map (·.number))
    (hb : b ≠ a) (hk : k ∉ own) :
    Apart a r (begin r k b).1 ∧ news a own (begin r k b).2 = [] := by
  have hnum : ∀ c ∈ r.calls, c.application = a → c.number ≠ k := by
    rintro c hc - rfl
    exact hf (List.mem_map_of_mem hc)
  have hbegan := begin_began hkey k b
  generalize begin r k b = x at hbegan
  cases hbegan with
  | refused => exact ⟨.refl a r, news_returned_not_mem hk⟩
  | found n e =>
    exact ⟨⟨rfl, rfl, Nat.le_refl _, fun _ => .rfl, fun _ _ => rfl, fun _ _ => .rfl⟩,
      news_returned_not_mem hk⟩
  | joined n _ hm =>
    have hn : ¬r.Holds a n := fun h => hb (ht.unique b a n (.inl hm) h)
    exact ⟨enter_apart hb hn hnum, news_enter hb n⟩
  | opened q _ hc =>
    have hq : Apart a r q := by
      rcases hc with rfl | ⟨n, e, _, _, _, rfl⟩
      · exact .refl a q
      · exact retire_apart hb r n
    have hg := hq.trans (grown_apart hb q)
    have hn : ¬(q.grown b).Holds a r.slots.length := by
      intro h
      exact Nat.lt_irrefl _ (ht.bound a _ (hg.holds.mp h))
    refine ⟨hg.trans (enter_apart hb hn fun c hc ha => hnum c ?_ ha), news_enter hb _⟩
    rw [← hg.calls c ha]
    exact hc

theorem fill_apart (ht : Tenancy r) (hm : c ∈ r.calls) (hc : c.application ≠ a)
    (hk : ∀ d ∈ r.calls, d.application = a → d.number ≠ c.number) (hown : c.number ∉ own)
    (rows : List Store.Integration) :
    Apart a r (fill r c rows).1 ∧ news a own (fill r c rows).2 = [] := by
  have hn : ¬r.Holds a c.slot := fun h => hc (ht.unique _ _ _ (holds_of_call hm) h)
  have hs : Apart a r (r.filledSlot c rows) :=
    (setSlot_apart hn _).trans
      ⟨rfl, rfl, Nat.le_refl _, fun _ => .rfl, fun _ _ => rfl, fun _ _ => .rfl⟩
  rw [fill_eq]
  refine ⟨hs.trans (settle_apart (r := r.filledSlot c rows) hc hk _), ?_⟩
  rw [news_append, news_fillCounts, news_loaded_not_mem hown, news_settle hown, List.append_nil]

theorem fail_apart (ht : Tenancy r) (hm : c ∈ r.calls) (hc : c.application ≠ a)
    (hk : ∀ d ∈ r.calls, d.application = a → d.number ≠ c.number) (hown : c.number ∉ own)
    (x : StorageError) : Apart a r (fail r c x).1 ∧ news a own (fail r c x).2 = [] := by
  have hn : ¬r.Holds a c.slot := fun h => hc (ht.unique _ _ _ (holds_of_call hm) h)
  have hs := setSlot_apart hn
    { r.slotAt c.slot with
      holder := (r.slotAt c.slot).queue.head?, queue := (r.slotAt c.slot).queue.tail }
  have hr := hs.trans (retire_apart hc _ c.slot)
  refine ⟨(hr.trans (dropCall_apart hk)).trans ?_, news_returned_not_mem hown⟩
  exact ⟨rfl, rfl, Nat.le_refl _, fun _ => .rfl, fun _ _ => rfl, fun _ _ => .rfl⟩

/-- A step that does not concern an application leaves it alone. -/
theorem step_apart (hkey : Keyed r) (ht : Tenancy r)
    (hf : ∀ k, s.begun? = some k → k ∉ r.calls.map (·.number))
    (hn : (r.calls.map (·.number)).Nodup) (hown : Owned own a r s) (hs : ¬Concerns r a s) :
    Apart a r (step r s).1 ∧ news a own (step r s).2 = [] := by
  have idle : Apart a r r ∧ news a own [] = [] := ⟨.refl a r, rfl⟩
  -- a call for another application has another number
  have other : ∀ c ∈ r.calls, c.application ≠ a →
      (∀ d ∈ r.calls, d.application = a → d.number ≠ c.number) ∧ c.number ∉ own := by
    intro c hc hca
    refine ⟨fun d hd hda he => hca ?_, fun h => hca (hown.called c hc h)⟩
    rw [← List.inj_on_of_nodup_map hn hd hc he]
    exact hda
  cases s with
  | begin k b => exact begin_apart hkey ht (hf k rfl) hs fun h => hs (hown.begun k b rfl h)
  | answer k found =>
    have hx := answer_answering r k found
    rw [step]
    generalize answer r k found = x at hx ⊢
    cases hx with
    | unasked => exact idle
    | fills c rows hm =>
      have hca : c.application ≠ a := fun h => hs ⟨c, hm, rfl, h⟩
      obtain ⟨hk, hko⟩ := other c hm hca
      exact fill_apart ht hm hca hk hko rows
    | fails c x hm =>
      have hca : c.application ≠ a := fun h => hs ⟨c, hm, rfl, h⟩
      obtain ⟨hk, hko⟩ := other c hm hca
      exact fail_apart ht hm hca hk hko x
  | wake k =>
    have hx := wake_waking r k
    rw [step]
    generalize wake r k = x at hx ⊢
    cases hx with
    | stays => exact idle
    | settles c e hm =>
      have hca : c.application ≠ a := fun h => hs ⟨c, hm, rfl, h⟩
      obtain ⟨hk, hko⟩ := other c hm hca
      exact ⟨settle_apart hca hk _, news_settle hko _⟩
    | loads c hm =>
      have hca : c.application ≠ a := fun h => hs ⟨c, hm, rfl, h⟩
      exact ⟨load_apart hca (other c hm hca).1, news_asked_ne hca⟩
  | invalidate b =>
    simp only [step, invalidate]
    split
    · refine ⟨⟨rfl, rfl, Nat.le_refl _, fun n => ?_, fun _ _ => rfl, fun _ _ => .rfl⟩, rfl⟩
      simp only [List.mem_filter, bne_iff_ne]
      exact ⟨And.left, fun h => ⟨h, Ne.symm hs⟩⟩
    · exact idle
  | invalidateAll => exact absurd trivial hs
  | close => exact absurd trivial hs
  | pass time =>
    exact ⟨⟨rfl, rfl, Nat.le_add_right _ _, fun _ => .rfl, fun _ _ => rfl, fun _ _ => .rfl⟩, rfl⟩

end Uplink.Registry
