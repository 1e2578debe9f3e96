import Uplink.Proofs.Registry.Steady

namespace Uplink.Registry

open Integration Store Time

variable {r q r' : Registry} {a b : Int64} {k m n : Nat} {c : Call} {e : Entry} {s : Step}
  {own : List Nat} {f : Nat → Nat}

def Hook.bare (h : Hook) : Hook := { h with number := 0 }

def Entry.bare (e : Entry) : Entry := { e with number := 0, hooks := e.hooks.map Hook.bare }

def Slot.bare (s : Slot) : Slot := { s with entry := s.entry.map Entry.bare }

/-- The call that is in a slot of another number. -/
def Call.moved (f : Nat → Nat) (c : Call) : Call := { c with slot := f c.slot }

/-- Results that are the same but for numbers. -/
inductive SameResult : Resolved → Resolved → Prop where
  | ok (e e' : Entry) (same : e.bare = e'.bare) : SameResult (.ok e) (.ok e')
  | error (x : ResolveError) : SameResult (.error x) (.error x)

/-- Outputs that say the same to an application, whose calls have these numbers, but for the
numbers of entries and webhooks and for what is counted. -/
inductive Output.Like (own : List Nat) : Output → Output → Prop where
  | counted (c c' : Count) : Like own (.counted c) (.counted c')
  | asked (k : Nat) (a : Int64) : Like own (.asked k a) (.asked k a)
  | loaded (k : Nat) (e e' : Entry) (same : e.bare = e'.bare) :
      Like own (.loaded k e) (.loaded k e')
  | returned (k : Nat) (mine : k ∈ own) (result result' : Resolved)
      (same : SameResult result result') : Like own (.returned k result) (.returned k result')

/-- What comes out of one registry and of another is the same to an application. -/
abbrev AlikeSaid (own : List Nat) (o o' : List Output) : Prop :=
  List.Forall₂ (Output.Like own) o o'

theorem buildAll_bare (m n : Nat) (rows : List Store.Integration) :
    (buildAll m rows).1.map Hook.bare = (buildAll n rows).1.map Hook.bare := by
  have hbare : ∀ hooks : List Hook,
      hooks.map Hook.bare = (hooks.map (·.endpoints)).map (⟨0, ·⟩) := by
    intro hooks
    rw [List.map_map]
    rfl
  rw [hbare, hbare, (buildAll_eq m rows).1, (buildAll_eq n rows).1]

theorem entryOf_bare (hn : r.now = q.now) (rows : List Store.Integration) :
    (r.entryOf rows).bare = (q.entryOf rows).bare := by
  simp only [Entry.bare, entryOf, buildAll_bare r.hooks q.hooks rows, (buildAll_eq _ rows).2, hn]

/-- Whether an entry is still good has nothing to do with numbers. -/
theorem isExpired_bare (ttl : Option Duration) (now : Duration) (e : Entry) :
    isExpired ttl now e.bare = isExpired ttl now e := rfl

/-- An application reaches the slot that it has in the cache and those that its calls are in. -/
def Reaches (own : List Nat) (a : Int64) (r : Registry) (n : Nat) : Prop :=
  r.cache.lookup a = some n ∨ ∃ k ∈ own, ∃ c, r.call? k = some c ∧ c.slot = n

/-- To an application, whose calls have these numbers, the first registry is as the second one, with
slots of other numbers. -/
structure Alike (own : List Nat) (a : Int64) (f : Nat → Nat) (r q : Registry) : Prop where
  closed : r.closed = q.closed
  ttl : r.ttl = q.ttl
  now : r.now = q.now
  cached : r.cache.lookup a = (q.cache.lookup a).map f
  calls : ∀ k ∈ own, r.call? k = (q.call? k).map (Call.moved f)
  slots : ∀ n, Reaches own a q n → (r.slotAt (f n)).bare = (q.slotAt n).bare
  /-- Slots that are two remain two. -/
  apart : ∀ m n, Reaches own a q m → Reaches own a q n → f m = f n → m = n

theorem Alike.reaches (h : Alike own a f r q) (hn : Reaches own a q n) :
    Reaches own a r (f n) := by
  rcases hn with hn | ⟨k, hk, c, hc, rfl⟩
  · exact .inl (by rw [h.cached, hn, Option.map_some])
  · exact .inr ⟨k, hk, c.moved f, by rw [h.calls k hk, hc, Option.map_some], rfl⟩

theorem reaches_holds (hown : ∀ c ∈ r.calls, c.number ∈ own → c.application = a)
    (hn : Reaches own a r n) : r.Holds a n := by
  rcases hn with hn | ⟨k, hk, c, hc, rfl⟩
  · exact .inl (mem_of_lookup hn)
  · obtain ⟨hm, rfl⟩ := call?_eq_some hc
    exact .inr ⟨c, hm, hown c hm hk, rfl⟩

theorem call?_dropCall (r : Registry) (j k : Nat) :
    (r.dropCall j).call? k = if k = j then none else r.call? k := by
  simp only [call?, dropCall, List.find?_filter]
  split
  · rename_i hk
    rw [List.find?_eq_none]
    intro c _
    simp [hk]
  · rename_i hk
    congr 1
    funext c
    by_cases hc : c.number = k <;> simp [hc, hk]

theorem call?_snoc (r : Registry) (c : Call) (k : Nat) :
    ({ r with calls := r.calls ++ [c] } : Registry).call? k =
      (r.call? k).or (if c.number = k then some c else none) := by
  simp only [call?, List.find?_append, List.find?_singleton, beq_iff_eq]

theorem call?_load (r : Registry) (c : Call) (k : Nat) :
    (load r c).1.call? k = if c.number = k then some { c with loading := true } else r.call? k := by
  have hd := call?_dropCall r c.number k
  have hs := call?_snoc (r.dropCall c.number) { c with loading := true } k
  refine hs.trans ?_
  rw [hd]
  by_cases hk : c.number = k
  · rw [if_pos hk, if_pos hk.symm, if_pos hk, Option.none_or]
  · rw [if_neg (fun h => hk h.symm), if_neg hk, if_neg hk, Option.or_none]

/-- An application may lose its slot in the cache. -/
theorem Alike.recached (h : Alike own a f r q) (cache cache' : List (Int64 × Nat))
    (hc : cache.lookup a = (cache'.lookup a).map f)
    (hq : ∀ n, cache'.lookup a = some n → q.cache.lookup a = some n) :
    Alike own a f { r with cache := cache } { q with cache := cache' } := by
  have hfewer : ∀ n, Reaches own a { q with cache := cache' } n → Reaches own a q n :=
    fun n hn => hn.imp_left (hq n)
  exact ⟨h.closed, h.ttl, h.now, hc, h.calls, fun n hn => h.slots n (hfewer n hn),
    fun m n hm hn => h.apart m n (hfewer m hm) (hfewer n hn)⟩

/-- The calls of the application may come and go, in slots that it reaches. -/
theorem Alike.recalled (h : Alike own a f r q) {calls calls' : List Call}
    (hc : ∀ k ∈ own, ({ r with calls := calls } : Registry).call? k =
      (({ q with calls := calls' } : Registry).call? k).map (Call.moved f))
    (hq : ∀ k ∈ own, ∀ c, ({ q with calls := calls' } : Registry).call? k = some c →
      Reaches own a q c.slot) :
    Alike own a f { r with calls := calls } { q with calls := calls' } := by
  have hfewer : ∀ n, Reaches own a { q with calls := calls' } n → Reaches own a q n := by
    rintro n (hn | ⟨k, hk, c, hc, rfl⟩)
    · exact .inl hn
    · exact hq k hk c hc
  exact ⟨h.closed, h.ttl, h.now, h.cached, hc, fun n hn => h.slots n (hfewer n hn),
    fun m n hm hn => h.apart m n (hfewer m hm) (hfewer n hn)⟩

/-- How far the numbers have come, what was released and what was counted is nothing to an
application. -/
theorem Alike.unseen (h : Alike own a f r q) {entries entries' hooks hooks' : Nat}
    {released released' : List Nat} {stats stats' : Stats} :
    Alike own a f
      { r with entries := entries, hooks := hooks, released := released, stats := stats }
      { q with entries := entries', hooks := hooks', released := released', stats := stats' } :=
  ⟨h.closed, h.ttl, h.now, h.cached, h.calls, h.slots, h.apart⟩

theorem setSlot_alike (h : Alike own a f r q) (hn : Reaches own a q n)
    (hr : f n < r.slots.length) (hq : n < q.slots.length) {x y : Slot} (hs : x.bare = y.bare) :
    Alike own a f (r.setSlot (f n) x) (q.setSlot n y) := by
  refine ⟨h.closed, h.ttl, h.now, h.cached, h.calls, fun m hm => ?_, h.apart⟩
  have hm : Reaches own a q m := hm
  rw [slotAt_setSlot, slotAt_setSlot]
  by_cases he : m = n
  · rw [if_pos ⟨congrArg f he, hr⟩, if_pos ⟨he, hq⟩, hs]
  · rw [if_neg fun hf => he (h.apart m n hm hn hf.1), if_neg fun hf => he hf.1, h.slots m hm]

theorem dropCall_alike (h : Alike own a f r q) (k : Nat) :
    Alike own a f (r.dropCall k) (q.dropCall k) := by
  refine h.recalled (fun j hj => ?_) fun j hj c hc => ?_
  · refine (call?_dropCall r k j).trans (.trans ?_ (congrArg _ (call?_dropCall q k j).symm))
    split
    · rfl
    · exact h.calls j hj
  · have hc := (call?_dropCall q k j).symm.trans hc
    split at hc
    · cases hc
    · exact .inr ⟨j, hj, c, hc, rfl⟩

/-- A call comes into flight, in a slot that the application reaches. -/
theorem join_alike (h : Alike own a f r q) (hn : Reaches own a q c.slot)
    (hq : q.call? c.number = none) :
    Alike own a f { r with calls := r.calls ++ [c.moved f] }
      { q with calls := q.calls ++ [c] } := by
  refine h.recalled (fun j hj => ?_) fun j hj d hd => ?_
  · rw [call?_snoc, call?_snoc, h.calls j hj]
    have hnumber : (c.moved f).number = c.number := rfl
    rw [hnumber]
    by_cases hk : c.number = j
    · rw [← hk, hq, if_pos rfl, if_pos rfl]
      rfl
    · rw [if_neg hk, if_neg hk, Option.or_none, Option.or_none]
  · rw [call?_snoc] at hd
    rcases Option.or_eq_some_iff.mp hd with hold | ⟨-, hnew⟩
    · exact .inr ⟨j, hj, d, hold, rfl⟩
    · split at hnew
      · cases hnew
        exact hn
      · cases hnew

theorem load_alike (h : Alike own a f r q) (hn : Reaches own a q c.slot) :
    Alike own a f (load r (c.moved f)).1 (load q c).1 := by
  suffices hcalls : Alike own a f { r with calls := (load r (c.moved f)).1.calls }
      { q with calls := (load q c).1.calls } from hcalls.unseen
  refine h.recalled (fun j hj => ?_) fun j hj d hd => ?_
  · refine (call?_load r (c.moved f) j).trans (.trans ?_ (congrArg _ (call?_load q c j).symm))
    have hnumber : (c.moved f).number = c.number := rfl
    rw [hnumber]
    split
    · rfl
    · exact h.calls j hj
  · have hd := (call?_load q c j).symm.trans hd
    split at hd
    · cases hd
      exact hn
    · exact .inr ⟨j, hj, d, hd, rfl⟩

theorem Keyed.lookup (h : Keyed r) (hm : (a, n) ∈ r.cache) : r.cache.lookup a = some n := by
  cases hl : r.cache.lookup a with
  | none => exact absurd hm (not_cached_of_lookup hl)
  | some m => rw [h a m n (mem_of_lookup hl) hm]

theorem lookup_retire (h : Keyed r) (a : Int64) (n : Nat) :
    (r.retire a n).cache.lookup a =
      if r.cache.lookup a = some n then none else r.cache.lookup a := by
  split
  · rename_i hl
    exact lookup_of_not_cached (retire_absent h (mem_of_lookup hl))
  · rename_i hne
    cases hl : r.cache.lookup a with
    | none => exact lookup_of_not_cached fun m hm => not_cached_of_lookup hl (mem_retire.mp hm).1
    | some m =>
      have hkeyed : Keyed (r.retire a n) := h.of_fewer fun x hx => (mem_retire.mp hx).1
      refine hkeyed.lookup (mem_retire.mpr ⟨mem_of_lookup hl, fun hm => hne ?_⟩)
      rw [hl, hm.2]

theorem retire_alike (h : Alike own a f r q) (hr : Keyed r) (hq : Keyed q)
    (hn : Reaches own a q n) : Alike own a f (r.retire a (f n)) (q.retire a n) := by
  refine h.recached (r.retire a (f n)).cache (q.retire a n).cache ?_ ?_
  · rw [lookup_retire hr, lookup_retire hq, h.cached]
    cases hl : q.cache.lookup a with
    | none => rfl
    | some m =>
      have hm : f m = f n ↔ m = n := ⟨h.apart m n (.inl hl) hn, congrArg f⟩
      simp only [Option.map_some, Option.some.injEq, hm]
      split <;> rfl
  · intro m hm
    rw [lookup_retire hq] at hm
    split at hm
    · cases hm
    · exact hm

/-- Both open a slot, each under its own next number. -/
theorem grown_alike (h : Alike own a f r q) (hl : q.cache.lookup a = none)
    (hr : ∀ n, Reaches own a r n → n < r.slots.length)
    (hq : ∀ n, Reaches own a q n → n < q.slots.length) :
    Alike own a (Function.update f q.slots.length r.slots.length) (r.grown a) (q.grown a) := by
  have hlookup : ∀ x : Registry, x.cache.lookup a = none →
      (x.grown a).cache.lookup a = some x.slots.length := by
    intro x hx
    simp [grown, List.lookup_append, hx]
  have hnew : Function.update f q.slots.length r.slots.length q.slots.length = r.slots.length :=
    Function.update_self ..
  have hold : ∀ n, Reaches own a q n →
      Function.update f q.slots.length r.slots.length n = f n := fun n hn =>
    Function.update_of_ne (Nat.ne_of_lt (hq n hn)) ..
  have hcases : ∀ n, Reaches own a (q.grown a) n → n = q.slots.length ∨ Reaches own a q n := by
    rintro n (hn | hn)
    · rw [hlookup q hl, Option.some.injEq] at hn
      exact .inl hn.symm
    · exact .inr (.inr hn)
  refine ⟨h.closed, h.ttl, h.now, ?_, fun k hk => ?_, fun n hn => ?_, fun m n hm hn he => ?_⟩
  · rw [hlookup q hl, hlookup r (by rw [h.cached, hl, Option.map_none]), Option.map_some, hnew]
  · refine (h.calls k hk).trans (Option.map_congr fun c hc => ?_)
    have hslot := hold c.slot (.inr ⟨k, hk, c, hc, rfl⟩)
    simp only [Call.moved, hslot]
  · rw [grown_slotAt, grown_slotAt]
    rcases hcases n hn with rfl | hn
    · rw [hnew, slotAt_of_length_le (Nat.le_refl _), slotAt_of_length_le (Nat.le_refl _)]
    · rw [hold n hn]
      exact h.slots n hn
  · have hlt : ∀ n, Reaches own a q n → f n < r.slots.length := fun n hn => hr _ (h.reaches hn)
    rcases hcases m hm with rfl | hm <;> rcases hcases n hn with rfl | hn
    · rfl
    · rw [hnew, hold n hn] at he
      exact absurd he.symm (Nat.ne_of_lt (hlt n hn))
    · rw [hnew, hold m hm] at he
      exact absurd he (Nat.ne_of_lt (hlt m hm))
    · rw [hold m hm, hold n hn] at he
      exact h.apart m n hm hn he

theorem Alike.holder (h : Alike own a f r q) (hn : Reaches own a q n) :
    (r.slotAt (f n)).holder = (q.slotAt n).holder := by
  have hs := congrArg Slot.holder (h.slots n hn)
  exact hs

theorem Alike.queue (h : Alike own a f r q) (hn : Reaches own a q n) :
    (r.slotAt (f n)).queue = (q.slotAt n).queue := by
  have hs := congrArg Slot.queue (h.slots n hn)
  exact hs

theorem Alike.entry (h : Alike own a f r q) (hn : Reaches own a q n) :
    (r.slotAt (f n)).entry.map Entry.bare = (q.slotAt n).entry.map Entry.bare :=
  congrArg Slot.entry (h.slots n hn)

theorem enter_alike (h : Alike own a f r q) (hl : q.cache.lookup a = some n)
    (hr : f n < r.slots.length) (hq : n < q.slots.length) (hk : q.call? k = none) :
    Alike own a f (enter r k a (f n)).1 (enter q k a n).1 ∧
      AlikeSaid own (enter r k a (f n)).2 (enter q k a n).2 := by
  have hn : Reaches own a q n := .inl hl
  have hentry := h.entry hn
  cases hh : (q.slotAt n).holder with
  | none =>
    rw [enter_of_free hh, enter_of_free ((h.holder hn).trans hh)]
    refine ⟨load_alike (c := ⟨k, a, n, false⟩) (setSlot_alike h hn hr hq ?_) hn, ?_⟩
    · simp only [Slot.bare, h.entry hn, h.queue hn]
    · exact .cons (.counted _ _) (.cons (.asked k a) .nil)
  | some j =>
    simp only [enter, hh, h.holder hn]
    refine ⟨join_alike (c := ⟨k, a, n, false⟩) (setSlot_alike h hn hr hq ?_) hn hk, .nil⟩
    simp only [Slot.bare, h.entry hn, h.queue hn]

theorem Ready.bound (h : Ready own a r s) (hn : Reaches own a r n) : n < r.slots.length :=
  h.tenancy.bound a n (reaches_holds h.owned.called hn)

theorem call?_eq_none (h : k ∉ r.calls.map (·.number)) : r.call? k = none := by
  refine List.find?_eq_none.mpr fun c hc he => h ?_
  rw [← beq_iff_eq.mp he]
  exact List.mem_map_of_mem hc

/-- A call enters the slot that both open for it. -/
theorem opened_alike (h : Alike own a f r q) (hl : q.cache.lookup a = none)
    (hr : ∀ n, Reaches own a r n → n < r.slots.length)
    (hq : ∀ n, Reaches own a q n → n < q.slots.length) (hk : q.call? k = none) :
    ∃ g, Alike own a g (enter (r.grown a) k a r.slots.length).1
        (enter (q.grown a) k a q.slots.length).1 ∧
      AlikeSaid own (enter (r.grown a) k a r.slots.length).2
        (enter (q.grown a) k a q.slots.length).2 := by
  have hnew : Function.update f q.slots.length r.slots.length q.slots.length = r.slots.length :=
    Function.update_self ..
  have hlookup : (q.grown a).cache.lookup a = some q.slots.length := by
    simp [grown, List.lookup_append, hl]
  have henter := enter_alike (grown_alike h hl hr hq) hlookup (k := k) (by simp) (by simp) hk
  rw [hnew] at henter
  exact ⟨_, henter⟩

theorem begin_alike (h : Alike own a f r q) (hr : Ready own a r (.begin k a))
    (hq : Ready own a q (.begin k a)) (hk : k ∈ own) :
    ∃ g, Alike own a g (begin r k a).1 (begin q k a).1 ∧
      AlikeSaid own (begin r k a).2 (begin q k a).2 := by
  have hfresh := call?_eq_none (hq.fresh k rfl)
  cases hc : q.closed with
  | true =>
    rw [begin_of_closed hc, begin_of_closed (h.closed.trans hc)]
    exact ⟨f, h, .cons (.returned k hk _ _ (.error .closed)) .nil⟩
  | false =>
    have hc' := h.closed.trans hc
    cases hl : q.cache.lookup a with
    | none =>
      have hl' : r.cache.lookup a = none := by rw [h.cached, hl, Option.map_none]
      rw [begin_of_absent hc hl, begin_of_absent hc' hl']
      exact opened_alike h hl (fun n hn => hr.bound hn) (fun n hn => hq.bound hn) hfresh
    | some n =>
      have hn : Reaches own a q n := .inl hl
      have hl' : r.cache.lookup a = some (f n) := by rw [h.cached, hl, Option.map_some]
      have hentry := h.entry hn
      cases he : (q.slotAt n).entry with
      | none =>
        rw [he, Option.map_none, Option.map_eq_none_iff] at hentry
        rw [begin_of_empty hc hl he, begin_of_empty hc' hl' hentry]
        exact ⟨f, enter_alike h hl (hr.bound (h.reaches hn)) (hq.bound hn) hfresh⟩
      | some e =>
        rw [he, Option.map_some, Option.map_eq_some_iff] at hentry
        obtain ⟨e', he', hsame⟩ := hentry
        have hexp : isExpired r.ttl r.now e' = isExpired q.ttl q.now e := by
          rw [← isExpired_bare, hsame, isExpired_bare, h.ttl, h.now]
        cases hx : isExpired q.ttl q.now e with
        | false =>
          rw [begin_of_good hc hl he hx, begin_of_good hc' hl' he' (hexp.trans hx)]
          exact ⟨f, h.unseen, .cons (.counted _ _) (.cons (.returned k hk _ _ (.ok e' e hsame)) .nil)⟩
        | true =>
          rw [begin_of_stale hq.keyed hc hl he hx,
            begin_of_stale hr.keyed hc' hl' he' (hexp.trans hx)]
          have hgone : (q.retire a n).cache.lookup a = none := by
            rw [lookup_retire hq.keyed, if_pos hl]
          have hgone' : (r.retire a (f n)).cache.lookup a = none := by
            rw [lookup_retire hr.keyed, if_pos hl']
          refine opened_alike (retire_alike h hr.keyed hq.keyed hn) hgone (fun m hm => hr.bound ?_)
            (fun m hm => hq.bound ?_) hfresh
          · exact .inr (hm.resolve_left (by simp [hgone']))
          · exact .inr (hm.resolve_left (by simp [hgone]))

/-- A call returns what is in its slot, which is the same in both. -/
theorem settle_alike (h : Alike own a f r q) (hr : Keyed r) (hq : Keyed q)
    (hn : Reaches own a q c.slot) (hk : c.number ∈ own) (ha : c.application = a) {e e' : Entry}
    (he : e.bare = e'.bare) :
    Alike own a f (settle r (c.moved f) e).1 (settle q c e').1 ∧
      AlikeSaid own (settle r (c.moved f) e).2 (settle q c e').2 := by
  have hd := dropCall_alike h c.number
  cases hc : q.closed with
  | true =>
    have hretire := dropCall_alike (retire_alike h hr hq hn) c.number
    have hr' : settle r (c.moved f) e =
        (((r.dropCall c.number).retire c.application (f c.slot)).release e,
          [.returned c.number (.error .closed)]) := by
      simp [settle, dropCall, h.closed, hc, Call.moved]
    have hq' : settle q c e' =
        (((q.dropCall c.number).retire c.application c.slot).release e',
          [.returned c.number (.error .closed)]) := by
      simp [settle, dropCall, hc]
    rw [hr', hq', ha]
    exact ⟨hretire.unseen, .cons (.returned _ hk _ _ (.error .closed)) .nil⟩
  | false =>
    rw [settle_of_open hc, settle_of_open (h.closed.trans hc)]
    exact ⟨hd, .cons (.counted _ _) (.cons (.returned _ hk _ _ (.ok e e' he)) .nil)⟩

theorem fillCounts_like (r q : Registry) (rows : List Store.Integration) :
    AlikeSaid own (r.fillCounts rows) (q.fillCounts rows) := by
  have hsame : r.fillCounts rows = q.fillCounts rows := by
    simp only [fillCounts, (buildAll_eq _ rows).2]
  rw [hsame]
  refine List.forall₂_same.mpr fun x hx => ?_
  obtain ⟨y, rfl⟩ := mem_fillCounts hx
  exact .counted y y

theorem fill_alike (h : Alike own a f r q) (hr : Ready own a r s) (hq : Ready own a q s)
    (hn : Reaches own a q c.slot) (hk : c.number ∈ own) (ha : c.application = a)
    (rows : List Store.Integration) :
    Alike own a f (fill r (c.moved f) rows).1 (fill q c rows).1 ∧
      AlikeSaid own (fill r (c.moved f) rows).2 (fill q c rows).2 := by
  have he : (r.entryOf rows).bare = (q.entryOf rows).bare := entryOf_bare h.now rows
  have hset : Alike own a f (r.filledSlot (c.moved f) rows) (q.filledSlot c rows) := by
    have hslot := setSlot_alike h hn (hr.bound (h.reaches hn)) (hq.bound hn)
      (x := { r.slotAt (f c.slot) with entry := some (r.entryOf rows), holder := none })
      (y := { q.slotAt c.slot with entry := some (q.entryOf rows), holder := none })
      (by simp only [Slot.bare, Option.map_some, he, h.queue hn])
    exact hslot.unseen
  obtain ⟨hsettle, hsaid⟩ := settle_alike hset hr.keyed hq.keyed hn hk ha he
  rw [fill_eq, fill_eq]
  exact ⟨hsettle, List.rel_append (fillCounts_like r q rows) (.cons (.loaded _ _ _ he) hsaid)⟩

theorem fail_alike (h : Alike own a f r q) (hr : Ready own a r s) (hq : Ready own a q s)
    (hn : Reaches own a q c.slot) (hk : c.number ∈ own) (ha : c.application = a)
    (x : StorageError) :
    Alike own a f (fail r (c.moved f) x).1 (fail q c x).1 ∧
      AlikeSaid own (fail r (c.moved f) x).2 (fail q c x).2 := by
  have hset := setSlot_alike h hn (hr.bound (h.reaches hn)) (hq.bound hn)
    (x := { r.slotAt (f c.slot) with
      holder := (r.slotAt (f c.slot)).queue.head?, queue := (r.slotAt (f c.slot)).queue.tail })
    (y := { q.slotAt c.slot with
      holder := (q.slotAt c.slot).queue.head?, queue := (q.slotAt c.slot).queue.tail })
    (by simp only [Slot.bare, h.entry hn, h.queue hn])
  have hdrop := dropCall_alike (retire_alike hset hr.keyed hq.keyed hn) c.number
  rw [← ha] at hdrop ⊢
  exact ⟨hdrop.unseen, .cons (.counted _ _) (.cons (.returned _ hk _ _ (.error (.storage x))) .nil)⟩

theorem answer_alike (h : Alike own a f r q) (hr : Ready own a r s) (hq : Ready own a q s)
    (hk : k ∈ own) (found : Lookup) :
    Alike own a f (answer r k found).1 (answer q k found).1 ∧
      AlikeSaid own (answer r k found).2 (answer q k found).2 := by
  have hcall := h.calls k hk
  cases hc : q.call? k with
  | none =>
    rw [hc, Option.map_none] at hcall
    simp only [answer, hc, hcall]
    exact ⟨h, .nil⟩
  | some c =>
    rw [hc, Option.map_some] at hcall
    have hn : Reaches own a q c.slot := .inr ⟨k, hk, c, hc, rfl⟩
    obtain ⟨hm, rfl⟩ := call?_eq_some hc
    have ha := hq.owned.called c hm hk
    have hloading : (c.moved f).loading = c.loading := rfl
    simp only [answer, hc, hcall, hloading]
    split
    · cases found with
      | ok rows => exact fill_alike h hr hq hn hk ha rows
      | error x => exact fail_alike h hr hq hn hk ha x
    · exact ⟨h, .nil⟩

theorem wake_alike (h : Alike own a f r q) (hr : Ready own a r s) (hq : Ready own a q s)
    (hk : k ∈ own) :
    Alike own a f (wake r k).1 (wake q k).1 ∧ AlikeSaid own (wake r k).2 (wake q k).2 := by
  have hcall := h.calls k hk
  cases hc : q.call? k with
  | none =>
    rw [hc, Option.map_none] at hcall
    simp only [wake, hc, hcall]
    exact ⟨h, .nil⟩
  | some c =>
    rw [hc, Option.map_some] at hcall
    have hn : Reaches own a q c.slot := .inr ⟨k, hk, c, hc, rfl⟩
    obtain ⟨hm, rfl⟩ := call?_eq_some hc
    have ha := hq.owned.called c hm hk
    have hentry := h.entry hn
    have hloading : (c.moved f).loading = c.loading := rfl
    have hslot : (c.moved f).slot = f c.slot := rfl
    simp only [wake, hc, hcall, hloading, hslot, h.holder hn]
    split
    · exact ⟨h, .nil⟩
    · cases he : (q.slotAt c.slot).entry with
      | none =>
        rw [he, Option.map_none, Option.map_eq_none_iff] at hentry
        rw [hentry]
        dsimp only
        split
        · exact ⟨load_alike h hn, .cons (.counted _ _) (.cons (.asked _ _) .nil)⟩
        · exact ⟨h, .nil⟩
      | some e =>
        rw [he, Option.map_some, Option.map_eq_some_iff] at hentry
        obtain ⟨e', he', hsame⟩ := hentry
        rw [he']
        exact settle_alike h hr.keyed hq.keyed hn hk ha hsame

theorem invalidate_alike (h : Alike own a f r q) :
    Alike own a f (invalidate r a).1 (invalidate q a).1 ∧
      AlikeSaid own (invalidate r a).2 (invalidate q a).2 := by
  have hgone : ∀ x : Registry, (x.cache.filter (·.1 != a)).lookup a = none := by
    intro x
    rw [List.lookup_eq_none_iff]
    intro y hy
    rw [bne_comm]
    exact (List.mem_filter.mp hy).2
  have hsome : (r.cache.lookup a).isSome = (q.cache.lookup a).isSome := by
    rw [h.cached, Option.isSome_map]
  simp only [invalidate, hsome]
  split
  · refine ⟨h.recached _ _ ?_ fun n hn => ?_, .cons (.counted _ _) .nil⟩
    · rw [hgone, hgone, Option.map_none]
    · rw [hgone] at hn
      cases hn
  · exact ⟨h, .nil⟩

theorem close_alike (h : Alike own a f r q) :
    Alike own a f (close r).1 (close q).1 ∧ AlikeSaid own (close r).2 (close q).2 := by
  simp only [close, h.closed]
  split
  · exact ⟨h, .nil⟩
  · have hempty := h.recached [] [] rfl (by simp)
    rw [foldl_release, foldl_release]
    exact ⟨⟨rfl, hempty.ttl, hempty.now, rfl, hempty.calls, hempty.slots, hempty.apart⟩,
      .cons (.counted _ _) .nil⟩

/-- A step for an application, whose calls have these numbers, or for all. -/
def Step.For (own : List Nat) (a : Int64) : Step → Prop
  | .begin k b => k ∈ own ∧ b = a
  | .answer k _ | .wake k => k ∈ own
  | .invalidate b => b = a
  | .invalidateAll | .close | .pass _ => True

/-- A step for an application, made in both, leaves them alike. -/
theorem step_alike (h : Alike own a f r q) (hr : Ready own a r s) (hq : Ready own a q s)
    (hs : s.For own a) :
    ∃ g, Alike own a g (step r s).1 (step q s).1 ∧ AlikeSaid own (step r s).2 (step q s).2 := by
  cases s with
  | begin k b =>
    obtain ⟨hk, rfl⟩ : k ∈ own ∧ b = a := hs
    exact begin_alike h hr hq hk
  | answer k found => exact ⟨f, answer_alike h hr hq hs found⟩
  | wake k => exact ⟨f, wake_alike h hr hq hs⟩
  | invalidate b =>
    obtain rfl : b = a := hs
    exact ⟨f, invalidate_alike h⟩
  | invalidateAll =>
    exact ⟨f, h.recached [] [] rfl (by simp),
      .cons (.counted _ _) .nil⟩
  | close => exact ⟨f, close_alike h⟩
  | pass time =>
    refine ⟨f, ⟨h.closed, h.ttl, ?_, h.cached, h.calls, h.slots, h.apart⟩, .nil⟩
    simp only [step, pass, h.now]

/-- No time passes with a step for others, unless it is for all. -/
theorem now_of_unconcerned (hk : Keyed r) (hs : ¬Concerns r a s) (hp : ∀ time, s ≠ .pass time) :
    (step r s).1.now = r.now := by
  cases s with
  | begin | answer | wake => exact (step_still hk rfl).2
  | invalidate b =>
    simp only [step, invalidate]
    split <;> rfl
  | invalidateAll | close => exact absurd trivial hs
  | pass time => exact absurd rfl (hp time)

/-- A step for others, made in one, leaves them alike. -/
theorem step_unlike (h : Alike own a f r q) (hr : Ready own a r s) (hs : ¬Concerns r a s)
    (hp : ∀ time, s ≠ .pass time) (hn : ((step r s).1.calls.map (·.number)).Nodup) :
    Alike own a f (step r s).1 q ∧ news a own (step r s).2 = [] := by
  obtain ⟨hap, hnews⟩ := hr.apart hs
  have hkeyed : Keyed (step r s).1 := step_keyed hr.keyed s
  have hcache : (step r s).1.cache.lookup a = r.cache.lookup a := by
    cases hl : r.cache.lookup a with
    | none => exact lookup_of_not_cached fun n hn => not_cached_of_lookup hl ((hap.cached n).mp hn)
    | some n => exact hkeyed.lookup ((hap.cached n).mpr (mem_of_lookup hl))
  have howned : ∀ c ∈ (step r s).1.calls, c.number ∈ own → c.application = a := by
    intro c hc hown
    rcases (step_evolves r s).called c hc with ⟨b, hb, hnum, happ, -⟩ | ⟨hbegin, -, -⟩
    · exact happ ▸ hr.owned.called b hb (hnum ▸ hown)
    · exact hr.owned.begun _ _ hbegin hown
  have hcalls : ∀ k ∈ own, (step r s).1.call? k = r.call? k := by
    intro k hk
    cases hc : r.call? k with
    | some c =>
      obtain ⟨hm, rfl⟩ := call?_eq_some hc
      exact call?_of_mem hn ((hap.calls c (hr.owned.called c hm hk)).mpr hm)
    | none =>
      cases hc' : (step r s).1.call? k with
      | none => rfl
      | some c =>
        obtain ⟨hm, rfl⟩ := call?_eq_some hc'
        have hold := (hap.calls c (howned c hm hk)).mp hm
        rw [call?_of_mem hr.numbers hold] at hc
        cases hc
  refine ⟨⟨hap.closed.trans h.closed, hap.ttl.trans h.ttl,
    (now_of_unconcerned hr.keyed hs hp).trans h.now, hcache.trans h.cached,
    fun k hk => (hcalls k hk).trans (h.calls k hk), fun n hn => ?_, h.apart⟩, hnews⟩
  rw [hap.slot _ (reaches_holds hr.owned.called (h.reaches hn))]
  exact h.slots n hn

end Uplink.Registry
