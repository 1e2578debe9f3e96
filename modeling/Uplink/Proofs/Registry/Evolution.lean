import Uplink.Proofs.Collect
import Uplink.Registry.Step

namespace Uplink.Registry

open Integration Store Time

variable {r q r' : Registry} {a b : Int64} {k m n : Nat} {e : Entry}

theorem run_snoc (r : Registry) (steps : List Step) (s : Step) :
    run r (steps ++ [s]) =
      ((step (run r steps).1 s).1, (run r steps).2 ++ (step (run r steps).1 s).2) :=
  collect_snoc step r steps s

theorem run_append (r : Registry) (xs ys : List Step) :
    run r (xs ++ ys) = ((run (run r xs).1 ys).1, (run r xs).2 ++ (run (run r xs).1 ys).2) :=
  collect_append step r xs ys

theorem run_cons (r : Registry) (s : Step) (steps : List Step) :
    run r (s :: steps) =
      ((run (step r s).1 steps).1, (step r s).2 ++ (run (step r s).1 steps).2) :=
  collect_cons step r s steps

theorem mem_run {o : Output} {steps : List Step} (h : o ∈ (run r steps).2) :
    ∃ before s after, steps = before ++ s :: after ∧ o ∈ (step (run r before).1 s).2 :=
  mem_collect (f := step) h

theorem slotAt_setSlot (r : Registry) (m n : Nat) (s : Slot) :
    (r.setSlot m s).slotAt n = if n = m ∧ m < r.slots.length then s else r.slotAt n := by
  simp only [slotAt, setSlot, List.getD_eq_getElem?_getD, List.getElem?_set]
  by_cases hm : m = n
  · subst hm
    by_cases hl : m < r.slots.length <;> simp [hl]
  · simp [hm, Ne.symm hm]

/-- A slot that keeps its entry changes no entry. -/
theorem entry_setSlot {s : Slot} (h : s.entry = (r.slotAt m).entry) (n : Nat) :
    ((r.setSlot m s).slotAt n).entry = (r.slotAt n).entry := by
  rw [slotAt_setSlot]
  split
  · rename_i hn
    rw [h, hn.1]
  · rfl

/-- A slot that does not exist yet is as good as a new one. -/
theorem slotAt_of_length_le (h : r.slots.length ≤ n) : r.slotAt n = .fresh := by
  simp only [slotAt, List.getD_eq_getElem?_getD, List.getElem?_eq_none h, Option.getD_none]

theorem slotAt_snoc (r : Registry) (cache : List (Int64 × Nat)) (n : Nat) :
    ({ r with cache := cache, slots := r.slots ++ [.fresh] } : Registry).slotAt n =
      r.slotAt n := by
  simp only [slotAt, List.getD_eq_getElem?_getD]
  by_cases hn : n < r.slots.length
  · rw [List.getElem?_append_left hn]
  · rw [List.getElem?_append_right (by omega), List.getElem?_eq_none (by omega : _ ≤ n)]
    cases n - r.slots.length <;> rfl

/-- From `r` to `q` nothing happened but that `n` is now the slot of an application, perhaps a new
one, and that other slots may have left the cache. -/
structure Opened (r : Registry) (a : Int64) (q : Registry) (n : Nat) : Prop where
  same : q = { r with cache := q.cache, slots := q.slots }
  length : r.slots.length ≤ q.slots.length
  slot : ∀ m, q.slotAt m = r.slotAt m
  cached : ∀ b m, (b, m) ∈ q.cache →
    (b, m) ∈ r.cache ∨ b = a ∧ m = r.slots.length ∧ m < q.slots.length
  own : (a, n) ∈ q.cache

theorem Opened.calls (h : Opened r a q n) : q.calls = r.calls := by rw [h.same]

theorem obtain_of_some (h : r.cache.lookup a = some n) : r.obtain a = (r, n) := by
  simp only [obtain, h]

theorem obtain_of_none (h : r.cache.lookup a = none) :
    r.obtain a = ({ r with
      cache := r.cache ++ [(a, r.slots.length)], slots := r.slots ++ [.fresh] },
      r.slots.length) := by
  simp only [obtain, h]

theorem obtain_opened (r : Registry) (a : Int64) : Opened r a (r.obtain a).1 (r.obtain a).2 := by
  cases h : r.cache.lookup a with
  | some n =>
    rw [obtain_of_some h]
    exact ⟨rfl, Nat.le_refl _, fun _ => rfl, fun _ _ h => .inl h, mem_of_lookup h⟩
  | none =>
    rw [obtain_of_none h]
    refine ⟨rfl, by simp, slotAt_snoc r _, ?_, by simp⟩
    intro b m hm
    rcases List.mem_append.mp hm with hm | hm
    · exact .inl hm
    · rw [List.mem_singleton, Prod.mk.injEq] at hm
      exact .inr ⟨hm.1, hm.2, by simp [hm.2]⟩

/-- Only a slot that was there before has an entry. -/
theorem obtain_of_entry (h : ((r.obtain a).1.slotAt (r.obtain a).2).entry = some e) :
    (r.obtain a).1 = r := by
  cases hl : r.cache.lookup a with
  | some n => rw [obtain_of_some hl]
  | none =>
    rw [(obtain_opened r a).slot, obtain_of_none hl, slotAt_of_length_le (Nat.le_refl _)] at h
    cases h

theorem mem_retire : (a, n) ∈ (r.retire b m).cache ↔ (a, n) ∈ r.cache ∧ ¬(a = b ∧ n = m) := by
  simp only [retire, List.mem_filter, Bool.not_eq_true', Bool.and_eq_false_imp, beq_iff_eq,
    beq_eq_false_iff_ne, ne_eq, not_and]

/-- It makes no difference when an old slot is taken out of the cache before. -/
theorem Opened.of_retire (h : Opened (r.retire b m) a q n) : Opened r a q n where
  same := h.same
  length := h.length
  slot := h.slot
  cached c i hc := (h.cached c i hc).imp (fun hm => (mem_retire.mp hm).1) id
  own := h.own

/-- What a step that puts out `o` may change. -/
structure Evolves (r : Registry) (s : Step) (r' : Registry) (o : List Output) : Prop where
  length : r.slots.length ≤ r'.slots.length
  cached : ∀ a n, (a, n) ∈ r'.cache →
    (a, n) ∈ r.cache ∨ n = r.slots.length ∧ n < r'.slots.length ∧ ∃ k, s = .begin k a
  /-- A call was there before, or it is the one that begins. -/
  called : ∀ c ∈ r'.calls,
    (∃ b ∈ r.calls, b.number = c.number ∧ b.application = c.application ∧ b.slot = c.slot ∧
      (c.loading = true → b.loading = true ∨ .asked c.number c.application ∈ o)) ∨
    (s = .begin c.number c.application ∧ (c.application, c.slot) ∈ r'.cache ∧
      (c.loading = true → .asked c.number c.application ∈ o))
  filled : ∀ n e, (r'.slotAt n).entry = some e →
    (r.slotAt n).entry = some e ∨
      ∃ c ∈ r.calls, c.slot = n ∧ c.loading = true ∧ .loaded c.number e ∈ o
  returned : ∀ k e, .returned k (.ok e) ∈ o → r.closed = false ∧
    ((∃ a n, s = .begin k a ∧ (a, n) ∈ r.cache ∧ (r.slotAt n).entry = some e) ∨
      ∃ c ∈ r.calls, c.number = k ∧
        ((r.slotAt c.slot).entry = some e ∨ c.loading = true ∧ .loaded k e ∈ o))

/-- A step that neither makes slots nor fills them, nor begins a call, nor returns an entry. -/
theorem Evolves.of_fewer {s : Step} {o : List Output} (hs : r'.slots.length = r.slots.length)
    (he : ∀ n, (r'.slotAt n).entry = (r.slotAt n).entry)
    (hc : ∀ x ∈ r'.cache, x ∈ r.cache) (hk : ∀ c ∈ r'.calls, c ∈ r.calls)
    (hr : ∀ k e, .returned k (.ok e) ∉ o) : Evolves r s r' o where
  length := Nat.le_of_eq hs.symm
  cached a n h := .inl (hc (a, n) h)
  called c h := .inl ⟨c, hk c h, rfl, rfl, rfl, .inl⟩
  filled n e h := .inl (by rw [← he]; exact h)
  returned k e h := absurd h (hr k e)

/-- A call begins in an open slot. -/
theorem Evolves.of_opened {o : List Output} (h : Opened r a q n)
    (hs : r'.slots.length = q.slots.length) (he : ∀ m, (r'.slotAt m).entry = (q.slotAt m).entry)
    (hc : r'.cache = q.cache)
    (hk : ∀ c ∈ r'.calls, c ∈ q.calls ∨ c.number = k ∧ c.application = a ∧ c.slot = n ∧
      (c.loading = true → .asked k a ∈ o))
    (hr : ∀ k e, .returned k (.ok e) ∉ o) : Evolves r (.begin k a) r' o where
  length := by rw [hs]; exact h.length
  cached b m hm := by
    rw [hc] at hm
    rcases h.cached b m hm with hm | ⟨rfl, hm, hl⟩
    · exact .inl hm
    · exact .inr ⟨hm, by rw [hs]; exact hl, k, rfl⟩
  called c hm := by
    rcases hk c hm with hm | ⟨hn, ha, hsl, hl⟩
    · rw [h.calls] at hm
      exact .inl ⟨c, hm, rfl, rfl, rfl, .inl⟩
    · subst hn ha hsl
      exact .inr ⟨rfl, by rw [hc]; exact h.own, hl⟩
  filled m e hm := .inl (by rw [← h.slot, ← he]; exact hm)
  returned k e hm := absurd hm (hr k e)

theorem enter_evolves (h : Opened r a q n) (k : Nat) :
    Evolves r (.begin k a) (enter q k a n).1 (enter q k a n).2 := by
  unfold enter
  dsimp only
  split
  · apply Evolves.of_opened h
    · simp [load, setSlot]
    · exact fun m => entry_setSlot (by rfl) m
    · rfl
    · intro c hc
      simp only [load, setSlot, List.mem_append, List.mem_filter, List.mem_singleton] at hc
      rcases hc with ⟨hc, _⟩ | rfl
      · exact .inl hc
      · exact .inr ⟨rfl, rfl, rfl, fun _ => by simp [load]⟩
    · simp [load]
  · apply Evolves.of_opened h
    · simp [setSlot]
    · exact fun m => entry_setSlot (by rfl) m
    · rfl
    · intro c hc
      rcases List.mem_append.mp hc with hc | hc
      · exact .inl hc
      · rw [List.mem_singleton] at hc
        subst hc
        exact .inr ⟨rfl, rfl, rfl, fun h => nomatch h⟩
    · simp

theorem begin_evolves (r : Registry) (k : Nat) (a : Int64) :
    Evolves r (.begin k a) (begin r k a).1 (begin r k a).2 := by
  have ho := obtain_opened r a
  unfold begin
  split
  · exact .of_fewer rfl (fun _ => rfl) (fun _ h => h) (fun _ h => h) (by simp)
  · rename_i hopen
    dsimp only
    split
    · rename_i e he
      have hr := obtain_of_entry he
      split
      · rw [hr]
        exact enter_evolves (obtain_opened _ a).of_retire k
      · -- a good entry, which only a slot that was there before can have
        refine ⟨ho.length, ?_, ?_, ?_, ?_⟩
        · intro b m hm
          rcases ho.cached b m hm with hm | ⟨rfl, hm, hl⟩
          · exact .inl hm
          · exact .inr ⟨hm, hl, k, rfl⟩
        · intro c hc
          exact .inl ⟨c, by rw [← ho.calls]; exact hc, rfl, rfl, rfl, .inl⟩
        · intro m e hm
          exact .inl (by rw [← ho.slot]; exact hm)
        · intro i e' hm
          simp only [List.mem_cons, reduceCtorEq, List.not_mem_nil, or_false, false_or,
            Output.returned.injEq, Except.ok.injEq] at hm
          obtain ⟨rfl, rfl⟩ := hm
          rw [ho.slot] at he
          rcases ho.cached a _ ho.own with hm | ⟨_, hm, _⟩
          · exact ⟨by simpa using hopen, .inl ⟨a, _, rfl, hm, he⟩⟩
          · rw [slotAt_of_length_le (Nat.le_of_eq hm.symm)] at he
            cases he
    · exact enter_evolves ho k

theorem call?_eq_some {c : Call} (h : r.call? k = some c) : c ∈ r.calls ∧ c.number = k :=
  ⟨List.mem_of_find?_eq_some h, by simpa using List.find?_some h⟩

/-- What the answer to the lookup of a call comes to. -/
inductive Answering (r : Registry) : Nat → Lookup → Outcome → Prop where
  | unasked (call : Nat) (found : Lookup) : Answering r call found (r, [])
  | fills (c : Call) (rows : List Store.Integration) (inFlight : c ∈ r.calls)
      (loading : c.loading = true) : Answering r c.number (.ok rows) (fill r c rows)
  | fails (c : Call) (x : StorageError) (inFlight : c ∈ r.calls) (loading : c.loading = true) :
      Answering r c.number (.error x) (fail r c x)

theorem answer_answering (r : Registry) (k : Nat) (found : Lookup) :
    Answering r k found (answer r k found) := by
  unfold answer
  split
  · rename_i c hc
    obtain ⟨hm, rfl⟩ := call?_eq_some hc
    split
    · rename_i hl
      cases found with
      | ok rows => exact .fills c rows hm hl
      | error x => exact .fails c x hm hl
    · exact .unasked ..
  · exact .unasked ..

/-- What becomes of a call that is woken. -/
inductive Waking (r : Registry) : Nat → Outcome → Prop where
  | stays (call : Nat) : Waking r call (r, [])
  | settles (c : Call) (e : Entry) (inFlight : c ∈ r.calls) (waits : c.loading = false)
      (found : (r.slotAt c.slot).entry = some e) : Waking r c.number (settle r c e)
  /-- It is its turn to fill the slot. -/
  | loads (c : Call) (inFlight : c ∈ r.calls) (waits : c.loading = false)
      (empty : (r.slotAt c.slot).entry = none)
      (turn : (r.slotAt c.slot).holder = some c.number) : Waking r c.number (load r c)

theorem wake_waking (r : Registry) (k : Nat) : Waking r k (wake r k) := by
  unfold wake
  split
  · rename_i c hc
    obtain ⟨hm, rfl⟩ := call?_eq_some hc
    dsimp only
    split
    · exact .stays _
    · rename_i hl
      split
      · rename_i e he
        exact .settles c e hm (Bool.not_eq_true _ ▸ hl) he
      · rename_i he
        split
        · rename_i hh
          exact .loads c hm (Bool.not_eq_true _ ▸ hl) he hh
        · exact .stays _
  · exact .stays _

/-- A call returns an entry only where the registry is open. -/
theorem settle_returned {c : Call} {e' : Entry}
    (h : .returned k (.ok e') ∈ (settle r c e).2) : r.closed = false ∧ k = c.number ∧ e' = e := by
  unfold settle at h
  dsimp only at h
  split at h
  · simp at h
  · rename_i hc
    simp only [List.mem_cons, reduceCtorEq, List.not_mem_nil, or_false, false_or,
      Output.returned.injEq, Except.ok.injEq] at h
    exact ⟨by simpa [dropCall] using hc, h⟩

theorem settle_slots (r : Registry) (c : Call) (e : Entry) : (settle r c e).1.slots = r.slots := by
  unfold settle
  dsimp only
  split <;> rfl

theorem settle_cache {x : Int64 × Nat} {c : Call} (h : x ∈ (settle r c e).1.cache) :
    x ∈ r.cache := by
  unfold settle at h
  dsimp only at h
  split at h
  · exact (mem_retire.mp h).1
  · exact h

theorem settle_calls (r : Registry) (c : Call) (e : Entry) :
    (settle r c e).1.calls = r.calls.filter (·.number != c.number) := by
  unfold settle
  dsimp only
  split <;> rfl

theorem settle_slotAt (r : Registry) (c : Call) (e : Entry) (n : Nat) :
    (settle r c e).1.slotAt n = r.slotAt n := by
  simp only [slotAt, settle_slots]

/-- A call whose slot is filled returns what is there. -/
theorem settle_evolves {c : Call} {s : Step} (hc : c ∈ r.calls)
    (he : (r.slotAt c.slot).entry = some e) : Evolves r s (settle r c e).1 (settle r c e).2 where
  length := Nat.le_of_eq (by rw [settle_slots])
  cached a n h := .inl (settle_cache h)
  called d h := by
    rw [settle_calls] at h
    exact .inl ⟨d, (List.mem_filter.mp h).1, rfl, rfl, rfl, .inl⟩
  filled n e' h := .inl (by simpa only [settle_slotAt] using h)
  returned k e' h := by
    obtain ⟨ho, rfl, rfl⟩ := settle_returned h
    exact ⟨ho, .inr ⟨c, hc, rfl, .inl he⟩⟩

theorem load_evolves {c : Call} {s : Step} (hc : c ∈ r.calls) :
    Evolves r s (load r c).1 (load r c).2 where
  length := Nat.le_refl _
  cached a n h := .inl h
  called d h := by
    simp only [load, List.mem_append, List.mem_filter, List.mem_singleton] at h
    rcases h with ⟨h, _⟩ | rfl
    · exact .inl ⟨d, h, rfl, rfl, rfl, .inl⟩
    · exact .inl ⟨c, hc, rfl, rfl, rfl, fun _ => .inr (by simp [load])⟩
  filled n e h := .inl h
  returned k e h := by simp [load] at h

theorem wake_evolves (r : Registry) (k : Nat) :
    Evolves r (.wake k) (wake r k).1 (wake r k).2 := by
  have idle : Evolves r (.wake k) r [] :=
    .of_fewer rfl (fun _ => rfl) (fun _ h => h) (fun _ h => h) (by simp)
  have h := wake_waking r k
  generalize wake r k = x at h
  cases h with
  | stays => exact idle
  | settles c e hc _ he => exact settle_evolves hc he
  | loads c hc => exact load_evolves hc

theorem fail_slotAt_of_ne {c : Call} (h : n ≠ c.slot) (x : StorageError) :
    (fail r c x).1.slotAt n = r.slotAt n :=
  (slotAt_setSlot r c.slot n _).trans (if_neg fun hm => h hm.1)

/-- The next of those who wait holds the slot. -/
theorem fail_slotAt {c : Call} (h : c.slot < r.slots.length) (x : StorageError) :
    (fail r c x).1.slotAt c.slot =
      { r.slotAt c.slot with
        holder := (r.slotAt c.slot).queue.head?, queue := (r.slotAt c.slot).queue.tail } :=
  (slotAt_setSlot r c.slot c.slot _).trans (if_pos ⟨rfl, h⟩)

theorem fail_evolves (r : Registry) (c : Call) (x : StorageError) (s : Step) :
    Evolves r s (fail r c x).1 (fail r c x).2 := by
  apply Evolves.of_fewer
  · simp [fail, dropCall, retire, setSlot]
  · exact fun n => entry_setSlot (by rfl) n
  · exact fun y h => (mem_retire.mp h).1
  · exact fun d h => (List.mem_filter.mp h).1
  · simp [fail]

/-- The entry that the rows of a lookup make. -/
def entryOf (r : Registry) (rows : List Store.Integration) : Entry :=
  ⟨r.entries, (buildAll r.hooks rows).1, (buildAll r.hooks rows).2, r.now⟩

/-- The registry whose slot has just been filled. -/
def filledSlot (r : Registry) (c : Call) (rows : List Store.Integration) : Registry :=
  { r.setSlot c.slot { r.slotAt c.slot with entry := some (r.entryOf rows), holder := none } with
    entries := r.entries + 1
    hooks := r.hooks + (buildAll r.hooks rows).1.length
    stats := { r.stats with
      integrationErrors := r.stats.integrationErrors + (buildAll r.hooks rows).2.length } }

/-- What is counted when rows are built. -/
def fillCounts (r : Registry) (rows : List Store.Integration) : List Output :=
  .counted (.loaded true) ::
    (buildAll r.hooks rows).2.map fun f => .counted (.integrationError f.kind)

theorem fill_eq (r : Registry) (c : Call) (rows : List Store.Integration) :
    fill r c rows =
      ((settle (r.filledSlot c rows) c (r.entryOf rows)).1,
        r.fillCounts rows ++ .loaded c.number (r.entryOf rows) ::
          (settle (r.filledSlot c rows) c (r.entryOf rows)).2) := rfl

theorem fill_calls (r : Registry) (c : Call) (rows : List Store.Integration) :
    (fill r c rows).1.calls = r.calls.filter (·.number != c.number) := by
  rw [fill_eq, settle_calls]
  rfl

theorem fill_slotAt_of_ne {c : Call} (h : n ≠ c.slot) (rows : List Store.Integration) :
    (fill r c rows).1.slotAt n = r.slotAt n := by
  rw [fill_eq, settle_slotAt]
  exact (slotAt_setSlot r c.slot n _).trans (if_neg fun hm => h hm.1)

theorem fill_entry {c : Call} (h : c.slot < r.slots.length) (rows : List Store.Integration) :
    ((fill r c rows).1.slotAt c.slot).entry = some (r.entryOf rows) := by
  rw [fill_eq, settle_slotAt]
  exact congrArg Slot.entry ((slotAt_setSlot r c.slot c.slot _).trans (if_pos ⟨rfl, h⟩))

theorem mem_fillCounts {rows : List Store.Integration} {o : Output} (h : o ∈ r.fillCounts rows) :
    ∃ x, o = .counted x := by
  rcases List.mem_cons.mp h with rfl | h
  · exact ⟨_, rfl⟩
  · obtain ⟨f, _, rfl⟩ := List.mem_map.mp h
    exact ⟨_, rfl⟩

theorem loaded_mem_fill (r : Registry) (c : Call) (rows : List Store.Integration) :
    .loaded c.number (r.entryOf rows) ∈ (fill r c rows).2 := by
  rw [fill_eq]
  simp

/-- The only outputs of a filling that are of consequence. -/
theorem mem_fill {c : Call} {rows : List Store.Integration} {o : Output}
    (h : o ∈ (fill r c rows).2) :
    (∃ x, o = .counted x) ∨ o = .loaded c.number (r.entryOf rows) ∨
      o ∈ (settle (r.filledSlot c rows) c (r.entryOf rows)).2 := by
  rw [fill_eq] at h
  rcases List.mem_append.mp h with h | h
  · exact .inl (mem_fillCounts h)
  · exact .inr (List.mem_cons.mp h)

theorem fill_evolves {c : Call} {s : Step} (hc : c ∈ r.calls) (hl : c.loading = true)
    (rows : List Store.Integration) : Evolves r s (fill r c rows).1 (fill r c rows).2 where
  length := by
    rw [fill_eq, settle_slots]
    simp [filledSlot, setSlot]
  cached a n h := .inl (settle_cache (r := r.filledSlot c rows) h)
  called d h := by
    rw [fill_calls] at h
    exact .inl ⟨d, (List.mem_filter.mp h).1, rfl, rfl, rfl, .inl⟩
  filled n e h := by
    rw [fill_eq, settle_slotAt] at h
    change ((r.setSlot c.slot _).slotAt n).entry = some e at h
    rw [slotAt_setSlot] at h
    split at h
    · rename_i hn
      rw [Option.some.injEq] at h
      exact .inr ⟨c, hc, hn.1.symm, hl, h ▸ loaded_mem_fill r c rows⟩
    · exact .inl h
  returned k e h := by
    rcases mem_fill h with ⟨x, hx⟩ | hx | hx
    · cases hx
    · cases hx
    · obtain ⟨ho, rfl, rfl⟩ := settle_returned hx
      exact ⟨ho, .inr ⟨c, hc, rfl, .inr ⟨hl, loaded_mem_fill r c rows⟩⟩⟩

theorem answer_evolves (r : Registry) (k : Nat) (found : Lookup) :
    Evolves r (.answer k found) (answer r k found).1 (answer r k found).2 := by
  have idle : Evolves r (.answer k found) r [] :=
    .of_fewer rfl (fun _ => rfl) (fun _ h => h) (fun _ h => h) (by simp)
  have h := answer_answering r k found
  generalize answer r k found = x at h
  cases h with
  | unasked => exact idle
  | fills c rows hc hl => exact fill_evolves hc hl rows
  | fails c x => exact fail_evolves r c x _

theorem invalidate_evolves (r : Registry) (a : Int64) :
    Evolves r (.invalidate a) (invalidate r a).1 (invalidate r a).2 := by
  unfold invalidate
  split
  · exact .of_fewer rfl (fun _ => rfl) (fun _ h => (List.mem_filter.mp h).1) (fun _ h => h) (by simp)
  · exact .of_fewer rfl (fun _ => rfl) (fun _ h => h) (fun _ h => h) (by simp)

/-- Releasing entries touches nothing else. -/
theorem foldl_release (r : Registry) (es : List Entry) :
    es.foldl release r =
      { r with released := r.released ++ es.flatMap fun e => e.hooks.map (·.number) } := by
  induction es generalizing r with
  | nil => simp
  | cons e es ih => simp [ih, release]

theorem close_evolves (r : Registry) : Evolves r .close (close r).1 (close r).2 := by
  unfold close
  split
  · exact .of_fewer rfl (fun _ => rfl) (fun _ h => h) (fun _ h => h) (by simp)
  · rw [foldl_release]
    exact .of_fewer rfl (fun _ => rfl) (by simp) (fun _ h => h) (by simp)

theorem step_evolves (r : Registry) (s : Step) : Evolves r s (step r s).1 (step r s).2 := by
  cases s with
  | begin k a => exact begin_evolves r k a
  | answer k found => exact answer_evolves r k found
  | wake k => exact wake_evolves r k
  | invalidate a => exact invalidate_evolves r a
  | invalidateAll =>
    exact .of_fewer rfl (fun _ => rfl) (by simp [step, invalidateAll]) (fun _ h => h)
      (by simp [step, invalidateAll])
  | close => exact close_evolves r
  | pass time => exact .of_fewer rfl (fun _ => rfl) (fun _ h => h) (fun _ h => h) (by simp [step])

/-- Why a call fails with a step: the registry is closed, or its own lookup is answered so. -/
inductive Fails (r : Registry) (s : Step) : Nat → ResolveError → Prop where
  | closed (call : Nat) (shut : r.closed = true) : Fails r s call .closed
  | storage (c : Call) (x : StorageError) (inFlight : c ∈ r.calls) (loading : c.loading = true)
      (answered : s = .answer c.number (.error x)) : Fails r s c.number (.storage x)

theorem enter_unfailing (r : Registry) (j : Nat) (a : Int64) (n : Nat) (x : ResolveError) :
    .returned k (.error x) ∉ (enter r j a n).2 := by
  unfold enter
  dsimp only
  split <;> simp [load]

theorem settle_fails {c : Call} {x : ResolveError}
    (h : .returned k (.error x) ∈ (settle r c e).2) : x = .closed ∧ r.closed = true := by
  unfold settle at h
  dsimp only at h
  split at h
  · rename_i hc
    simp only [List.mem_singleton, Output.returned.injEq, Except.error.injEq] at h
    exact ⟨h.2, hc⟩
  · simp at h

theorem step_fails {s : Step} {x : ResolveError} (h : .returned k (.error x) ∈ (step r s).2) :
    Fails r s k x := by
  cases s with
  | begin j a =>
    simp only [step, begin] at h
    split at h
    · rename_i hc
      simp only [List.mem_singleton, Output.returned.injEq, Except.error.injEq] at h
      exact h.2 ▸ .closed k hc
    · split at h
      · split at h
        · exact absurd h (enter_unfailing _ j a _ x)
        · simp at h
      · exact absurd h (enter_unfailing _ j a _ x)
  | answer j found =>
    have hx := answer_answering r j found
    rw [step] at h
    generalize answer r j found = y at h hx
    cases hx with
    | unasked => cases h
    | fills c rows =>
      rcases mem_fill h with ⟨y, hy⟩ | hy | hy
      · cases hy
      · cases hy
      · obtain ⟨rfl, hc⟩ := settle_fails hy
        exact .closed k hc
    | fails c y hc hl =>
      simp only [fail, List.mem_cons, reduceCtorEq, List.not_mem_nil, or_false, false_or,
        Output.returned.injEq, Except.error.injEq] at h
      obtain ⟨rfl, rfl⟩ := h
      exact .storage c y hc hl rfl
  | wake j =>
    have hx := wake_waking r j
    rw [step] at h
    generalize wake r j = y at h hx
    cases hx with
    | stays => cases h
    | settles c e =>
      obtain ⟨rfl, hc⟩ := settle_fails h
      exact .closed k hc
    | loads => simp [load] at h
  | invalidate a =>
    simp only [step, invalidate] at h
    split at h <;> simp at h
  | invalidateAll => simp [step, invalidateAll] at h
  | close =>
    simp only [step, close] at h
    split at h <;> simp at h
  | pass time => simp [step] at h

end Uplink.Registry
