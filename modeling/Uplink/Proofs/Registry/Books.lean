import Uplink.Proofs.Registry.Traffic

namespace Uplink.Registry

open Integration Store Time

variable {r q : Registry} {a b : Int64} {k m n : Nat} {c : Call} {e : Entry}
  {steps : List Step} {ttl : Option Duration}

structure Books where
  closed : Bool
  entries : Nat
  hooks : Nat
  released : List Nat

def books (r : Registry) : Books := ⟨r.closed, r.entries, r.hooks, r.released⟩

/-- The numbers of the webhooks of an entry. -/
def Entry.numbers (e : Entry) : List Nat := e.hooks.map (·.number)

theorem Opened.books (h : Opened r a q n) : q.books = r.books := by
  rw [h.same]
  rfl

theorem enter_books (r : Registry) (k : Nat) (a : Int64) (n : Nat) :
    (enter r k a n).1.books = r.books := by
  unfold enter
  dsimp only
  split <;> rfl

theorem begin_books (r : Registry) (k : Nat) (a : Int64) : (begin r k a).1.books = r.books := by
  unfold begin
  split
  · rfl
  · have ho := (obtain_opened r a).books
    dsimp only
    split
    · split
      · rw [enter_books, (obtain_opened _ a).books]
        exact ho
      · exact ho
    · rw [enter_books, ho]

/-- A call that goes on when the registry is closed closes what it found. -/
theorem settle_books (r : Registry) (c : Call) (e : Entry) :
    (settle r c e).1.books =
      { r.books with released := r.released ++ if r.closed then e.numbers else [] } := by
  unfold settle
  dsimp only [dropCall]
  split
  · rename_i hc
    simp [books, retire, release, hc, Entry.numbers]
  · rename_i hc
    simp [books, hc]

theorem fill_books (r : Registry) (c : Call) (rows : List Store.Integration) :
    (fill r c rows).1.books =
      ⟨r.closed, r.entries + 1, r.hooks + (buildAll r.hooks rows).1.length,
        r.released ++ if r.closed then (r.entryOf rows).numbers else []⟩ := by
  rw [fill_eq, settle_books]
  rfl

theorem close_books (r : Registry) :
    (close r).1.books = { r.books with
      closed := true
      released := r.released ++
        if r.closed then [] else r.cachedEntries.flatMap Entry.numbers } := by
  unfold close
  split
  · rename_i hc
    simp [books, hc]
  · rename_i hc
    rw [foldl_release]
    simp only [books, hc]
    rfl

theorem enter_loads (r : Registry) (k : Nat) (a : Int64) (n : Nat) :
    loads (enter r k a n).2 = [] := by
  unfold enter
  dsimp only
  split <;> rfl

theorem begin_loads (r : Registry) (k : Nat) (a : Int64) : loads (begin r k a).2 = [] := by
  unfold begin
  split
  · rfl
  · dsimp only
    split
    · split
      · exact enter_loads _ k a _
      · rfl
    · exact enter_loads _ k a _

theorem settle_loads (r : Registry) (c : Call) (e : Entry) : loads (settle r c e).2 = [] := by
  unfold settle
  dsimp only
  split <;> rfl

theorem fill_loads (r : Registry) (c : Call) (rows : List Store.Integration) :
    loads (fill r c rows).2 = [(c.number, r.entryOf rows)] := by
  rw [fill_eq, loads_append, (fillCounts_quiet r rows).2.2]
  change (c.number, r.entryOf rows) :: loads _ = _
  rw [settle_loads]

/-- What a step writes on the books. -/
inductive Booked (r : Registry) : Step → Outcome → Prop where
  | same (s : Step) (x : Outcome) (books : x.1.books = r.books) (loads : loads x.2 = []) :
      Booked r s x
  | settled (c : Call) (e : Entry) (inFlight : c ∈ r.calls)
      (found : (r.slotAt c.slot).entry = some e) : Booked r (.wake c.number) (settle r c e)
  | filled (c : Call) (rows : List Store.Integration) (inFlight : c ∈ r.calls)
      (loading : c.loading = true) : Booked r (.answer c.number (.ok rows)) (fill r c rows)
  | closed : Booked r .close (close r)

theorem wake_booked (r : Registry) (k : Nat) : Booked r (.wake k) (wake r k) := by
  have h := wake_waking r k
  generalize wake r k = x at h ⊢
  cases h with
  | stays | loads => exact .same _ _ rfl rfl
  | settles c e hm _ he => exact .settled c e hm he

theorem answer_booked (r : Registry) (k : Nat) (found : Lookup) :
    Booked r (.answer k found) (answer r k found) := by
  have h := answer_answering r k found
  generalize answer r k found = x at h ⊢
  cases h with
  | unasked | fails => exact .same _ _ rfl rfl
  | fills c rows hm hl => exact .filled c rows hm hl

theorem step_booked (r : Registry) (s : Step) : Booked r s (step r s) := by
  cases s with
  | begin k a => exact .same _ _ (begin_books r k a) (begin_loads r k a)
  | answer k found => exact answer_booked r k found
  | wake k => exact wake_booked r k
  | invalidate a =>
    simp only [step, invalidate]
    split <;> exact .same _ _ rfl rfl
  | invalidateAll => exact .same _ _ rfl rfl
  | close => exact .closed
  | pass time => exact .same _ _ rfl rfl

/-- Entries are made from the rows of lookups, and from nothing else. -/
theorem step_loads (r : Registry) (s : Step) :
    (loads (step r s).2 = [] ∧ (step r s).1.entries = r.entries ∧ (step r s).1.hooks = r.hooks) ∨
      ∃ c ∈ r.calls, ∃ rows, s = .answer c.number (.ok rows) ∧ c.loading = true ∧
        step r s = fill r c rows := by
  have hb := step_booked r s
  generalize step r s = x at hb
  cases hb with
  | same _ _ hb hl => exact .inl ⟨hl, congrArg Books.entries hb, congrArg Books.hooks hb⟩
  | settled c e hc he =>
    have hb := settle_books r c e
    exact .inl ⟨settle_loads r c e, congrArg Books.entries hb, congrArg Books.hooks hb⟩
  | filled c rows hc hl => exact .inr ⟨c, hc, rows, rfl, hl, rfl⟩
  | closed =>
    have hb := close_books r
    refine .inl ⟨?_, congrArg Books.entries hb, congrArg Books.hooks hb⟩
    unfold close
    split <;> rfl

theorem buildAll_numbers (m : Nat) (rows : List Store.Integration) :
    (buildAll m rows).1.map (·.number) = List.range' m (buildAll m rows).1.length := by
  induction rows generalizing m with
  | nil => rfl
  | cons row rows ih =>
    unfold buildAll
    split
    · simp [ih, List.range'_succ]
    · exact ih m

/-- Entries and webhooks are numbered without gaps, in the order in which they are made. -/
theorem run_loads (ttl : Option Duration) (steps : List Step) :
    (loads (run (start ttl) steps).2).map (·.2.number) =
        List.range (run (start ttl) steps).1.entries ∧
      (loads (run (start ttl) steps).2).flatMap (·.2.numbers) =
        List.range (run (start ttl) steps).1.hooks := by
  induction steps using List.reverseRecOn with
  | nil => exact ⟨rfl, rfl⟩
  | append_singleton steps s ih =>
    obtain ⟨he, hh⟩ := ih
    rw [run_snoc, loads_append, List.map_append, List.flatMap_append, he, hh]
    rcases step_loads (run (start ttl) steps).1 s with ⟨hl, hn, hk⟩ | ⟨c, _, rows, _, _, hs⟩
    · simp only [hl, hn, hk, List.map_nil, List.flatMap_nil, List.append_nil, and_self]
    · have hb := fill_books (run (start ttl) steps).1 c rows
      rw [← hs] at hb
      have hn := congrArg Books.entries hb
      have hk := congrArg Books.hooks hb
      simp only [books] at hn hk
      rw [hn, hk, hs, fill_loads]
      constructor
      · rw [List.range_succ]
        rfl
      · rw [List.flatMap_singleton, List.range_add]
        simp only [Entry.numbers, entryOf, buildAll_numbers, List.range'_eq_map_range]

/-- An entry is found once. -/
theorem loaded_unique {j k : Nat} (hj : .loaded j e ∈ (run (start ttl) steps).2)
    (hk : .loaded k e ∈ (run (start ttl) steps).2) : j = k := by
  have hn : ((loads (run (start ttl) steps).2).map (·.2.number)).Nodup := by
    rw [(run_loads ttl steps).1]
    exact List.nodup_range
  have hp := List.inj_on_of_nodup_map hn (mem_loads.mpr hj) (mem_loads.mpr hk) rfl
  exact congrArg Prod.fst hp

end Uplink.Registry
