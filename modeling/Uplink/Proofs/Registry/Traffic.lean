import Mathlib.Data.List.Nodup
import Uplink.Proofs.Registry.Evolution

namespace Uplink.Registry

open Integration Store Time

variable {r : Registry} {a b : Int64} {k : Nat} {c : Call} {e : Entry} {s : Step}
  {o : List Output} {steps : List Step} {ttl : Option Duration}

/-- The number of the call that a step begins. -/
def Step.begun? : Step → Option Nat
  | .begin call _ => some call
  | _ => none

/-- The numbers of the calls that begin in a run, in order. -/
def begun (steps : List Step) : List Nat := steps.filterMap Step.begun?

/-- No two calls begin under one number. -/
def Distinct (steps : List Step) : Prop := (begun steps).Nodup

instance (steps : List Step) : Decidable (Distinct steps) :=
  inferInstanceAs (Decidable (begun steps).Nodup)

theorem begun_snoc (steps : List Step) (s : Step) :
    begun (steps ++ [s]) = begun steps ++ s.begun?.toList := by
  cases h : s.begun? <;> simp [begun, h]

theorem mem_begun : k ∈ begun steps ↔ ∃ a, .begin k a ∈ steps := by
  simp only [begun, List.mem_filterMap]
  constructor
  · rintro ⟨s, hs, hk⟩
    cases s with
    | begin j a =>
      cases hk
      exact ⟨a, hs⟩
    | _ => cases hk
  · rintro ⟨a, h⟩
    exact ⟨_, h, rfl⟩

theorem Distinct.append_left {xs ys : List Step} (h : Distinct (xs ++ ys)) : Distinct xs := by
  unfold Distinct begun at h ⊢
  rw [List.filterMap_append] at h
  exact (List.nodup_append.mp h).1

/-- One number belongs to one application. -/
theorem Distinct.application (h : Distinct steps) (ha : .begin k a ∈ steps)
    (hb : .begin k b ∈ steps) : a = b := by
  cases eq_of_nodup_filterMap h ha hb rfl rfl
  rfl

/-- The calls whose lookup begins. -/
def asks (o : List Output) : List Nat :=
  o.filterMap fun
    | .asked call _ => some call
    | _ => none

/-- The calls that return. -/
def returns (o : List Output) : List Nat :=
  o.filterMap fun
    | .returned call _ => some call
    | _ => none

/-- The entries that are found, each with the call that looked it up. -/
def loads (o : List Output) : List (Nat × Entry) :=
  o.filterMap fun
    | .loaded call e => some (call, e)
    | _ => none

@[simp] theorem asks_append (o o' : List Output) : asks (o ++ o') = asks o ++ asks o' :=
  List.filterMap_append

@[simp] theorem returns_append (o o' : List Output) : returns (o ++ o') = returns o ++ returns o' :=
  List.filterMap_append

@[simp] theorem loads_append (o o' : List Output) : loads (o ++ o') = loads o ++ loads o' :=
  List.filterMap_append

theorem mem_asks_of_asked (h : .asked k a ∈ o) : k ∈ asks o :=
  List.mem_filterMap.mpr ⟨_, h, rfl⟩

theorem mem_returns_of_returned {result : Resolved} (h : .returned k result ∈ o) :
    k ∈ returns o :=
  List.mem_filterMap.mpr ⟨_, h, rfl⟩

theorem returned_of_mem_returns (h : k ∈ returns o) : ∃ result, .returned k result ∈ o := by
  obtain ⟨x, hx, hk⟩ := List.mem_filterMap.mp h
  cases x with
  | returned j result =>
    cases hk
    exact ⟨result, hx⟩
  | _ => cases hk

theorem mem_loads : (k, e) ∈ loads o ↔ .loaded k e ∈ o := by
  simp only [loads, List.mem_filterMap]
  constructor
  · rintro ⟨x, hx, he⟩
    cases x with
    | loaded j f =>
      cases he
      exact hx
    | _ => cases he
  · exact fun h => ⟨_, h, rfl⟩

/-- How a step changes the calls in flight, and what it says about it. -/
inductive Traffic (calls : List Call) : Step → List Call → List Output → Prop where
  | idle (s : Step) (o : List Output) (begins : s.begun? = none) (asked : asks o = [])
      (returned : returns o = []) : Traffic calls s calls o
  /-- A call is over as soon as it begins. -/
  | atOnce (k : Nat) (a : Int64) (o : List Output) (asked : asks o = [])
      (returned : returns o = [k]) : Traffic calls (.begin k a) calls o
  | come (c : Call) (o : List Output) (asked : asks o = if c.loading then [c.number] else [])
      (returned : returns o = []) :
      Traffic calls (.begin c.number c.application) (calls ++ [c]) o
  /-- A call that waited looks up for itself. -/
  | turn (s : Step) (c : Call) (o : List Output) (begins : s.begun? = none) (inFlight : c ∈ calls)
      (waits : c.loading = false) (asked : asks o = [c.number]) (returned : returns o = []) :
      Traffic calls s (calls.filter (·.number != c.number) ++ [{ c with loading := true }]) o
  | leave (s : Step) (c : Call) (o : List Output) (begins : s.begun? = none) (inFlight : c ∈ calls)
      (asked : asks o = []) (returned : returns o = [c.number]) :
      Traffic calls s (calls.filter (·.number != c.number)) o

theorem filter_number_eq_self {calls : List Call} (h : k ∉ calls.map (·.number)) :
    calls.filter (·.number != k) = calls := by
  apply List.filter_eq_self.mpr
  intro c hc
  rw [bne_iff_ne]
  exact fun hk => h (hk ▸ List.mem_map_of_mem hc)

theorem enter_traffic (a : Int64) (n : Nat) (hf : k ∉ r.calls.map (·.number)) :
    Traffic r.calls (.begin k a) (enter r k a n).1.calls (enter r k a n).2 := by
  unfold enter
  dsimp only
  split
  · simp only [load, setSlot, filter_number_eq_self hf]
    exact .come ⟨k, a, n, true⟩ _ rfl rfl
  · exact .come ⟨k, a, n, false⟩ _ rfl rfl

theorem begin_traffic (a : Int64) (hf : k ∉ r.calls.map (·.number)) :
    Traffic r.calls (.begin k a) (begin r k a).1.calls (begin r k a).2 := by
  have ho := (obtain_opened r a).calls
  unfold begin
  split
  · exact .atOnce k a _ rfl rfl
  · dsimp only
    split
    · split
      · have hc := (obtain_opened ((r.obtain a).1.retire a (r.obtain a).2) a).calls
        have hr : ((r.obtain a).1.retire a (r.obtain a).2).calls = r.calls := ho
        rw [hr] at hc
        rw [← hc] at hf ⊢
        exact enter_traffic a _ hf
      · rw [ho]
        exact .atOnce k a _ rfl rfl
    · rw [← ho] at hf ⊢
      exact enter_traffic a _ hf

theorem settle_returns (r : Registry) (c : Call) (e : Entry) :
    returns (settle r c e).2 = [c.number] := by
  unfold settle
  dsimp only
  split <;> rfl

theorem settle_asks (r : Registry) (c : Call) (e : Entry) : asks (settle r c e).2 = [] := by
  unfold settle
  dsimp only
  split <;> rfl

theorem settle_traffic (hs : s.begun? = none) (hc : c ∈ r.calls) (e : Entry) :
    Traffic r.calls s (settle r c e).1.calls (settle r c e).2 := by
  rw [settle_calls]
  exact .leave s c _ hs hc (settle_asks r c e) (settle_returns r c e)

theorem wake_traffic (r : Registry) (k : Nat) :
    Traffic r.calls (.wake k) (wake r k).1.calls (wake r k).2 := by
  have idle : Traffic r.calls (.wake k) r.calls [] := .idle _ _ rfl rfl rfl
  have h := wake_waking r k
  generalize wake r k = x at h
  cases h with
  | stays => exact idle
  | settles c e hm => exact settle_traffic rfl hm e
  | loads c hm hl => exact .turn _ c _ rfl hm hl rfl rfl

/-- Nothing is counted among the calls. -/
theorem fillCounts_quiet (r : Registry) (rows : List Store.Integration) :
    asks (r.fillCounts rows) = [] ∧ returns (r.fillCounts rows) = [] ∧
      loads (r.fillCounts rows) = [] := by
  refine ⟨?_, ?_, ?_⟩
  all_goals
    refine List.filterMap_eq_nil_iff.mpr fun x hx => ?_
    obtain ⟨y, rfl⟩ := mem_fillCounts hx
    rfl

theorem fill_traffic (hs : s.begun? = none) (hc : c ∈ r.calls) (rows : List Store.Integration) :
    Traffic r.calls s (fill r c rows).1.calls (fill r c rows).2 := by
  rw [fill_eq, settle_calls]
  obtain ⟨ha, hr, -⟩ := fillCounts_quiet r rows
  apply Traffic.leave s c _ hs hc
  · rw [asks_append, ha]
    exact settle_asks _ c _
  · rw [returns_append, hr]
    exact settle_returns _ c _

theorem answer_traffic (r : Registry) (k : Nat) (found : Lookup) :
    Traffic r.calls (.answer k found) (answer r k found).1.calls (answer r k found).2 := by
  have idle : Traffic r.calls (.answer k found) r.calls [] := .idle _ _ rfl rfl rfl
  have h := answer_answering r k found
  generalize answer r k found = x at h
  cases h with
  | unasked => exact idle
  | fills c rows hm => exact fill_traffic rfl hm rows
  | fails c x hm => exact .leave _ c _ rfl hm rfl rfl

theorem step_traffic (r : Registry) (s : Step)
    (hf : ∀ k, s.begun? = some k → k ∉ r.calls.map (·.number)) :
    Traffic r.calls s (step r s).1.calls (step r s).2 := by
  cases s with
  | begin k a => exact begin_traffic a (hf k rfl)
  | answer k found => exact answer_traffic r k found
  | wake k => exact wake_traffic r k
  | invalidate a =>
    simp only [step, invalidate]
    split <;> exact .idle _ _ rfl rfl rfl
  | invalidateAll => exact .idle _ _ rfl rfl rfl
  | close =>
    simp only [step, close]
    split
    · exact .idle _ _ rfl rfl rfl
    · rw [foldl_release]
      exact .idle _ _ rfl rfl rfl
  | pass time => exact .idle _ _ rfl rfl rfl

/-- The calls in flight after a run, given its steps and what came out of them. -/
structure Numbered (steps : List Step) (calls : List Call) (o : List Output) : Prop where
  /-- What begins is in flight or has returned. -/
  conserved : (returns o ++ calls.map (·.number)).Perm (begun steps)
  asked : ∀ k ∈ asks o, k ∈ begun steps
  once : (asks o).Nodup
  waiting : ∀ c ∈ calls, c.loading = false → c.number ∉ asks o

variable {calls calls' : List Call} {o' : List Output}

/-- Taking a call out of the calls in flight. -/
theorem filter_number_perm (hn : (calls.map (·.number)).Nodup)
    (hc : c ∈ calls) :
    (c.number :: (calls.filter (·.number != c.number)).map (·.number)).Perm
      (calls.map (·.number)) := by
  induction calls with
  | nil => simp at hc
  | cons d calls ih =>
    rw [List.map_cons, List.nodup_cons] at hn
    by_cases hd : d.number = c.number
    · rw [hd] at hn
      rw [List.filter_cons_of_neg (by simp [hd]), filter_number_eq_self hn.1, List.map_cons, hd]
    · have hm : c ∈ calls := by
        rcases List.mem_cons.mp hc with rfl | hm
        · exact absurd rfl hd
        · exact hm
      rw [List.filter_cons_of_pos (by simp [hd]), List.map_cons, List.map_cons]
      exact (List.Perm.swap _ _ _).trans ((ih hn.2 hm).cons _)

theorem mem_filter_number {d : Call}
    (h : d ∈ calls.filter (·.number != c.number)) : d ∈ calls ∧ d.number ≠ c.number := by
  simpa using List.mem_filter.mp h

theorem length_filter_number (hc : c ∈ calls) :
    (calls.filter (·.number != c.number)).length < calls.length :=
  List.length_filter_lt_length_iff_exists.mpr ⟨c, hc, by simp⟩

/-- Only a step that begins a call puts one more in flight. -/
theorem Traffic.length_le (h : Traffic calls s calls' o) (hb : s.begun? = none) :
    calls'.length ≤ calls.length := by
  cases h with
  | idle => exact Nat.le_refl _
  | atOnce k a => cases hb
  | come c => cases hb
  | turn _ c _ _ hc =>
    have := length_filter_number hc
    rw [List.length_append, List.length_singleton]
    omega
  | leave _ c _ _ hc => exact Nat.le_of_lt (length_filter_number hc)

/-- A call that returns does so once, and is no longer in flight. -/
theorem Traffic.left (h : Traffic calls s calls' o)
    (hk : k ∈ returns o) (hb : s.begun? = some k → k ∉ calls.map (·.number)) :
    returns o = [k] ∧ k ∉ calls'.map (·.number) := by
  cases h with
  | idle _ _ _ _ hr => simp [hr] at hk
  | come _ _ _ hr => simp [hr] at hk
  | turn _ _ _ _ _ _ _ hr => simp [hr] at hk
  | atOnce j a _ _ hr =>
    rw [hr] at hk ⊢
    obtain rfl := List.mem_singleton.mp hk
    exact ⟨rfl, hb rfl⟩
  | leave _ c _ _ _ _ hr =>
    rw [hr] at hk ⊢
    obtain rfl := List.mem_singleton.mp hk
    refine ⟨rfl, fun hm => ?_⟩
    obtain ⟨b, hb, he⟩ := List.mem_map.mp hm
    exact (mem_filter_number hb).2 he

/-- A call that is not in flight does not return, and comes into flight by beginning only. -/
theorem Traffic.absent (h : Traffic calls s calls' o)
    (hk : k ∉ calls.map (·.number)) (hb : s.begun? ≠ some k) :
    k ∉ returns o ∧ k ∉ calls'.map (·.number) := by
  have gone : ∀ c, k ∉ (calls.filter (·.number != c)).map (·.number) := by
    intro c hm
    obtain ⟨b, hm, he⟩ := List.mem_map.mp hm
    exact hk (he ▸ List.mem_map_of_mem (List.mem_filter.mp hm).1)
  cases h with
  | idle _ _ _ _ hr =>
    rw [hr]
    exact ⟨List.not_mem_nil, hk⟩
  | atOnce j a _ _ hr =>
    rw [hr]
    have hne : k ≠ j := fun he => hb (he ▸ rfl)
    exact ⟨by simpa using hne, hk⟩
  | come c _ _ hr =>
    rw [hr]
    have hne : k ≠ c.number := fun he => hb (he ▸ rfl)
    exact ⟨List.not_mem_nil, by simpa [hne] using hk⟩
  | turn _ c _ _ hc _ _ hr =>
    rw [hr, List.map_append]
    have hne : k ≠ c.number := fun he => hk (he ▸ List.mem_map_of_mem hc)
    refine ⟨List.not_mem_nil, fun hm => ?_⟩
    rcases List.mem_append.mp hm with hm | hm
    · exact gone _ hm
    · exact hne (List.mem_singleton.mp hm)
  | leave _ c _ _ hc _ hr =>
    rw [hr]
    have hne : k ≠ c.number := fun he => hk (he ▸ List.mem_map_of_mem hc)
    exact ⟨by simpa using hne, gone _⟩

/-- A call that is in flight, or comes into flight, stays so until it returns. -/
theorem Traffic.kept (h : Traffic calls s calls' o)
    (hk : k ∈ calls.map (·.number) ∨ s.begun? = some k) (hr : k ∉ returns o) :
    k ∈ calls'.map (·.number) := by
  have stays : ∀ c, k ≠ c → k ∈ calls.map (·.number) →
      k ∈ (calls.filter (·.number != c)).map (·.number) := by
    intro c hne hm
    obtain ⟨b, hb, rfl⟩ := List.mem_map.mp hm
    exact List.mem_map_of_mem (List.mem_filter.mpr ⟨hb, by simpa using hne⟩)
  cases h with
  | idle _ _ hs _ _ => exact hk.resolve_right (by simp [hs])
  | atOnce j a _ _ hret =>
    rw [hret, List.mem_singleton] at hr
    exact hk.resolve_right fun he => hr (Option.some.inj he).symm
  | come c _ _ _ =>
    rw [List.map_append, List.mem_append]
    exact hk.imp id fun he => List.mem_singleton.mpr (Option.some.inj he).symm
  | turn _ c _ hs _ _ _ _ =>
    have hm := hk.resolve_right (by simp [hs])
    rw [List.map_append, List.mem_append]
    by_cases hne : k = c.number
    · exact .inr (List.mem_singleton.mpr hne)
    · exact .inl (stays _ hne hm)
  | leave _ c _ hs _ _ hret =>
    rw [hret, List.mem_singleton] at hr
    exact stays _ hr (hk.resolve_right (by simp [hs]))

theorem Distinct.fresh (hd : Distinct (steps ++ [s])) (hk : s.begun? = some k) :
    k ∉ begun steps := by
  unfold Distinct at hd
  rw [begun_snoc, hk] at hd
  intro hm
  exact (List.nodup_append.mp hd).2.2 k hm k (by simp) rfl

theorem Numbered.begun_of_call (hn : Numbered steps calls o) (hc : c ∈ calls) :
    c.number ∈ begun steps :=
  hn.conserved.mem_iff.mp (List.mem_append_right _ (List.mem_map_of_mem hc))

theorem Numbered.calls_nodup (hn : Numbered steps calls o) (hd : Distinct steps) :
    (calls.map (·.number)).Nodup :=
  (List.nodup_append.mp (hn.conserved.nodup_iff.mpr hd)).2.1

/-- A call that begins has a number that no call in flight has. -/
theorem Numbered.fresh (hn : Numbered steps calls o) (hd : Distinct (steps ++ [s])) :
    ∀ k, s.begun? = some k → k ∉ calls.map (·.number) := by
  intro k hk hm
  exact hd.fresh hk (hn.conserved.mem_iff.mp (List.mem_append_right _ hm))

theorem Numbered.idle (hn : Numbered steps calls o) (hs : s.begun? = none) (ha : asks o' = [])
    (hr : returns o' = []) : Numbered (steps ++ [s]) calls (o ++ o') := by
  refine ⟨?_, ?_, ?_, ?_⟩ <;>
    simp only [asks_append, returns_append, begun_snoc, hs, ha, hr, List.append_nil,
      Option.toList_none]
  · exact hn.conserved
  · exact hn.asked
  · exact hn.once
  · exact hn.waiting

theorem Numbered.atOnce (hn : Numbered steps calls o) (a : Int64) (ha : asks o' = [])
    (hr : returns o' = [k]) : Numbered (steps ++ [.begin k a]) calls (o ++ o') := by
  refine ⟨?_, ?_, ?_, ?_⟩ <;>
    simp only [asks_append, returns_append, begun_snoc, ha, hr, List.append_nil]
  · rw [List.append_assoc]
    refine (List.perm_append_comm.append_left _).trans ?_
    rw [← List.append_assoc]
    exact hn.conserved.append_right _
  · exact fun j hj => List.mem_append_left _ (hn.asked j hj)
  · exact hn.once
  · exact hn.waiting

theorem Numbered.come (hn : Numbered steps calls o)
    (hd : Distinct (steps ++ [.begin c.number c.application]))
    (ha : asks o' = if c.loading then [c.number] else []) (hr : returns o' = []) :
    Numbered (steps ++ [.begin c.number c.application]) (calls ++ [c]) (o ++ o') := by
  have hk : c.number ∉ begun steps := hd.fresh rfl
  have hk' : c.number ∉ asks o := fun hm => hk (hn.asked _ hm)
  refine ⟨?_, ?_, ?_, ?_⟩ <;>
    simp only [asks_append, returns_append, begun_snoc, ha, hr, List.append_nil]
  · rw [List.map_append, ← List.append_assoc]
    exact hn.conserved.append_right _
  · intro j hj
    rcases List.mem_append.mp hj with hj | hj
    · exact List.mem_append_left _ (hn.asked j hj)
    · refine List.mem_append_right _ ?_
      split at hj <;> simp_all [Step.begun?]
  · split
    · exact List.concat_eq_append ▸ hn.once.concat hk'
    · simpa using hn.once
  · intro b hb hl
    rcases List.mem_append.mp hb with hb | hb
    · have hne : b.number ≠ c.number := fun h => hk (h ▸ hn.begun_of_call hb)
      have := hn.waiting b hb hl
      split <;> simp_all
    · rw [List.mem_singleton] at hb
      subst hb
      simpa [hl] using hk'

theorem Numbered.turn (hn : Numbered steps calls o) (hd : Distinct steps) (hs : s.begun? = none)
    (hc : c ∈ calls) (hl : c.loading = false) (ha : asks o' = [c.number])
    (hr : returns o' = []) :
    Numbered (steps ++ [s])
      (calls.filter (·.number != c.number) ++ [{ c with loading := true }]) (o ++ o') := by
  have hk := hn.waiting c hc hl
  refine ⟨?_, ?_, ?_, ?_⟩ <;>
    simp only [asks_append, returns_append, begun_snoc, hs, ha, hr, List.append_nil,
      Option.toList_none]
  · rw [List.map_append]
    have hp := (List.perm_append_singleton c.number _).trans
      (filter_number_perm (hn.calls_nodup hd) hc)
    exact (hp.append_left _).trans hn.conserved
  · intro j hj
    rcases List.mem_append.mp hj with hj | hj
    · exact hn.asked j hj
    · rw [List.mem_singleton.mp hj]
      exact hn.begun_of_call hc
  · exact List.concat_eq_append ▸ hn.once.concat hk
  · intro b hb hl'
    rcases List.mem_append.mp hb with hb | hb
    · obtain ⟨hb, hne⟩ := mem_filter_number hb
      simpa [hne] using hn.waiting b hb hl'
    · rw [List.mem_singleton] at hb
      subst hb
      cases hl'

theorem Numbered.leave (hn : Numbered steps calls o) (hd : Distinct steps) (hs : s.begun? = none)
    (hc : c ∈ calls) (ha : asks o' = []) (hr : returns o' = [c.number]) :
    Numbered (steps ++ [s]) (calls.filter (·.number != c.number)) (o ++ o') := by
  refine ⟨?_, ?_, ?_, ?_⟩ <;>
    simp only [asks_append, returns_append, begun_snoc, hs, ha, hr, List.append_nil,
      Option.toList_none]
  · rw [List.append_assoc]
    have hp := filter_number_perm (hn.calls_nodup hd) hc
    exact (hp.append_left _).trans hn.conserved
  · exact hn.asked
  · exact hn.once
  · exact fun b hb hl => hn.waiting b (mem_filter_number hb).1 hl

theorem Traffic.numbered (ht : Traffic calls s calls' o') (hn : Numbered steps calls o)
    (hd : Distinct (steps ++ [s])) : Numbered (steps ++ [s]) calls' (o ++ o') := by
  cases ht with
  | idle _ _ hs ha hr => exact hn.idle hs ha hr
  | atOnce k a _ ha hr => exact hn.atOnce a ha hr
  | come c _ ha hr => exact hn.come hd ha hr
  | turn _ c _ hs hc hl ha hr => exact hn.turn hd.append_left hs hc hl ha hr
  | leave _ c _ hs hc ha hr => exact hn.leave hd.append_left hs hc ha hr

/-- Where no two calls begin under one number, each is in flight or has returned once, and none
looks up twice. -/
theorem run_numbered (ttl : Option Duration) (hd : Distinct steps) :
    Numbered steps (run (start ttl) steps).1.calls (run (start ttl) steps).2 := by
  induction steps using List.reverseRecOn with
  | nil => exact ⟨.refl _, by simp [run, asks], by simp [run, asks], by simp [run, start]⟩
  | append_singleton steps s ih =>
    rw [run_snoc]
    have hn := ih hd.append_left
    exact (step_traffic _ s (hn.fresh hd)).numbered hn hd

end Uplink.Registry
