import Uplink.Proofs.Registry.Traffic

namespace Uplink.Registry

open Integration Store Time

variable {r q : Registry} {a : Int64} {k n : Nat} {c : Call} {e : Entry} {s : Step}
  {o : List Output} {steps : List Step} {ttl : Option Duration} {x y : Outcome}

/-- What is counted among the outputs. -/
def told (o : List Output) : List Count :=
  o.filterMap fun
    | .counted c => some c
    | _ => none

@[simp] theorem told_append (o o' : List Output) : told (o ++ o') = told o ++ told o' :=
  List.filterMap_append

def Count.isHit : Count → Bool
  | .hit => true
  | _ => false

def Count.isMiss : Count → Bool
  | .miss => true
  | _ => false

def Count.isLoaded : Count → Bool
  | .loaded _ => true
  | _ => false

def Count.isFailure : Count → Bool
  | .loaded success => !success
  | _ => false

def Count.isError : Count → Bool
  | .integrationError _ => true
  | _ => false

/-- How often something of a kind is counted. -/
def counts (p : Count → Bool) (o : List Output) : Nat := (told o).countP p

@[simp] theorem counts_append (p : Count → Bool) (o o' : List Output) :
    counts p (o ++ o') = counts p o + counts p o' := by
  rw [counts, told_append, List.countP_append]
  rfl

/-- How many lookups are out. -/
def loadings (r : Registry) : Nat := r.calls.countP (·.loading)

/-- The statistics have grown by what was counted, and every lookup that has begun is out or has
ended. -/
structure Told (r : Registry) (x : Outcome) : Prop where
  hits : x.1.stats.hits = r.stats.hits + counts Count.isHit x.2
  loads : x.1.stats.loads = r.stats.loads + counts Count.isMiss x.2
  asked : (asks x.2).length = counts Count.isMiss x.2
  failures : x.1.stats.loadFailures = r.stats.loadFailures + counts Count.isFailure x.2
  errors : x.1.stats.integrationErrors = r.stats.integrationErrors + counts Count.isError x.2
  ended : loadings x.1 + counts Count.isLoaded x.2 = loadings r + counts Count.isMiss x.2

theorem Told.trans (h : Told r x) (h' : Told x.1 y) : Told r (y.1, x.2 ++ y.2) := by
  obtain ⟨h₁, h₂, h₃, h₄, h₅, h₆⟩ := h
  obtain ⟨g₁, g₂, g₃, g₄, g₅, g₆⟩ := h'
  refine ⟨?_, ?_, ?_, ?_, ?_, ?_⟩ <;>
    simp only [counts_append, asks_append, List.length_append] <;> omega

/-- Nothing is counted but how many applications are cached. -/
def Sizes (o : List Output) : Prop := ∀ c ∈ told o, ∃ n, c = .cached n

theorem Sizes.counts {p : Count → Bool} (h : Sizes o) (hp : ∀ n, p (.cached n) = false) :
    counts p o = 0 := by
  refine List.countP_eq_zero.mpr fun c hc => ?_
  obtain ⟨n, rfl⟩ := h c hc
  exact Bool.eq_false_iff.mp (hp n)

/-- Work that leaves the statistics and the lookups as they are and counts nothing of interest. -/
theorem Told.of_same (hs : x.1.stats = r.stats) (hl : loadings x.1 = loadings r)
    (ha : asks x.2 = []) (hn : Sizes x.2) : Told r x where
  hits := by rw [hs, hn.counts fun _ => rfl, Nat.add_zero]
  loads := by rw [hs, hn.counts fun _ => rfl, Nat.add_zero]
  asked := by
    rw [ha, hn.counts fun _ => rfl]
    rfl
  failures := by rw [hs, hn.counts fun _ => rfl, Nat.add_zero]
  errors := by rw [hs, hn.counts fun _ => rfl, Nat.add_zero]
  ended := by rw [hl, hn.counts fun _ => rfl, hn.counts fun _ => rfl]

theorem Told.idle (r : Registry) : Told r (r, []) :=
  .of_same rfl rfl rfl (List.forall_mem_nil _)

theorem calls_split {calls : List Call} (hn : (calls.map (·.number)).Nodup) (hc : c ∈ calls) :
    calls.Perm (c :: calls.filter (·.number != c.number)) := by
  obtain ⟨pre, post, rfl⟩ := List.append_of_mem hc
  have hperm : (pre ++ c :: post).Perm (c :: (pre ++ post)) := List.perm_middle
  have hother : ∀ b ∈ pre ++ post, b.number ≠ c.number := by
    rw [(hperm.map _).nodup_iff, List.map_cons, List.nodup_cons] at hn
    exact fun b hb he => hn.1 (he ▸ List.mem_map_of_mem hb)
  have hfilter : (pre ++ c :: post).filter (·.number != c.number) = pre ++ post := by
    rw [List.filter_append, List.filter_cons_of_neg (by simp), ← List.filter_append,
      List.filter_eq_self]
    exact fun b hb => bne_iff_ne.mpr (hother b hb)
  rw [hfilter]
  exact hperm

theorem loadings_leave (hn : (r.calls.map (·.number)).Nodup) (hc : c ∈ r.calls) :
    (r.calls.filter (·.number != c.number)).countP (·.loading) + (if c.loading then 1 else 0) =
      loadings r := by
  rw [loadings, (calls_split hn hc).countP_eq, List.countP_cons]

/-- A lookup begins, for a call that comes into flight or has waited its turn. -/
theorem load_told (h : (r.calls.filter (·.number != c.number)).countP (·.loading) = loadings r) :
    Told r (load r c) where
  hits := rfl
  loads := rfl
  asked := rfl
  failures := rfl
  errors := rfl
  ended := by
    simp only [loadings, load, List.countP_append, h]
    rfl

theorem enter_told (hk : k ∉ r.calls.map (·.number)) (a : Int64) (n : Nat) :
    Told r (enter r k a n) := by
  unfold enter
  dsimp only
  split
  · have hload := load_told (r := r.setSlot n { r.slotAt n with holder := some k })
      (c := ⟨k, a, n, false⟩) (congrArg (List.countP _) (filter_number_eq_self hk))
    exact ⟨hload.hits, hload.loads, hload.asked, hload.failures, hload.errors, hload.ended⟩
  · refine .of_same rfl ?_ rfl (List.forall_mem_nil _)
    simp [loadings]

theorem Opened.told (h : Opened r a q n) (hx : Told q x) : Told r x := by
  have hs := h.same
  obtain ⟨h₁, h₂, h₃, h₄, h₅, h₆⟩ := hx
  rw [hs] at h₁ h₂ h₄ h₅ h₆
  exact ⟨h₁, h₂, h₃, h₄, h₅, h₆⟩

theorem begin_told (hk : k ∉ r.calls.map (·.number)) (a : Int64) : Told r (begin r k a) := by
  have ho := obtain_opened r a
  unfold begin
  split
  · exact .of_same rfl rfl rfl (List.forall_mem_nil _)
  · dsimp only
    split
    · split
      · have hr := obtain_opened ((r.obtain a).1.retire a (r.obtain a).2) a
        refine ho.told (q := (r.obtain a).1) ?_
        have hk' : k ∉ (((r.obtain a).1.retire a (r.obtain a).2).obtain a).1.calls.map
            (·.number) := by
          rw [hr.calls]
          exact ho.calls ▸ hk
        have hx := hr.told (enter_told hk' a
          (((r.obtain a).1.retire a (r.obtain a).2).obtain a).2)
        exact ⟨hx.hits, hx.loads, hx.asked, hx.failures, hx.errors, hx.ended⟩
      · exact ho.told ⟨rfl, rfl, rfl, rfl, rfl, rfl⟩
    · exact ho.told (enter_told (ho.calls ▸ hk) a _)

/-- A call that settles no longer waits; nothing of interest is counted. -/
theorem settle_told (r : Registry) (c : Call) (e : Entry) :
    (settle r c e).1.stats = r.stats ∧ Sizes (settle r c e).2 := by
  unfold settle
  dsimp only
  split
  · exact ⟨rfl, List.forall_mem_nil _⟩
  · exact ⟨rfl, by simp [Sizes, told]⟩

theorem wake_told (hn : (r.calls.map (·.number)).Nodup) (k : Nat) : Told r (wake r k) := by
  have h := wake_waking r k
  generalize wake r k = x at h ⊢
  cases h with
  | stays => exact .idle r
  | settles c e hm hl =>
    have hleave := loadings_leave hn hm
    rw [hl, if_neg Bool.false_ne_true, Nat.add_zero] at hleave
    obtain ⟨hs, ht⟩ := settle_told r c e
    refine .of_same hs ?_ (settle_asks r c e) ht
    rw [loadings, settle_calls]
    exact hleave
  | loads c hm hl =>
    have hleave := loadings_leave hn hm
    rw [hl, if_neg Bool.false_ne_true, Nat.add_zero] at hleave
    exact load_told hleave

/-- What is counted when a lookup has found something. -/
theorem counts_fill (r : Registry) (c : Call) (rows : List Store.Integration) {p : Count → Bool}
    (hp : ∀ n, p (.cached n) = false) :
    counts p (fill r c rows).2 = (if p (.loaded true) then 1 else 0) +
      (buildAll r.hooks rows).2.countP fun f => p (.integrationError f.kind) := by
  have hsettle : counts p (settle (r.filledSlot c rows) c (r.entryOf rows)).2 = 0 :=
    (settle_told (r.filledSlot c rows) c (r.entryOf rows)).2.counts hp
  have hcounts : told (r.fillCounts rows) =
      .loaded true :: (buildAll r.hooks rows).2.map fun f => .integrationError f.kind := by
    simp only [told, fillCounts, List.filterMap_cons, List.filterMap_map]
    rw [← List.filterMap_eq_map]
    rfl
  have hloaded : ∀ o, counts p (.loaded c.number (r.entryOf rows) :: o) = counts p o :=
    fun _ => rfl
  rw [fill_eq, counts_append, hloaded, hsettle, Nat.add_zero, counts, hcounts, List.countP_cons,
    List.countP_map, Nat.add_comm]
  rfl

theorem fill_told (hn : (r.calls.map (·.number)).Nodup) (hc : c ∈ r.calls) (hl : c.loading = true)
    (rows : List Store.Integration) : Told r (fill r c rows) := by
  have hleave := loadings_leave hn hc
  rw [if_pos hl] at hleave
  have hasks : asks (fill r c rows).2 = [] := by
    rw [fill_eq, asks_append, (fillCounts_quiet r rows).1]
    exact settle_asks _ _ _
  have hstats : (fill r c rows).1.stats = (r.filledSlot c rows).stats :=
    (settle_told (r.filledSlot c rows) c (r.entryOf rows)).1
  have hloadings : loadings (fill r c rows).1 + 1 = loadings r := by
    rw [← hleave, loadings, fill_eq, settle_calls]
    rfl
  have hcounts := fun (p : Count → Bool) (hp : ∀ n, p (.cached n) = false) =>
    counts_fill r c rows hp
  refine ⟨?_, ?_, ?_, ?_, ?_, ?_⟩
  · simp [hstats, hcounts Count.isHit fun _ => rfl, Count.isHit, filledSlot, setSlot]
  · simp [hstats, hcounts Count.isMiss fun _ => rfl, Count.isMiss, filledSlot, setSlot]
  · simp [hasks, hcounts Count.isMiss fun _ => rfl, Count.isMiss]
  · simp [hstats, hcounts Count.isFailure fun _ => rfl, Count.isFailure, filledSlot, setSlot]
  · simp [hstats, hcounts Count.isError fun _ => rfl, Count.isError, filledSlot, setSlot]
  · simp [hcounts Count.isLoaded fun _ => rfl, hcounts Count.isMiss fun _ => rfl, Count.isLoaded,
      Count.isMiss, hloadings]

theorem fail_told (hn : (r.calls.map (·.number)).Nodup) (hc : c ∈ r.calls) (hl : c.loading = true)
    (x : StorageError) : Told r (fail r c x) where
  hits := rfl
  loads := rfl
  asked := rfl
  failures := rfl
  errors := rfl
  ended := by
    have hleave := loadings_leave hn hc
    rw [if_pos hl] at hleave
    exact hleave

/-- Every step of the registry tells what it does to the statistics. -/
theorem step_told (hn : (r.calls.map (·.number)).Nodup)
    (hf : ∀ k, s.begun? = some k → k ∉ r.calls.map (·.number)) : Told r (step r s) := by
  cases s with
  | begin k a => exact begin_told (hf k rfl) a
  | answer k found =>
    have h := answer_answering r k found
    rw [step]
    generalize answer r k found = x at h ⊢
    cases h with
    | unasked => exact .idle r
    | fills c rows hm hl => exact fill_told hn hm hl rows
    | fails c x hm hl => exact fail_told hn hm hl x
  | wake k => exact wake_told hn k
  | invalidate a =>
    simp only [step, invalidate]
    split
    · exact .of_same rfl rfl rfl (by simp [Sizes, told])
    · exact .idle r
  | invalidateAll => exact .of_same rfl rfl rfl (by simp [Sizes, step, invalidateAll, told])
  | close =>
    simp only [step, close]
    split
    · exact .idle r
    · rw [foldl_release]
      exact .of_same rfl rfl rfl (by simp [Sizes, told])
  | pass time => exact .of_same rfl rfl rfl (List.forall_mem_nil _)

/-- The statistics of the registry are what it has counted since it started. -/
theorem run_told (ttl : Option Duration) (hd : Distinct steps) :
    Told (start ttl) (run (start ttl) steps) := by
  induction steps using List.reverseRecOn with
  | nil => exact .of_same rfl rfl rfl (List.forall_mem_nil _)
  | append_singleton steps s ih =>
    have hnumbered := run_numbered ttl hd.append_left
    rw [run_snoc]
    exact (ih hd.append_left).trans
      (step_told (hnumbered.calls_nodup hd.append_left) (hnumbered.fresh hd))

end Uplink.Registry
