import Uplink.Proofs.Dispatch.Likeness
import Uplink.Proofs.Store.Rows

namespace Uplink.Dispatch

open Backend Broker Notification Registry Store Time

/-- A dispatcher in front of a source, and what the lookups of calls have read there. -/
structure Site where
  dispatcher : Dispatcher
  source : Source
  reads : List (Nat × Lookup)

/-- What can be done at a site. -/
inductive Deed where
  | act (act : Act)
  /-- The lookup of a call reads the source, or fails for a reason. -/
  | read (call : Nat) (outage : Option String)
  | upsert (row : Store.Integration)
  | remove (application : Int64) (kind : String)

/-- What can be told of a deed: what comes out of the dispatcher, and whether there was anything to
drop or to remove. -/
inductive Notice where
  | said (o : Output)
  | invalidated (application : Int64) (had : Bool)
  | removed (application : Int64) (had : Bool)

namespace Site

/-- A site where nothing has been done yet. -/
def untouched (broker : BrokerBackend) (ttl : Option Duration) (source : Source) : Site :=
  ⟨fresh broker ttl, source, []⟩

/-- What the lookup of a call has read, if it has. -/
def found (s : Site) (call : Nat) : Option Lookup := s.reads.lookup call

/-- What a lookup finds at the moment. -/
def find (s : Site) (outage : Option String) (application : Int64) : Lookup :=
  match outage with
  | some reason => .error (.unavailable reason)
  | none => .ok (s.source.list application)

/-- What an act tells by what it returns. -/
def told (s : Site) : Act → List Notice
  | .invalidate a => [.invalidated a (s.dispatcher.registry.cache.lookup a).isSome]
  | _ => []

end Site

namespace World

variable (w : World)

def deed (s : Site) : Deed → Site × List Notice
  | .act act =>
    let (dispatcher, outputs) := w.act s.found s.dispatcher act
    ({ s with dispatcher }, s.told act ++ outputs.map .said)
  | .read call outage =>
    match s.dispatcher.registry.call? call with
    | some c =>
      if c.loading then ({ s with reads := (call, s.find outage c.application) :: s.reads }, [])
      else (s, [])
    | none => (s, [])
  | .upsert row => ({ s with source := s.source.upsert row }, [])
  | .remove a kind =>
    let (source, had) := s.source.remove a kind
    ({ s with source }, [.removed a had])

/-- Does deeds one after the other and collects what is told. -/
def deeds (s : Site) (ds : List Deed) : Site × List Notice := collect w.deed s ds

/-- The step of the dispatcher that is a deed, if there is one. -/
def stepOf? (s : Site) : Deed → Option Step
  | .act act => w.step? s.found s.dispatcher act
  | _ => none

/-- The steps of the dispatcher that are deeds, one after the other. -/
def stepsOf (s : Site) : List Deed → List Step
  | [] => []
  | x :: ds => (w.stepOf? s x).toList ++ stepsOf (w.deed s x).1 ds

end World

/-- The number under which a deed begins a send or a call, and for whom. -/
def Deed.begun? : Deed → Option (Nat × Int64)
  | .act (.send k n) => some (k, n.applicationId)
  | .act (.resolve k a) => some (k, a)
  | _ => none

def begun (ds : List Deed) : List (Nat × Int64) := ds.filterMap Deed.begun?

/-- No two sends or calls begin under one number. -/
def DistinctDeeds (ds : List Deed) : Prop := ((begun ds).map Prod.fst).Nodup

instance (ds : List Deed) : Decidable (DistinctDeeds ds) :=
  inferInstanceAs (Decidable ((begun ds).map Prod.fst).Nodup)

/-- The numbers of the sends and calls that begin for an application. -/
def ownNumbers (a : Int64) (ds : List Deed) : List Nat :=
  (begun ds).filterMap fun x => if x.2 = a then some x.1 else none

/-- Whether an act is for an application, whose sends and calls have these numbers, or for all. -/
def Act.concerns (own : List Nat) (a : Int64) : Act → Bool
  | .send _ n => n.applicationId == a
  | .resolve _ b | .invalidate b => b == a
  | .load k | .wake k | .publish k | .post k _ => own.contains k
  | .invalidateAll | .shut | .close _ | .disconnect | .pass _ => true

/-- Whether a deed is for an application, or for all. -/
def Deed.concerns (own : List Nat) (a : Int64) : Deed → Bool
  | .act x => x.concerns own a
  | .read k _ => own.contains k
  | .upsert row => row.applicationId == a
  | .remove b _ => b == a

variable {w : World} {s : Site} {t : Step} {x : Deed} {ds all : List Deed} {a b : Int64} {k : Nat}
  {broker : BrokerBackend} {ttl : Option Duration} {source : Source}

theorem mem_ownNumbers : k ∈ ownNumbers a ds ↔ (k, a) ∈ begun ds := by
  simp only [ownNumbers, List.mem_filterMap, Option.ite_none_right_eq_some, Option.some.injEq]
  constructor
  · rintro ⟨⟨j, b⟩, hm, rfl, rfl⟩
    exact hm
  · exact fun h => ⟨_, h, rfl, rfl⟩

/-- A number is that of one application. -/
theorem DistinctDeeds.unique (h : DistinctDeeds ds) (ha : (k, a) ∈ begun ds)
    (hb : (k, b) ∈ begun ds) : a = b := by
  cases List.inj_on_of_nodup_map h ha hb rfl
  rfl

theorem begun_sublist (h : ds.Sublist all) : (begun ds).Sublist (begun all) := h.filterMap _

theorem DistinctDeeds.sublist (h : DistinctDeeds all) (hs : ds.Sublist all) : DistinctDeeds ds :=
  List.Nodup.sublist ((begun_sublist hs).map _) h

theorem deeds_snoc (w : World) (s : Site) (ds : List Deed) (x : Deed) :
    w.deeds s (ds ++ [x]) =
      ((w.deed (w.deeds s ds).1 x).1, (w.deeds s ds).2 ++ (w.deed (w.deeds s ds).1 x).2) :=
  collect_snoc ..

theorem stepsOf_snoc (w : World) (s : Site) (ds : List Deed) (x : Deed) :
    w.stepsOf s (ds ++ [x]) = w.stepsOf s ds ++ (w.stepOf? (w.deeds s ds).1 x).toList := by
  induction ds generalizing s with
  | nil => simp [World.stepsOf, World.deeds]
  | cons y ds ih =>
    have hcons : (w.deeds s (y :: ds)).1 = (w.deeds (w.deed s y).1 ds).1 := by
      rw [World.deeds, collect_cons]
      rfl
    rw [List.cons_append, World.stepsOf, ih, World.stepsOf, List.append_assoc, hcons]

/-- With a deed the dispatcher makes the step that it is, or none. -/
theorem deed_dispatcher (w : World) (s : Site) (x : Deed) :
    (w.deed s x).1.dispatcher = (run s.dispatcher (w.stepOf? s x).toList).1 := by
  cases x with
  | act act =>
    simp only [World.deed, World.stepOf?, World.act]
    cases w.step? s.found s.dispatcher act with
    | none => rfl
    | some t => rfl
  | read k outage =>
    simp only [World.deed]
    split
    · split <;> rfl
    · rfl
  | upsert | remove => rfl

/-- Deeds are, for the dispatcher, a run. -/
theorem deeds_dispatcher (w : World) (s : Site) (ds : List Deed) :
    (w.deeds s ds).1.dispatcher = (run s.dispatcher (w.stepsOf s ds)).1 := by
  induction ds using List.reverseRecOn with
  | nil => rfl
  | append_singleton ds x ih =>
    have hrun : run s.dispatcher
        (w.stepsOf s ds ++ (w.stepOf? (w.deeds s ds).1 x).toList) = _ :=
      collect_append step s.dispatcher (w.stepsOf s ds) _
    rw [deeds_snoc, stepsOf_snoc, hrun, deed_dispatcher, ih]
    rfl

/-- Sends and calls begin with the deeds that are said to begin them. -/
theorem stepOf?_begun (w : World) (s : Site) (x : Deed) :
    (w.stepOf? s x).toList.filterMap Step.begun? = x.begun?.toList.map Prod.fst := by
  cases x with
  | act act =>
    cases act with
    | load k | publish k | post k place =>
      refine List.filterMap_eq_nil_iff.mpr fun t ht => ?_
      obtain ⟨_, -, rfl⟩ := Option.map_eq_some_iff.mp (Option.mem_toList.mp ht)
      rfl
    | _ => rfl
  | _ => rfl

theorem begun_cons (x : Deed) (ds : List Deed) : begun (x :: ds) = x.begun?.toList ++ begun ds := by
  cases h : x.begun? <;> simp [begun, h]

theorem begun_snoc (ds : List Deed) (x : Deed) :
    begun (ds ++ [x]) = begun ds ++ x.begun?.toList := by
  rw [begun, List.filterMap_append]
  exact congrArg _ ((begun_cons x []).trans (List.append_nil _))

theorem stepsOf_begun (w : World) (s : Site) (ds : List Deed) :
    (w.stepsOf s ds).filterMap Step.begun? = (begun ds).map Prod.fst := by
  induction ds generalizing s with
  | nil => rfl
  | cons x ds ih =>
    rw [World.stepsOf, List.filterMap_append, stepOf?_begun, ih, begun_cons, List.map_append]

theorem DistinctDeeds.steps (h : DistinctDeeds ds) (w : World) (s : Site) :
    Distinct (w.stepsOf s ds) := by
  unfold Distinct
  rw [stepsOf_begun]
  exact h

/-- What begins with a deed begins for the application that it is said to. -/
theorem begun_of_stepOf? (ht : w.stepOf? s x = some t)
    (hc : t = .registry (.begin k a) ∨ ∃ n, t = .begin k n ∧ n.applicationId = a) :
    x.begun? = some (k, a) := by
  cases x with
  | act y =>
    cases y with
    | send j n =>
      cases ht
      rcases hc with hc | ⟨m, hc, rfl⟩
      · cases hc
      · cases hc
        rfl
    | load j | publish j | post j place =>
      obtain ⟨_, -, rfl⟩ := Option.map_eq_some_iff.mp ht
      rcases hc with hc | ⟨m, hc, -⟩ <;> cases hc
    | resolve j b =>
      cases ht
      rcases hc with hc | ⟨m, hc, -⟩
      · cases hc
        rfl
      · cases hc
    | _ =>
      cases ht
      rcases hc with hc | ⟨m, hc, -⟩ <;> cases hc
  | _ => cases ht

/-- A call in a run has begun for its application. -/
theorem begun_of_call_inner {d : Dispatcher} (h : .begin k a ∈ inner d (w.stepsOf s ds)) :
    (k, a) ∈ begun ds := by
  obtain ⟨t, ht, hc⟩ : ∃ t ∈ w.stepsOf s ds,
      t = .registry (.begin k a) ∨ ∃ n, t = .begin k n ∧ n.applicationId = a := by
    rcases mem_inner h with h | ⟨n, h, hn⟩
    · exact ⟨_, h, .inl rfl⟩
    · exact ⟨_, h, .inr ⟨n, rfl, hn⟩⟩
  clear h
  induction ds generalizing s with
  | nil => cases ht
  | cons x ds ih =>
    rw [begun_cons]
    rcases List.mem_append.mp ht with ht | ht
    · have hbegun := begun_of_stepOf? (Option.mem_toList.mp ht) hc
      exact List.mem_append_left _ (Option.mem_toList.mpr hbegun)
    · exact List.mem_append_right _ (ih ht)

section

variable (hall : DistinctDeeds all) (hs : (ds ++ [x]).Sublist all)
  (hsite : s = (w.deeds (.untouched broker ttl source) ds).1)

include hsite

theorem site_run : s.dispatcher =
    (run (fresh broker ttl) (w.stepsOf (.untouched broker ttl source) ds)).1 := by
  rw [hsite]
  exact deeds_dispatcher w _ ds

theorem site_registry : s.dispatcher.registry = (Registry.run (Registry.start ttl)
    (inner (fresh broker ttl) (w.stepsOf (.untouched broker ttl source) ds))).1 := by
  rw [site_run hsite, run_registry]

/-- A call in flight is for the application for which it has begun. -/
theorem begun_of_site {c : Call} (hc : c ∈ s.dispatcher.registry.calls) :
    (c.number, c.application) ∈ begun ds := by
  rw [site_registry hsite] at hc
  exact begun_of_call_inner (Registry.begun_of_call ttl hc)

include hs

theorem begun_of_site_sublist {c : Call} (hc : c ∈ s.dispatcher.registry.calls) :
    (c.number, c.application) ∈ begun all :=
  (begun_sublist ((List.sublist_append_left ds [x]).trans hs)).subset (begun_of_site hsite hc)

include hall

theorem distinct_of_site (ht : w.stepOf? s x = some t) :
    Distinct (w.stepsOf (.untouched broker ttl source) ds ++ [t]) := by
  have hd := (hall.sublist hs).steps w (.untouched broker ttl source)
  rwa [stepsOf_snoc, ← hsite, ht] at hd

theorem owned_of_site {u : Registry.Step} (ht : w.stepOf? s x = some t)
    (hu : t.inner? s.dispatcher = some u) :
    Owned (ownNumbers a all) a s.dispatcher.registry u where
  called c hc hown := hall.unique (begun_of_site_sublist hs hsite hc) (mem_ownNumbers.mp hown)
  begun k b hub hown := by
    have hbegun : x.begun? = some (k, b) := by
      refine begun_of_stepOf? ht ?_
      cases t with
      | begin j n =>
        simp only [Step.inner?] at hu
        split at hu
        · cases hu
        · cases hu
          cases hub
          exact .inr ⟨n, rfl, rfl⟩
      | registry v =>
        cases hu
        exact .inl (congrArg Step.registry hub)
      | beginClose c =>
        simp only [Step.inner?] at hu
        split at hu
        · cases hu
        · cases hu
          cases hub
      | _ => cases hu
    refine hall.unique ((begun_sublist hs).subset ?_) (mem_ownNumbers.mp hown)
    rw [begun_snoc, hbegun]
    exact List.mem_append_right _ (Option.mem_toList.mpr rfl)

/-- A site is in order for every deed, as far as any application is concerned. -/
theorem fit_of_site (ht : w.stepOf? s x = some t) :
    Fit (ownNumbers a all) a s.dispatcher t where
  ready u hu := by
    have hd := (distinct_of_site hall hs hsite ht).inner (fresh broker ttl)
    have howned := owned_of_site (a := a) hall hs hsite ht hu
    rw [inner_snoc, ← site_run hsite, hu] at hd
    rw [site_registry hsite] at howned ⊢
    exact (run_sound ttl hd).ready howned
  unreleased ho := by
    have hstep : (step s.dispatcher t).1 = (run (fresh broker ttl)
        (w.stepsOf (.untouched broker ttl source) ds ++ [t])).1 := by
      rw [run_snoc, ← site_run hsite]
    rw [hstep, run_registry] at ho ⊢
    exact run_unreleased ttl _ ho
  hooks := by
    have hready := run_ready broker ttl (distinct_of_site hall hs hsite ht)
    rw [← site_run hsite] at hready
    exact hready.hooks

theorem calls_nodup_of_site (ht : w.stepOf? s x = some t) :
    ((step s.dispatcher t).1.registry.calls.map (·.number)).Nodup := by
  have hstep : (step s.dispatcher t).1 = (run (fresh broker ttl)
      (w.stepsOf (.untouched broker ttl source) ds ++ [t])).1 := by
    rw [run_snoc, ← site_run hsite]
  have hd := (distinct_of_site hall hs hsite ht).inner (fresh broker ttl)
  rw [hstep, run_registry]
  exact (run_numbered ttl hd).calls_nodup hd

/-- A step for others begins nothing of the application's and answers none of its sends. -/
theorem others_of_site (ht : w.stepOf? s x = some t)
    (hx : x.concerns (ownNumbers a all) a = false) :
    t.ForOthers (ownNumbers a all) a s.dispatcher := by
  -- what begins here begins for another application, under a number of its own
  have hother : ∀ j b, x.begun? = some (j, b) → b ≠ a → ∀ k ∈ ownNumbers a all, j ≠ k := by
    rintro j b hj hb k hk rfl
    refine hb (hall.unique ((begun_sublist hs).subset ?_) (mem_ownNumbers.mp hk))
    rw [begun_snoc, hj]
    exact List.mem_append_right _ (Option.mem_toList.mpr rfl)
  have hcalls : ∀ k, k ∉ ownNumbers a all →
      ¬∃ c ∈ s.dispatcher.registry.calls, c.number = k ∧ c.application = a := by
    rintro k hk ⟨c, hc, rfl, rfl⟩
    exact hk (mem_ownNumbers.mpr (begun_of_site_sublist hs hsite hc))
  have unowned : ∀ k, (ownNumbers a all).contains k = false → k ∉ ownNumbers a all := by
    intro k hk hm
    rw [List.contains_eq_mem, decide_eq_false_iff_not] at hk
    exact hk hm
  cases x with
  | act y =>
    cases y with
    | send j n =>
      cases ht
      have hn : n.applicationId ≠ a := by simpa [Deed.concerns, Act.concerns] using hx
      refine ⟨by simp, fun k hk he => hother j _ rfl hn k hk (Option.some.inj he), by
        simp [Step.answered?], fun u hu => ?_⟩
      simp only [Step.inner?] at hu
      split at hu
      · cases hu
      · cases hu
        exact ⟨hn, by simp⟩
    | resolve j b =>
      cases ht
      have hb : b ≠ a := by simpa [Deed.concerns, Act.concerns] using hx
      exact forOthers_registry (fun k hk he => hother j _ rfl hb k hk (Option.some.inj he)) hb
        (by simp)
    | load j =>
      obtain ⟨found, -, rfl⟩ := Option.map_eq_some_iff.mp ht
      exact forOthers_registry (by simp [Registry.Step.begun?]) (hcalls j (unowned j hx)) (by simp)
    | wake j =>
      cases ht
      exact forOthers_registry (by simp [Registry.Step.begun?]) (hcalls j (unowned j hx)) (by simp)
    | publish j | post j place =>
      obtain ⟨found, -, rfl⟩ := Option.map_eq_some_iff.mp ht
      refine ⟨by simp, by simp [Step.begun?], fun k hk he => unowned j hx ?_, fun u hu => by
        cases hu⟩
      rwa [Option.some.inj he]
    | invalidate b =>
      cases ht
      have hb : b ≠ a := by simpa [Deed.concerns, Act.concerns] using hx
      exact forOthers_registry (by simp [Registry.Step.begun?]) hb (by simp)
    | _ => cases hx
  | _ => cases ht

end

end Uplink.Dispatch
