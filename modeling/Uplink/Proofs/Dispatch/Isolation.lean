import Uplink.Proofs.Dispatch.Confluence
import Uplink.Proofs.Dispatch.Site
import Uplink.Proofs.Registry.TimedCache

namespace Uplink.Dispatch

open Backend Broker Notification Registry Store Time

variable {w : World} {s t : Site} {x : Deed} {ds all : List Deed} {a : Int64} {k : Nat}
  {broker : BrokerBackend} {ttl : Option Duration} {source : Source} {own : List Nat}
  {f : Nat → Nat} {l : List Notice} {o : List Output}

def Notice.bare : Notice → Notice
  | .said o => .said o.bare
  | x => x

/-- Whether an application, whose sends and calls have these numbers, is told. -/
def Notice.tells (own : List Nat) (a : Int64) : Notice → Bool
  | .said o => o.tells own a
  | .invalidated b _ | .removed b _ => b == a

/-- What an application notices. -/
def noticed (own : List Nat) (a : Int64) (l : List Notice) : List Notice :=
  (l.map Notice.bare).filter (Notice.tells own a)

@[simp] theorem noticed_append (own : List Nat) (a : Int64) (l l' : List Notice) :
    noticed own a (l ++ l') = noticed own a l ++ noticed own a l' := by
  simp [noticed]

theorem noticed_said (own : List Nat) (a : Int64) (o : List Output) :
    noticed own a (o.map .said) = (seen own a o).map .said := by
  rw [noticed, seen, List.map_map, List.filter_map, List.filter_map, List.map_map]
  rfl

/-- To an application the first site is as the second one. -/
structure Site.Alike (own : List Nat) (a : Int64) (f : Nat → Nat) (s t : Site) : Prop where
  dispatcher : Dispatch.Alike own a f s.dispatcher t.dispatcher
  source : Source.Alike a s.source t.source
  reads : ∀ k ∈ own, s.found k = t.found k

theorem told_alike (h : s.Alike own a f t) {y : Act} (hy : y.concerns own a) :
    s.told y = t.told y := by
  cases y with
  | invalidate b =>
    obtain rfl : b = a := by simpa [Act.concerns] using hy
    have hcached := h.dispatcher.registry.cached
    simp only [Site.told, hcached, Option.isSome_map]
  | _ => rfl

theorem noticed_told (s : Site) {y : Act} (hy : y.concerns own a = false) :
    noticed own a (s.told y) = [] := by
  cases y with
  | invalidate b =>
    have hb : (b == a) = false := hy
    simp [noticed, Site.told, Notice.bare, Notice.tells, hb]
  | _ => rfl

theorem act_for {y : Act} (hy : y.concerns own a)
    (hown : ∀ k, (Deed.act y).begun? = some (k, a) → k ∈ own) : y.For own a := by
  cases y with
  | send k n =>
    obtain rfl : n.applicationId = a := by simpa [Act.concerns] using hy
    exact ⟨hown k rfl, rfl⟩
  | resolve k b =>
    obtain rfl : b = a := by simpa [Act.concerns] using hy
    exact ⟨hown k rfl, rfl⟩
  | load k | wake k | publish k | post k place | invalidate b =>
    simpa [Act.concerns, Act.For] using hy
  | _ => trivial

section

variable (hall : DistinctDeeds all) (hs : (ds ++ [x]).Sublist all)
  (hsite : s = (w.deeds (.untouched broker ttl source) ds).1)

include hall hs hsite

/-- A deed for the application, or for all, is the same to it at both sites. -/
theorem deed_alike {es : List Deed} {source' : Source} (hs' : (es ++ [x]).Sublist all)
    (hsite' : t = (w.deeds (.untouched broker ttl source') es).1)
    (h : s.Alike (ownNumbers a all) a f t) (hx : x.concerns (ownNumbers a all) a) :
    ∃ g, (w.deed s x).1.Alike (ownNumbers a all) a g (w.deed t x).1 ∧
      noticed (ownNumbers a all) a (w.deed s x).2 =
        noticed (ownNumbers a all) a (w.deed t x).2 := by
  cases x with
  | act y =>
    have hfor : y.For (ownNumbers a all) a := by
      refine act_for hx fun k hk => mem_ownNumbers.mpr ((begun_sublist hs).subset ?_)
      rw [begun_snoc, hk]
      exact List.mem_append_right _ (Option.mem_toList.mpr rfl)
    obtain ⟨g, hg⟩ := act_agree h.dispatcher hfor h.reads
      (fun u hu => fit_of_site hall hs hsite hu) fun u hu => fit_of_site hall hs' hsite' hu
    refine ⟨g, ⟨hg.alike, h.source, h.reads⟩, ?_⟩
    simp only [World.deed, noticed_append, noticed_said, hg.seen, told_alike h hx]
  | read k outage =>
    have hk : k ∈ ownNumbers a all := by simpa [Deed.concerns] using hx
    have hcall := h.dispatcher.registry.calls k hk
    cases hc : t.dispatcher.registry.call? k with
    | none =>
      rw [hc, Option.map_none] at hcall
      simp only [World.deed, hc, hcall]
      exact ⟨f, h, trivial⟩
    | some c =>
      rw [hc, Option.map_some] at hcall
      have hloading : (c.moved f).loading = c.loading := rfl
      simp only [World.deed, hc, hcall, hloading]
      split
      · obtain ⟨hm, rfl⟩ := call?_eq_some hc
        have ha : c.application = a :=
          hall.unique (begun_of_site_sublist hs' hsite' hm) (mem_ownNumbers.mp hk)
        have hfind : s.find outage (c.moved f).application = t.find outage c.application := by
          cases outage with
          | some reason => rfl
          | none => exact congrArg Except.ok (ha ▸ h.source.rows)
        refine ⟨f, ⟨h.dispatcher, h.source, fun j hj => ?_⟩, rfl⟩
        have hreads := h.reads j hj
        simp only [Site.found, List.lookup_cons, hfind] at hreads ⊢
        rw [hreads]
      · exact ⟨f, h, rfl⟩
  | upsert row => exact ⟨f, ⟨h.dispatcher, h.source.upsert row, h.reads⟩, rfl⟩
  | remove b kind =>
    obtain rfl : b = a := by simpa [Deed.concerns] using hx
    refine ⟨f, ⟨h.dispatcher, h.source.remove b kind, h.reads⟩, ?_⟩
    simp only [World.deed, Source.remove_found, h.source.rows]

/-- A deed for others, at one site, is nothing to the application. -/
theorem deed_unnoticed (h : s.Alike (ownNumbers a all) a f t)
    (hx : x.concerns (ownNumbers a all) a = false) :
    (w.deed s x).1.Alike (ownNumbers a all) a f t ∧
      noticed (ownNumbers a all) a (w.deed s x).2 = [] := by
  cases x with
  | act y =>
    have hact : Dispatch.Alike (ownNumbers a all) a f (w.act s.found s.dispatcher y).1
        t.dispatcher ∧ seen (ownNumbers a all) a (w.act s.found s.dispatcher y).2 = [] := by
      cases hu : w.step? s.found s.dispatcher y with
      | none =>
        rw [act_of_none hu]
        exact ⟨h.dispatcher, rfl⟩
      | some u =>
        rw [act_of_some hu]
        exact step_unseen h.dispatcher (others_of_site hall hs hsite hu hx)
          (fit_of_site hall hs hsite hu).ready (calls_nodup_of_site hall hs hsite hu)
    refine ⟨⟨hact.1, h.source, h.reads⟩, ?_⟩
    simp only [World.deed, noticed_append, noticed_told s hx, noticed_said, hact.2]
    rfl
  | read k outage =>
    have hk : k ∉ ownNumbers a all := by simpa [Deed.concerns] using hx
    simp only [World.deed]
    split
    · split
      · refine ⟨⟨h.dispatcher, h.source, fun j hj => ?_⟩, rfl⟩
        have hne : j ≠ k := fun he => hk (he ▸ hj)
        have hreads := h.reads j hj
        simp only [Site.found, List.lookup_cons, beq_false_of_ne hne] at hreads ⊢
        exact hreads
      · exact ⟨h, rfl⟩
    · exact ⟨h, rfl⟩
  | upsert row =>
    have hrow : row.applicationId ≠ a := by simpa [Deed.concerns] using hx
    exact ⟨⟨h.dispatcher, h.source.upsert_other hrow, h.reads⟩, rfl⟩
  | remove b kind =>
    have hb : b ≠ a := by simpa [Deed.concerns] using hx
    refine ⟨⟨h.dispatcher, h.source.remove_other hb kind, h.reads⟩, ?_⟩
    simp [World.deed, noticed, Notice.bare, Notice.tells, hb]

end

theorem untouched_alike (own : List Nat) (a : Int64) (broker : BrokerBackend)
    (ttl : Option Duration) (source : Source) :
    (Site.untouched broker ttl source).Alike own a id (.untouched broker ttl source) := by
  refine ⟨⟨rfl, rfl, ⟨rfl, rfl, rfl, rfl, fun _ _ => rfl, fun _ _ => rfl, fun _ _ _ _ h => h⟩,
    fun _ _ => rfl⟩, ⟨fun _ _ => rfl, rfl⟩, fun _ _ => rfl⟩

/-- However far a run has come, an application cannot tell it from the run without the deeds for
others. -/
theorem deeds_alike (hall : DistinctDeeds all) (hds : ds.Sublist all) (w : World) (a : Int64)
    (broker : BrokerBackend) (ttl : Option Duration) (source : Source) :
    let own := ownNumbers a all
    let whole := w.deeds (.untouched broker ttl source) ds
    let alone := w.deeds (.untouched broker ttl source) (ds.filter (Deed.concerns own a))
    (∃ f, whole.1.Alike own a f alone.1) ∧ noticed own a whole.2 = noticed own a alone.2 := by
  intro own whole alone
  induction ds using List.reverseRecOn with
  | nil => exact ⟨⟨id, untouched_alike own a broker ttl source⟩, rfl⟩
  | append_singleton ds x ih =>
    obtain ⟨⟨f, hf⟩, hnoticed⟩ := ih ((List.sublist_append_left ds [x]).trans hds)
    simp only [whole, alone, deeds_snoc, List.filter_append, noticed_append, hnoticed]
    cases hx : x.concerns own a with
    | true =>
      have hfilter : [x].filter (Deed.concerns own a) = [x] := by simp [hx]
      have hsub : (ds.filter (Deed.concerns own a) ++ [x]).Sublist all := by
        rw [← hfilter, ← List.filter_append]
        exact List.filter_sublist.trans hds
      obtain ⟨g, hg, hsame⟩ := deed_alike hall hds rfl hsub rfl hf hx
      rw [hfilter, deeds_snoc, noticed_append, hsame]
      exact ⟨⟨g, hg⟩, rfl⟩
    | false =>
      have hfilter : [x].filter (Deed.concerns own a) = [] := by simp [hx]
      obtain ⟨hg, hnone⟩ := deed_unnoticed hall hds rfl hf hx
      rw [hfilter, List.append_nil, hnone, List.append_nil]
      exact ⟨⟨f, hg⟩, rfl⟩

def Notice.output? : Notice → Option Output
  | .said o => some o
  | _ => none

/-- What came out of the dispatcher. -/
def outputs (l : List Notice) : List Output := l.filterMap Notice.output?

/-- The lookups that are made for an application, each by the call that makes it. -/
def lookupsFor (a : Int64) (o : List Output) : List Nat :=
  o.filterMap fun
    | .asked k b => if b = a then some k else none
    | _ => none

/-- What calls return, without the numbers of entries and webhooks. -/
def returned (o : List Output) : List (Nat × Resolved) :=
  o.filterMap fun
    | .resolved k result => some (k, result.map Entry.bare)
    | _ => none

/-- What the invalidations of an application return. -/
def invalidations (a : Int64) (l : List Notice) : List Bool :=
  l.filterMap fun
    | .invalidated b had => if b = a then some had else none
    | _ => none

/-- What the removals for an application return. -/
def removals (a : Int64) (l : List Notice) : List Bool :=
  l.filterMap fun
    | .removed b had => if b = a then some had else none
    | _ => none

/-- Those of some sends, or of some calls. -/
def among {α : Type} (own : List Nat) (l : List (Nat × α)) : List (Nat × α) :=
  l.filter fun x => own.contains x.1

/-- Two runs come to the same for an application, whose sends and calls have these numbers. -/
structure SameTo (own : List Nat) (a : Int64) (x y : Site × List Notice) : Prop where
  results : ∀ k ∈ own, results k (outputs x.2) = results k (outputs y.2)
  published : among own (published (outputs x.2)) = among own (published (outputs y.2))
  requested : among own (requested (outputs x.2)) = among own (requested (outputs y.2))
  delivered : among own (delivered (outputs x.2)) = among own (delivered (outputs y.2))
  returned : among own (returned (outputs x.2)) = among own (returned (outputs y.2))
  lookups : lookupsFor a (outputs x.2) = lookupsFor a (outputs y.2)
  entry : (x.1.dispatcher.registry.cachedEntry? a).map Entry.bare =
    (y.1.dispatcher.registry.cachedEntry? a).map Entry.bare
  invalidations : invalidations a x.2 = invalidations a y.2
  removals : removals a x.2 = removals a y.2
  rows : x.1.source.list a = y.1.source.list a

/-- What only depends on what is noticed can be read off that. -/
theorem filterMap_noticed {α : Type} {g : Notice → Option α} (hbare : ∀ x, g x.bare = g x)
    (htells : ∀ x y, g x = some y → x.tells own a) (l : List Notice) :
    l.filterMap g = (noticed own a l).filterMap g := by
  rw [noticed, List.filterMap_filter, List.filterMap_map]
  refine List.filterMap_congr fun x _ => ?_
  have htell : x.bare.tells own a = x.tells own a := by
    cases x with
    | said o => exact tells_bare own a o
    | _ => rfl
  simp only [Function.comp_apply, htell, hbare]
  cases hg : g x with
  | none => simp
  | some y => simp [htells x y hg]

/-- Where the same is noticed, whatever is said of an application is the same. -/
theorem filterMap_outputs {α : Type} {g : Output → Option α} (hbare : ∀ x, g x.bare = g x)
    (htells : ∀ x y, g x = some y → x.tells own a) {l l' : List Notice}
    (h : noticed own a l = noticed own a l') :
    (outputs l).filterMap g = (outputs l').filterMap g := by
  have hread : ∀ l, (outputs l).filterMap g =
      (noticed own a l).filterMap fun x => x.output?.bind g := by
    intro l
    rw [outputs, List.filterMap_filterMap]
    refine filterMap_noticed (fun x => ?_) (fun x y hx => ?_) l
    · cases x with
      | said o => exact hbare o
      | _ => rfl
    · cases x with
      | said o => exact htells o y hx
      | _ => cases hx
  rw [hread, hread, h]

theorem among_outputs {α : Type} {g : Output → Option (Nat × α)} (hbare : ∀ x, g x.bare = g x)
    (htells : ∀ x y, g x = some y → x.tells own a = own.contains y.1) {l l' : List Notice}
    (h : noticed own a l = noticed own a l') :
    among own ((outputs l).filterMap g) = among own ((outputs l').filterMap g) := by
  rw [among, among, List.filter_filterMap, List.filter_filterMap]
  refine filterMap_outputs (fun x => by rw [hbare]) (fun x y hx => ?_) h
  obtain ⟨hg, hown⟩ := Option.filter_eq_some_iff.mp hx
  rw [htells x y hg]
  exact hown

/-- What an application finds in the cache it finds in registries that are alike. -/
theorem cachedEntry?_alike {r q : Registry} (h : Registry.Alike own a f r q) :
    (r.cachedEntry? a).map Entry.bare = (q.cachedEntry? a).map Entry.bare := by
  unfold Registry.cachedEntry?
  rw [h.cached]
  cases hl : q.cache.lookup a with
  | none => rfl
  | some n => exact h.entry (.inl hl)

theorem sameTo_of_noticed {x y : Site × List Notice} (hf : x.1.Alike own a f y.1)
    (h : noticed own a x.2 = noticed own a y.2) : SameTo own a x y where
  results k hk := by
    refine filterMap_outputs (fun z => ?_) (fun z r hz => ?_) h
    · cases z <;> rfl
    · cases z with
      | sent j r =>
        rw [Option.ite_none_right_eq_some] at hz
        simpa [Output.tells, hz.1] using hk
      | _ => cases hz
  published := by
    refine among_outputs (fun z => ?_) (fun z r hz => ?_) h
    · cases z <;> rfl
    · cases z with
      | published => exact Option.some.inj hz ▸ rfl
      | _ => cases hz
  requested := by
    refine among_outputs (fun z => ?_) (fun z r hz => ?_) h
    · cases z <;> rfl
    · cases z with
      | requested => exact Option.some.inj hz ▸ rfl
      | _ => cases hz
  delivered := by
    refine among_outputs (fun z => ?_) (fun z r hz => ?_) h
    · cases z with
      | delivered j t r => cases t <;> rfl
      | _ => rfl
    · cases z with
      | delivered => exact Option.some.inj hz ▸ rfl
      | _ => cases hz
  returned := by
    refine among_outputs (fun z => ?_) (fun z r hz => ?_) h
    · cases z with
      | resolved j result =>
        cases result with
        | error e => rfl
        | ok e =>
          have htwice : e.bare.bare = e.bare := by simp [Entry.bare, Hook.bare]
          simp [Output.bare, Except.map, htwice]
      | _ => rfl
    · cases z with
      | resolved => exact Option.some.inj hz ▸ rfl
      | _ => cases hz
  lookups := by
    refine filterMap_outputs (fun z => ?_) (fun z r hz => ?_) h
    · cases z <;> rfl
    · cases z with
      | asked j b =>
        rw [Option.ite_none_right_eq_some] at hz
        simpa [Output.tells] using hz.1
      | _ => cases hz
  entry := cachedEntry?_alike hf.dispatcher.registry
  invalidations := by
    have hread : ∀ l, invalidations a l = invalidations a (noticed own a l) := by
      refine filterMap_noticed (fun z => ?_) fun z r hz => ?_
      · cases z <;> rfl
      · cases z with
        | invalidated b had =>
          rw [Option.ite_none_right_eq_some] at hz
          simpa [Notice.tells] using hz.1
        | _ => cases hz
    rw [hread, hread y.2, h]
  removals := by
    have hread : ∀ l, removals a l = removals a (noticed own a l) := by
      refine filterMap_noticed (fun z => ?_) fun z r hz => ?_
      · cases z <;> rfl
      · cases z with
        | removed b had =>
          rw [Option.ite_none_right_eq_some] at hz
          simpa [Notice.tells] using hz.1
        | _ => cases hz
    rw [hread, hread y.2, h]
  rows := hf.source.rows

/-- Applications do not influence each other. Whatever is done at a site, by sends, calls, writes to
the source, invalidations, closes and the passing of time, and with whatever outages, leaving out
every deed for other applications leaves an application the same: its sends end the same, the same
messages and requests go out for them and the same comes of these, its calls return the same, the
same lookups are made for it, the same is found for it in the cache, and its invalidations return
the same. -/
theorem applications_isolated (w : World) (broker : BrokerBackend) (ttl : Option Duration)
    (source : Source) (ds : List Deed) (hd : DistinctDeeds ds) (a : Int64) :
    let own := ownNumbers a ds
    let start := Site.untouched broker ttl source
    SameTo own a (w.deeds start ds) (w.deeds start (ds.filter (Deed.concerns own a))) := by
  intro own start
  obtain ⟨⟨f, hf⟩, hnoticed⟩ := deeds_alike hd (.refl ds) w a broker ttl source
  exact sameTo_of_noticed hf hnoticed

/-- Two applications at one site. The other one comes first, loses what is stored for it, and has
its lookup fail. -/
def neighbours : List Deed :=
  [.upsert ⟨9, "HTTP", .null⟩, .upsert ⟨7, "MAIL", .null⟩,
    .act (.send 0 ⟨9, .zero 8, .join, "null"⟩), .act (.send 1 joined), .remove 9 "HTTP",
    .read 1 none, .act (.invalidate 9), .read 0 (some "down"), .act (.load 1), .act (.pass ⟨5⟩),
    .act (.load 0), .act (.publish 1), .act (.publish 0), .act (.invalidate 7),
    .act (.send 2 joined), .read 2 none, .act (.load 2)]

/-- To the application 7 it is as if it were alone, though it has other slots. -/
theorem applications_isolated_neighbours :
    let start := Site.untouched (.new .atMostOnce ⟨5⟩) none (.memory .empty)
    let whole := accepting.deeds start neighbours
    let alone := accepting.deeds start (neighbours.filter (Deed.concerns [1, 2] 7))
    DistinctDeeds neighbours ∧ ownNumbers 7 neighbours = [1, 2] ∧ SameTo [1, 2] 7 whole alone ∧
      ((neighbours.filter (Deed.concerns [1, 2] 7)).length = 10 ∧
        lookupsFor 7 (outputs alone.2) = [1, 2] ∧ invalidations 7 alone.2 = [true] ∧
        (published (outputs alone.2)).map Prod.fst = [1, 2]) ∧
      whole.1.dispatcher.registry.cache = [(7, 2)] ∧
      alone.1.dispatcher.registry.cache = [(7, 1)] := by
  intro start whole alone
  have hd : DistinctDeeds neighbours := by decide
  have hown : ownNumbers 7 neighbours = [1, 2] := rfl
  have hsame := applications_isolated accepting (.new .atMostOnce ⟨5⟩) none (.memory .empty)
    neighbours hd 7
  rw [hown] at hsame
  exact ⟨hd, hown, hsame, by decide +kernel, by decide +kernel, by decide +kernel⟩

end Uplink.Dispatch
