import Uplink.Proofs.Dispatch.Aside
import Uplink.Proofs.Registry.TimedCache
import Uplink.Service.Basic

namespace Uplink.Service

open Dispatch Registry Time

variable {s : Service} {x y : Registry.Outcome} {o : Outcome} {a : Int64} {k n : Nat}
  {result : Resolved} {outs : List Registry.Output}

/-- Work by which, with nothing being sent, the registry comes to a state and says something. -/
structure Became (s : Service) (x : Registry.Outcome) (o : Outcome) : Prop where
  registry : o.1.registry = x.1
  sends : o.1.dispatcher.sends = []
  source : o.1.source = s.source
  outage : o.1.outage = s.outage
  lookups : o.1.lookups = s.lookups + (asks x.2).length
  said : o.2 = x.2.map Dispatch.pass

theorem Became.lookup (h : Became s x o) (a : Int64) : o.1.lookup a = s.lookup a := by
  simp only [Service.lookup, h.source, h.outage]

theorem Became.andThen (h : Became s x o) (work : Service → Outcome)
    (h' : Became o.1 y (work o.1)) :
    Became s (y.1, x.2 ++ y.2) (andThen o work) where
  registry := h'.registry
  sends := h'.sends
  source := h'.source.trans h.source
  outage := h'.outage.trans h.outage
  lookups := by
    rw [asks_append, List.length_append, ← Nat.add_assoc, ← h.lookups]
    exact h'.lookups
  said := by
    rw [List.map_append, ← h.said, ← h'.said]
    rfl

theorem note_passed (s : Service) (outs : List Registry.Output) :
    ((outs.map Dispatch.pass).foldl note s).dispatcher = s.dispatcher ∧
      ((outs.map Dispatch.pass).foldl note s).source = s.source ∧
      ((outs.map Dispatch.pass).foldl note s).outage = s.outage ∧
      ((outs.map Dispatch.pass).foldl note s).lookups = s.lookups + (asks outs).length := by
  induction outs generalizing s with
  | nil => exact ⟨rfl, rfl, rfl, rfl⟩
  | cons out outs ih =>
    obtain ⟨hd, hsrc, hout, hl⟩ := ih (s.note (Dispatch.pass out))
    rw [List.map_cons, List.foldl_cons, hd, hsrc, hout, hl]
    cases out with
    | asked k a =>
      have hasks : asks (.asked k a :: outs) = k :: asks outs := rfl
      rw [hasks, List.length_cons, Nat.add_comm (asks outs).length 1, ← Nat.add_assoc]
      exact ⟨rfl, rfl, rfl, rfl⟩
    | _ => exact ⟨rfl, rfl, rfl, rfl⟩

theorem perform_registry (hs : s.dispatcher.sends = []) (t : Registry.Step) :
    Became s (Registry.step s.registry t) (s.perform (.registry t)) := by
  have hnone : ∀ k, s.dispatcher.send? k = none := by simp [Dispatcher.send?, hs]
  have hstep := registryStep_unwaited (d := s.dispatcher) (t := t) fun k _ _ => hnone k
  have hperform : s.perform (.registry t) =
      (((Registry.step s.registry t).2.map Dispatch.pass).foldl note
          { s with dispatcher :=
            { s.dispatcher with registry := (Registry.step s.registry t).1 } },
        (Registry.step s.registry t).2.map Dispatch.pass) := by
    simp only [perform, Dispatch.step, hstep]
    rfl
  rw [hperform]
  obtain ⟨hd, hsrc, hout, hl⟩ := note_passed { s with dispatcher :=
    { s.dispatcher with registry := (Registry.step s.registry t).1 } }
    (Registry.step s.registry t).2
  exact ⟨congrArg Dispatcher.registry hd, (congrArg Dispatcher.sends hd).trans hs, hsrc, hout, hl,
    rfl⟩

theorem longest_passed (s : Service) (outs : List Registry.Output) :
    s.longest (outs.map Dispatch.pass) = ⟨0⟩ := by
  have hzero : ∀ out, s.delay (Dispatch.pass out) = ⟨0⟩ := by
    intro out
    cases out <;> rfl
  unfold longest
  induction outs with
  | nil => rfl
  | cons out outs ih => simpa [hzero] using ih

theorem reaction_passed (s : Service) (outs : List Registry.Output) :
    (outs.map Dispatch.pass).filterMap s.reaction = [] := by
  refine List.filterMap_eq_nil_iff.mpr fun x hx => ?_
  obtain ⟨out, -, rfl⟩ := List.mem_map.mp hx
  cases out <;> rfl

/-- Of what the registry says nothing waits for the rest of the world. -/
theorem attend_passed (hs : s.dispatcher.sends = []) (outs : List Registry.Output) :
    Became s (s.registry, []) (s.attend (outs.map Dispatch.pass)) := by
  have hattend : s.attend (outs.map Dispatch.pass) = s.perform (.registry (.pass ⟨0⟩)) := by
    simp only [attend, longest_passed, reaction_passed, List.foldl_nil]
  rw [hattend]
  exact perform_registry hs (.pass ⟨0⟩)

theorem Became.attend (h : Became s x o) : Became s x (Service.andThen o (·.attend o.2)) := by
  have hattend := attend_passed h.sends x.2
  rw [← h.said, h.registry] at hattend
  have hthen := h.andThen (·.attend o.2) hattend
  rwa [List.append_nil] at hthen

/-- A call whose lookup is out has it answered. -/
theorem finishCall_loading (hs : s.dispatcher.sends = [])
    (hc : s.registry.calls = [⟨k, a, n, true⟩]) :
    Became s (Registry.answer s.registry k (s.lookup a)) (s.finishCall k) := by
  have hcall : s.registry.call? k = some ⟨k, a, n, true⟩ := by simp [Registry.call?, hc]
  have hwake : Registry.step s.registry (.wake k) = (s.registry, []) := by
    simp only [Registry.step, Registry.wake, hcall, if_true]
  have hfirst := perform_registry hs (.wake k)
  rw [hwake] at hfirst
  have hnext := perform_registry hfirst.sends (.answer k (s.lookup a))
  rw [hfirst.registry] at hnext
  have hfinish : s.finishCall k = Service.andThen (s.perform (.registry (.wake k)))
      (·.perform (.registry (.answer k (s.lookup a)))) := by
    simp only [finishCall, Service.andThen, hfirst.registry, hcall, hfirst.lookup]
  rw [hfinish]
  exact hfirst.andThen _ hnext

theorem Became.settle_idle (h : Became s x o) (hc : x.1.calls = []) : Became s x (settle o) := by
  have hsettle : settle o = Service.andThen o (·.attend o.2) := by
    simp only [settle, h.registry, hc, List.map_nil, List.foldl_nil]
  rw [hsettle]
  exact h.attend

theorem Became.settle_loading (h : Became s x o) (hc : x.1.calls = [⟨k, a, n, true⟩]) :
    Became s ((Registry.answer x.1 k (s.lookup a)).1,
      x.2 ++ (Registry.answer x.1 k (s.lookup a)).2) (settle o) := by
  have hfinish := h.andThen (·.finishCall k) (finishCall_loading (a := a) (n := n) h.sends
    (by rw [h.registry, hc]))
  rw [h.registry, h.lookup] at hfinish
  have hsettle : settle o = Service.andThen (Service.andThen o (·.finishCall k))
      (·.attend (Service.andThen o (·.finishCall k)).2) := by
    simp only [settle, h.registry, hc, List.map_cons, List.map_nil, List.foldl_cons,
      List.foldl_nil]
  rw [hsettle]
  exact hfinish.attend

/-- The result of a call is what it returns. -/
theorem resolvedOf_passed (hr : returns outs = [k]) (hm : .returned k result ∈ outs) :
    resolvedOf k (outs.map Dispatch.pass) = result := by
  obtain ⟨result', pre, post, rfl, hpre, hpost⟩ := returns_eq_singleton hr
  have hresult : result = result' := by
    rcases List.mem_append.mp hm with hm | hm
    · have := mem_returns_of_returned hm
      rw [hpre] at this
      cases this
    · rcases List.mem_cons.mp hm with hm | hm
      · cases hm
        rfl
      · have := mem_returns_of_returned hm
        rw [hpost] at this
        cases this
  have hnone : resolved? k (pre.map Dispatch.pass) = none := by
    refine List.findSome?_eq_none_iff.mpr fun x hx => ?_
    obtain ⟨out, hout, rfl⟩ := List.mem_map.mp hx
    cases out with
    | returned j r =>
      have := mem_returns_of_returned hout
      rw [hpre] at this
      cases this
    | _ => rfl
  have hsome : resolved? k ((pre ++ .returned k result' :: post).map Dispatch.pass) =
      some result' := by
    rw [List.map_append, resolved?, List.findSome?_append]
    unfold resolved? at hnone
    rw [hnone]
    simp [Dispatch.pass]
  rw [resolvedOf, hsome, hresult]
  rfl

theorem beginResolve_became (hs : s.dispatcher.sends = []) (a : Int64) :
    Became s (Registry.begin s.registry s.next a) (s.beginResolve a).2 := by
  have h := perform_registry (s := { s with next := s.next + 1 }) hs (.begin s.next a)
  exact ⟨h.registry, h.sends, h.source, h.outage, h.lookups, h.said⟩

/-- Does one thing with the registry of a service, or with its store, and tells what came of it. -/
def operate (s : Service) : Operation → Service × Reply
  | .resolve a =>
    let (after, result) := s.resolve a
    (after, .resolved result (after.lookups - s.lookups))
  | .invalidate a =>
    let (s, present) := s.invalidate a
    (s, .dropped present)
  | .invalidateAll => (s.invalidateAll, .done)
  | .close => (s.closeRegistry, .done)
  | .pass time => (s.pass time, .done)
  | .store row => ({ s with source := s.source.upsert row }, .done)
  | .remove a kind => ({ s with source := (s.source.remove a kind).1 }, .done)
  | .outage reason => ({ s with outage := reason }, .done)

/-- Does one thing after the other. -/
def operateAll (s : Service) : List Operation → Service × List Reply
  | [] => (s, [])
  | op :: ops =>
    let (s, reply) := s.operate op
    let (s, replies) := s.operateAll ops
    (s, reply :: replies)

/-- The service has come to where the reference is, after these replies. -/
structure Follows (c : TimedCache) (past : List Reply) (s : Service) : Prop where
  mirrors : Mirrors c s.registry
  sends : s.dispatcher.sends = []
  source : s.source = c.source
  outage : s.outage = c.outage
  stats : s.registry.stats = tally past

variable {c d : TimedCache} {past : List Reply} {reply : Reply}

theorem Follows.became (h : Follows c past s) (hb : Became s x o) (hm : Mirrors d x.1)
    (hsource : d.source = c.source) (houtage : d.outage = c.outage)
    (hstats : x.1.stats = tally (past ++ [reply])) : Follows d (past ++ [reply]) o.1 where
  mirrors := hb.registry ▸ hm
  sends := hb.sends
  source := hb.source.trans (h.source.trans hsource.symm)
  outage := hb.outage.trans (h.outage.trans houtage.symm)
  stats := hb.registry ▸ hstats

theorem operate_resolve (result : Resolved) (hb : Became s x (settle (s.beginResolve a).2))
    (hr : returns x.2 = [s.next]) (hm : .returned s.next result ∈ x.2) :
    s.operate (.resolve a) =
      ((settle (s.beginResolve a).2).1, .resolved result (asks x.2).length) := by
  have hresult := resolvedOf_passed hr hm
  rw [← hb.said] at hresult
  have hcount : (settle (s.beginResolve a).2).1.lookups - s.lookups = (asks x.2).length := by
    rw [hb.lookups, Nat.add_sub_cancel_left]
  have hresolve : s.resolve a = ((settle (s.beginResolve a).2).1, result) := by
    rw [← hresult]
    rfl
  simp only [operate, hresolve, hcount]

/-- What a resolution comes to, where the reference says the same of it. -/
theorem Follows.resolved (h : Follows c past s) (result : Resolved)
    (hb : Became s x (settle (s.beginResolve a).2)) (hr : returns x.2 = [s.next])
    (hm : .returned s.next result ∈ x.2)
    (hc : c.resolve a = (d, .resolved result (asks x.2).length)) (hmirrors : Mirrors d x.1)
    (hsource : d.source = c.source) (houtage : d.outage = c.outage)
    (hstats : x.1.stats = tally (past ++ [.resolved result (asks x.2).length])) :
    (s.operate (.resolve a)).2 = (c.resolve a).2 ∧
      Follows (c.resolve a).1 (past ++ [(c.resolve a).2]) (s.operate (.resolve a)).1 := by
  rw [operate_resolve result hb hr hm, hc]
  exact ⟨rfl, h.became hb hmirrors hsource houtage hstats⟩

/-- The lookup of an application fails. -/
theorem Follows.unavailable {reason : String} (h : Follows c past s) (ho : c.closed = false)
    (hn : c.items[a]?.filter c.isGood = none) (hout : c.outage = some reason)
    (hb : Became s (s.registry.asking s.next a, [.counted .miss, .asked s.next a])
      (s.beginResolve a).2) :
    (s.operate (.resolve a)).2 = (c.resolve a).2 ∧
      Follows (c.resolve a).1 (past ++ [(c.resolve a).2]) (s.operate (.resolve a)).1 := by
  have hlookup : s.lookup a = .error (.unavailable reason) := by
    simp only [Service.lookup, h.outage, hout]
  have hset := hb.settle_loading rfl
  rw [hlookup, answer_asking_error] at hset
  refine h.resolved (.error (.storage (.unavailable reason))) hset rfl (by simp)
    (TimedCache.resolve_unavailable ho hn hout)
    (h.mirrors.dropped a _ (getD_snoc_fresh s.registry.slots) _) rfl rfl ?_
  rw [tally_snoc, ← h.stats]
  rfl

/-- The lookup of an application finds its rows. -/
theorem Follows.available (h : Follows c past s) (ho : c.closed = false)
    (hn : c.items[a]?.filter c.isGood = none) (hout : c.outage = none)
    (hb : Became s (s.registry.asking s.next a, [.counted .miss, .asked s.next a])
      (s.beginResolve a).2) :
    (s.operate (.resolve a)).2 = (c.resolve a).2 ∧
      Follows (c.resolve a).1 (past ++ [(c.resolve a).2]) (s.operate (.resolve a)).1 := by
  have hlookup : s.lookup a = .ok (c.source.list a) := by
    simp only [Service.lookup, h.outage, hout, h.source]
  have hentry : s.registry.entryOf (c.source.list a) = c.build (c.source.list a) := by
    simp only [Registry.entryOf, TimedCache.build, h.mirrors.entries, h.mirrors.hooks,
      h.mirrors.now]
  have hset := hb.settle_loading rfl
  rw [hlookup, answer_asking_ok (h.mirrors.closed.trans ho), hentry] at hset
  obtain ⟨hasks, hreturns⟩ := found_said s.registry s.next a (c.source.list a)
    (c.build (c.source.list a)) ((s.registry.cache.filter (·.1 != a)).length + 1)
  refine h.resolved (.ok (c.build (c.source.list a))) hset hreturns (by simp) ?_
    (h.mirrors.taken ho a _ rfl _) rfl rfl ?_
  · rw [hasks]
    exact TimedCache.resolve_available ho hn hout
  · rw [hasks, List.length_singleton, tally_snoc, tally_loaded, ← h.stats]
    rfl

/-- A resolution ends in one go, with the reply of the reference. -/
theorem Follows.resolve (h : Follows c past s) (a : Int64) :
    (s.operate (.resolve a)).2 = (c.resolve a).2 ∧
      Follows (c.resolve a).1 (past ++ [(c.resolve a).2]) (s.operate (.resolve a)).1 := by
  have hbegins := h.mirrors.begin s.next a
  have hb := beginResolve_became h.sends a
  generalize Registry.begin s.registry s.next a = x at hbegins hb
  cases hbegins with
  | refused hc =>
    refine h.resolved (.error .closed) (hb.settle_idle h.mirrors.idle) rfl (by simp)
      (TimedCache.resolve_closed hc a) h.mirrors rfl rfl ?_
    rw [tally_snoc, ← h.stats]
    rfl
  | hit e ho hg =>
    refine h.resolved (.ok e) (hb.settle_idle h.mirrors.idle) rfl (by simp)
      (TimedCache.resolve_good ho hg) { h.mirrors with } rfl rfl ?_
    rw [tally_snoc, ← h.stats]
    rfl
  | asking ho hn =>
    cases hout : c.outage with
    | some reason => exact h.unavailable ho hn hout hb
    | none => exact h.available ho hn hout hb

/-- A step of the registry that counts for nothing. -/
theorem Follows.step (h : Follows c past s) (t : Registry.Step) (reply : Reply)
    (hm : Mirrors d (Registry.step s.registry t).1) (hsource : d.source = c.source)
    (houtage : d.outage = c.outage)
    (hstats : (Registry.step s.registry t).1.stats = s.registry.stats)
    (hr : tally [reply] = ⟨0, 0, 0, 0⟩) :
    Follows d (past ++ [reply]) (s.perform (.registry t)).1 := by
  refine h.became (perform_registry h.sends t) hm hsource houtage ?_
  rw [hstats, tally_snoc, hr, h.stats]
  rfl

/-- Whatever is done, the reply is that of the reference. -/
theorem Follows.operate (h : Follows c past s) (op : Operation) :
    (s.operate op).2 = (c.operate op).2 ∧
      Follows (c.operate op).1 (past ++ [(c.operate op).2]) (s.operate op).1 := by
  have stored : tally (past ++ [.done]) = tally past := by
    rw [tally_snoc]
    rfl
  cases op with
  | resolve a => exact h.resolve a
  | invalidate a =>
    refine ⟨congrArg Reply.dropped (h.mirrors.present a), ?_⟩
    refine h.step (.invalidate a) _ (h.mirrors.invalidated a) rfl rfl ?_ rfl
    change (Registry.invalidate s.registry a).1.stats = _
    rw [invalidate_eq]
  | invalidateAll => exact ⟨rfl, h.step .invalidateAll _ h.mirrors.invalidatedAll rfl rfl rfl rfl⟩
  | close =>
    exact ⟨rfl, h.step .close _ h.mirrors.closing rfl rfl (close_stats s.registry) rfl⟩
  | pass time => exact ⟨rfl, h.step (.pass time) _ (h.mirrors.pass time) rfl rfl rfl rfl⟩
  | store row =>
    exact ⟨rfl, { h.mirrors with }, h.sends, congrArg (·.upsert row) h.source, h.outage,
      h.stats.trans stored.symm⟩
  | remove a kind =>
    exact ⟨rfl, { h.mirrors with }, h.sends, congrArg (fun x => (x.remove a kind).1) h.source,
      h.outage, h.stats.trans stored.symm⟩
  | outage reason =>
    exact ⟨rfl, { h.mirrors with }, h.sends, h.source, rfl, h.stats.trans stored.symm⟩

theorem Follows.operateAll (h : Follows c past s) (ops : List Operation) :
    (s.operateAll ops).2 = (c.run ops).2 ∧
      Follows (c.run ops).1 (past ++ (c.run ops).2) (s.operateAll ops).1 := by
  induction ops generalizing c past s with
  | nil => exact ⟨rfl, by rw [TimedCache.run, List.append_nil]; exact h⟩
  | cons op ops ih =>
    obtain ⟨hreply, hnext⟩ := h.operate op
    obtain ⟨hreplies, hlast⟩ := ih hnext
    rw [List.append_assoc] at hlast
    exact ⟨congrArg₂ List.cons hreply hreplies, hlast⟩

theorem start_follows (broker : Backend.BrokerBackend) (ttl : Option Duration)
    (source : Store.Source) (far : Webhook.FarSide) :
    Follows (.new ttl source) [] (Service.start broker ttl source far) where
  mirrors :=
    { ttl := rfl
      now := rfl
      closed := rfl
      idle := rfl
      once := List.nodup_nil
      held := fun _ _ hm => absurd hm List.not_mem_nil
      absent := fun _ _ => Std.HashMap.getElem?_empty
      entries := rfl
      hooks := rfl
      aged := fun a e he => by simp [TimedCache.new] at he
      emptied := fun _ => rfl }
  sends := rfl
  source := rfl
  outage := rfl
  stats := rfl

/-- With one thing done at a time the registry is a map with a time to live in front of its store:
every resolution returns what the map says and makes as many lookups, the cache holds what is in the
map, and the statistics count what the map replied. -/
theorem registry_is_timed_cache (broker : Backend.BrokerBackend) (ttl : Option Duration)
    (source : Store.Source) (far : Webhook.FarSide) (ops : List Operation) :
    let reference := (TimedCache.new ttl source).run ops
    let service := (Service.start broker ttl source far).operateAll ops
    service.2 = reference.2 ∧
      (∀ a, service.1.registry.cachedEntry? a = reference.1.items[a]?) ∧
      service.1.registry.cachedApplications = reference.1.items.size ∧
      service.1.registry.stats = tally reference.2 := by
  intro reference service
  obtain ⟨hreplies, hlast⟩ := (start_follows broker ttl source far).operateAll ops
  exact ⟨hreplies, hlast.mirrors.lookup, hlast.mirrors.size, hlast.stats⟩

/-- An entry expires when its age reaches the time to live, and a lookup that then fails leaves
nothing of it. -/
example :
    let ops := [.resolve 7, .pass ⟨4⟩, .resolve 7, .pass ⟨1⟩, .outage (some "down"), .resolve 7,
      .invalidate 7]
    let service := start (.new .atMostOnce ⟨5⟩) (some ⟨5⟩) (.table []) Webhook.unreachable
    (service.operateAll ops).2 =
      [.resolved (.ok ⟨0, [], [], ⟨0⟩⟩) 1, .done, .resolved (.ok ⟨0, [], [], ⟨0⟩⟩) 0, .done, .done,
        .resolved (.error (.storage (.unavailable "down"))) 1, .dropped false] := rfl

end Uplink.Service
