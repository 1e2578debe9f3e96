import Uplink.Proofs.Dispatch.Outcomes

namespace Uplink.Dispatch

open Backend Broker Notification Registry Time

variable {d : Dispatcher} {k : Nat} {n : Encoded} {o : List Output} {steps : List Step}
  {hooks : List Hook} {found : Lookup} {result : Resolved} {broker : BrokerBackend}
  {ttl : Option Duration} {e : Entry} {x : Store.StorageError}

/-- The answer by which a send is resolved. The entry may have been looked up by another call, but a
send that fails has had its own lookup answered so. -/
inductive ResolvedBy (d : Dispatcher) (steps : List Step) (send : Nat) :
    Nat → Lookup → Resolved → Prop where
  | found (lookup : Nat) (rows : List Store.Integration) (e : Entry) (before after : List Step)
      (split : steps = before ++ .registry (.answer lookup (.ok rows)) :: after)
      (out : .loaded lookup e ∈
        (step (run d before).1 (.registry (.answer lookup (.ok rows)))).2) :
      ResolvedBy d steps send lookup (.ok rows) (.ok e)
  | failed (x : Store.StorageError) (before after : List Step)
      (split : steps = before ++ .registry (.answer send (.error x)) :: after)
      (out : .resolved send (.error (.storage x)) ∈
        (step (run d before).1 (.registry (.answer send (.error x)))).2) :
      ResolvedBy d steps send send (.error x) (.error (.storage x))

/-- A step in which the registry says something is one for the registry. -/
theorem heard_step {s : Step} {out : Registry.Output} (h : out ∈ heard (step d s).2) :
    ∃ t, s.inner? d = some t ∧ out ∈ (Registry.step d.registry t).2 := by
  cases hi : s.inner? d with
  | none =>
    rw [(step_of_inner_none hi).2] at h
    cases h
  | some t =>
    rw [(step_of_inner_some hi).2] at h
    exact ⟨t, rfl, h⟩

theorem inner_answer {s : Step} {found : Lookup} (h : s.inner? d = some (.answer k found)) :
    s = .registry (.answer k found) := by
  cases s with
  | registry t =>
    cases h
    rfl
  | begin j m =>
    simp only [Step.inner?] at h
    split at h <;> cases h
  | beginClose j =>
    simp only [Step.inner?] at h
    split at h <;> cases h
  | _ => cases h

/-- An entry is built from the rows of an answer. -/
theorem run_found (h : .loaded k e ∈ (run d steps).2) :
    ∃ rows before after, steps = before ++ .registry (.answer k (.ok rows)) :: after ∧
      .loaded k e ∈ (step (run d before).1 (.registry (.answer k (.ok rows)))).2 ∧
      BuiltFrom rows e := by
  obtain ⟨before, s, after, rfl, hs⟩ := mem_run h
  obtain ⟨t, hi, ht⟩ := heard_step (mem_heard_loaded.mpr hs)
  obtain ⟨rows, rfl, hb⟩ := step_found ht
  obtain rfl := inner_answer hi
  exact ⟨rows, before, after, rfl, hs, hb⟩

theorem run_failed (h : .resolved k (.error (.storage x)) ∈ (run d steps).2) :
    ∃ before after, steps = before ++ .registry (.answer k (.error x)) :: after ∧
      .resolved k (.error (.storage x)) ∈
        (step (run d before).1 (.registry (.answer k (.error x)))).2 := by
  obtain ⟨before, s, after, rfl, hs⟩ := mem_run h
  obtain ⟨t, hi, ht⟩ := heard_step (mem_heard_resolved.mpr hs)
  obtain ⟨rfl, -⟩ := step_storage ht
  obtain rfl := inner_answer hi
  exact ⟨before, after, rfl, hs⟩

/-- The failures a lookup tells of, whatever the deliveries do: the rows that cannot be built, in
order and by their stored kind, or the failed lookup itself. -/
def knownFailures : Lookup → List BackendFailure
  | .ok rows =>
    rows.filterMap fun row =>
      match Integration.build row with
      | .ok _ => none
      | .error e => some ⟨row.kind, .configuration e⟩
  | .error x => [⟨"storage", .storage x⟩]

/-- Where the webhooks go that a lookup leads to. -/
def builtBy : Lookup → List Webhook.Endpoints
  | .ok rows => built rows
  | .error _ => []

theorem knownFailures_ok (rows : List Store.Integration) :
    knownFailures (.ok rows) = (unbuilt rows).map ofConfiguration := by
  simp only [knownFailures, unbuilt, List.map_filterMap]
  congr 1
  funext row
  cases Integration.build row <;> rfl

theorem knownFailures_eq_nil :
    knownFailures found = [] ↔
      ∃ rows, found = .ok rows ∧ ∀ row ∈ rows, ∃ b, Integration.build row = .ok b := by
  cases found with
  | error x => simp [knownFailures]
  | ok rows =>
    simp only [knownFailures, List.filterMap_eq_nil_iff, Except.ok.injEq, exists_eq_left']
    refine forall₂_congr fun row _ => ?_
    cases Integration.build row <;> simp

/-- The answer to the lookup of a send that was not refused, and what the send knows from it. -/
theorem run_resolvedBy (hd : Distinct steps) (hk : .begin k n ∈ steps)
    (hr : .resolved k result ∈ (run (fresh broker ttl) steps).2)
    (hopen : result ≠ .error .closed) :
    ∃ lookup found, .asked lookup n.applicationId ∈ (run (fresh broker ttl) steps).2 ∧
      ResolvedBy (fresh broker ttl) steps k lookup found result ∧
      knownOf result = knownFailures found ∧
      (hooksOf result).map (·.endpoints) = builtBy found := by
  have hh := run_heard broker ttl steps
  have hret := mem_heard_resolved.mpr hr
  rw [hh] at hret
  match result with
  | .ok e =>
    obtain ⟨a, ha, c, hc, hl⟩ := returned_entry hret
    obtain rfl := hd.application hk ha
    rw [← hh, mem_heard_asked] at hc
    rw [← hh, mem_heard_loaded] at hl
    obtain ⟨rows, before, after, hs, ho, hb⟩ := run_found hl
    refine ⟨c, .ok rows, hc, .found c rows e before after hs ho, ?_, hb.hooks⟩
    rw [knownFailures_ok, ← hb.failures]
    rfl
  | .error (.storage x) =>
    obtain ⟨a, ha, hc⟩ := returned_storage hret
    obtain rfl := hd.application hk ha
    rw [← hh, mem_heard_asked] at hc
    obtain ⟨before, after, hs, ho⟩ := run_failed hr
    exact ⟨k, .error x, hc, .failed x before after hs ho, rfl, rfl⟩
  | .error .closed => exact absurd rfl hopen

theorem report_eq_ok {fs : List BackendFailure} : report fs = .ok () ↔ fs = [] := by
  cases fs <;> simp [report]

theorem report_error {fs : List BackendFailure} {x : DispatchError} (h : report fs = .error x) :
    ∃ f rest, x = .delivery (f :: rest) := by
  cases fs with
  | nil => cases h
  | cons f rest =>
    cases h
    exact ⟨f, rest, rfl⟩

/-- Nothing has failed just when nothing was known to, and every delivery has succeeded. -/
theorem verdict_eq_ok {known : List BackendFailure} {ts : List Target}
    {ended : List (Target × Delivery)} :
    verdict known ts ended = some (.ok ()) ↔
      known = [] ∧ ∀ t ∈ ts, ended.lookup t = some (.ok ()) := by
  unfold verdict
  split
  · rename_i hall
    rw [Option.some.injEq, report_eq_ok, failuresOf, List.append_eq_nil_iff,
      List.filterMap_eq_nil_iff]
    refine and_congr_right fun _ => forall₂_congr fun t ht => ?_
    have hsome := List.all_eq_true.mp hall t ht
    cases hl : ended.lookup t with
    | none => simp [hl] at hsome
    | some x => cases x <;> simp [ofDelivery]
  · rename_i hall
    refine iff_of_false (by simp) fun h => hall (List.all_eq_true.mpr fun t ht => ?_)
    rw [h.2 t ht]
    rfl

/-- What a send does that is resolved by an answer: where it is delivered, and how it ends. -/
structure FanOut (broker : BrokerBackend) (steps : List Step) (send : Nat) (n : Encoded)
    (found : Lookup) (hooks : List Hook) (o : List Output) : Prop where
  /-- There is one webhook for each row that can be built, in the order of the rows. -/
  built : hooks.map (·.endpoints) = builtBy found
  distinct : (targets hooks).Nodup
  /-- The broker and every webhook are handed the notification, once. -/
  attempted : attempts send o = (targets hooks).map (·, n)
  once : ((endings send o).map Prod.fst).Nodup
  own : ∀ t ∈ (endings send o).map Prod.fst, t ∈ targets hooks
  outcomes : ∀ t x, (t, x) ∈ endings send o → Came broker steps send n t x
  /-- The send ends once, with the last delivery, and with all failures in order. -/
  ended : results send o =
    (verdict (knownFailures found) (targets hooks) (endings send o)).toList
  success : .sent send (.ok ()) ∈ o ↔
    (∃ rows, found = .ok rows ∧ ∀ row ∈ rows, ∃ b, Integration.build row = .ok b) ∧
      ∀ t ∈ targets hooks, (endings send o).lookup t = some (.ok ())
  failure : ∀ x, .sent send (.error x) ∈ o → ∃ f rest, x = .delivery (f :: rest)

theorem Fan.fanOut (h : Fan k n (knownFailures found) hooks d o)
    (hb : hooks.map (·.endpoints) = builtBy found)
    (hc : ∀ t x, (t, x) ∈ endings k o → Came broker steps k n t x) :
    FanOut broker steps k n found hooks o where
  built := hb
  distinct := targets_nodup h.distinct
  attempted := h.attempts
  once := h.once
  own := h.own
  outcomes := hc
  ended := h.results
  success := by
    rw [← mem_results, h.results, Option.mem_toList, verdict_eq_ok, knownFailures_eq_nil]
  failure x hx := by
    rw [← mem_results, h.results, Option.mem_toList, verdict] at hx
    split at hx
    · exact report_error (Option.some.inj hx)
    · cases hx

/-- A send whose application is resolved is delivered to the broker and to every webhook that could
be built, whatever becomes of any of them, and ends with all failures there were and no others. -/
theorem fan_out (broker : BrokerBackend) (ttl : Option Duration) (steps : List Step) (k : Nat)
    (n : Encoded) (result : Resolved) (hd : Distinct steps) (hk : .begin k n ∈ steps)
    (hr : .resolved k result ∈ (run (fresh broker ttl) steps).2)
    (hopen : result ≠ .error .closed) :
    ∃ lookup found hooks, .asked lookup n.applicationId ∈ (run (fresh broker ttl) steps).2 ∧
      ResolvedBy (fresh broker ttl) steps k lookup found result ∧
      FanOut broker steps k n found hooks (run (fresh broker ttl) steps).2 := by
  obtain ⟨lookup, found, hasked, hby, hknown, hbuilt⟩ := run_resolvedBy hd hk hr hopen
  refine ⟨lookup, found, hooksOf result, hasked, hby, ?_⟩
  cases run_story broker ttl hd hk with
  | refused _ _ closed => exact absurd (closed result hr) hopen
  | resolving _ _ unresolved => exact absurd hr (unresolved result)
  | delivering result' _ resolved fan =>
    obtain rfl := resolved result hr
    rw [hknown] at fan
    exact fan.fanOut hbuilt fun _ _ he => run_came hd hk he

def joined : Encoded := ⟨7, .zero 8, .join, "null"⟩

/-- A row of an unknown kind, two equal rows without URLs, and a broker that does not answer. -/
def mixed : List Step :=
  [.begin 0 joined,
    .registry (.answer 0 (.ok [⟨7, "MAIL", .null⟩, ⟨7, "HTTP", .null⟩, ⟨7, "HTTP", .null⟩])),
    .brokerAnswer 0 .never]

/-- The entry of that lookup. -/
def mixedEntry : Entry :=
  ⟨0, [⟨0, ⟨none, none, none, none, []⟩⟩, ⟨1, ⟨none, none, none, none, []⟩⟩],
    [⟨"MAIL", .unknownKind "MAIL"⟩], ⟨0⟩⟩

theorem fan_out_mixed :
    Distinct mixed ∧ .begin 0 joined ∈ mixed ∧
      .resolved 0 (.ok mixedEntry) ∈ (run (fresh (.new .atMostOnce ⟨5⟩) none) mixed).2 ∧
      (∃ lookup found hooks,
        .asked lookup joined.applicationId ∈ (run (fresh (.new .atMostOnce ⟨5⟩) none) mixed).2 ∧
        ResolvedBy (fresh (.new .atMostOnce ⟨5⟩) none) mixed 0 lookup found (.ok mixedEntry) ∧
        FanOut (.new .atMostOnce ⟨5⟩) mixed 0 joined found hooks
          (run (fresh (.new .atMostOnce ⟨5⟩) none) mixed).2) ∧
      results 0 (run (fresh (.new .atMostOnce ⟨5⟩) none) mixed).2 =
        [.error (.delivery [⟨"MAIL", .configuration (.unknownKind "MAIL")⟩,
          ⟨"mqtt", .transport (.timeout ⟨5⟩)⟩])] := by
  have hd : Distinct mixed := by decide
  have hk : Step.begin 0 joined ∈ mixed := List.mem_cons_self
  have hr : .resolved 0 (.ok mixedEntry) ∈
      (run (fresh (.new .atMostOnce ⟨5⟩) none) mixed).2 := List.mem_of_getElem? (i := 7) rfl
  exact ⟨hd, hk, hr, fan_out _ none mixed 0 joined (.ok mixedEntry) hd hk hr nofun, rfl⟩

end Uplink.Dispatch
