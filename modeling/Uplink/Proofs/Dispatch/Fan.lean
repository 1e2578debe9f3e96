import Uplink.Proofs.Dispatch.Underlying

namespace Uplink.Dispatch

open Backend Broker Notification Registry Time

variable {d : Dispatcher} {k : Nat} {n : Encoded} {o : List Output} {s : Send} {hooks : List Hook}
  {known : List BackendFailure} {since : Duration}

/-- The failures of a send, in order: those known before, then those of its deliveries. -/
def failuresOf (known : List BackendFailure) (ts : List Target)
    (ended : List (Target × Delivery)) : List BackendFailure :=
  known ++ ts.filterMap fun t => (ended.lookup t).bind (ofDelivery t.name)

/-- How a send ends, by what has come of its deliveries; while one is under way it does not end. -/
def verdict (known : List BackendFailure) (ts : List Target)
    (ended : List (Target × Delivery)) : Option Sent :=
  if ts.all fun t => (ended.lookup t).isSome then some (report (failuresOf known ts ended)) else none

/-- What is kept about a send with these outcomes. -/
def recorded (known : List BackendFailure) (hooks : List Hook) (ended : List (Target × Delivery))
    (since : Duration) : Phase :=
  .delivering known (ended.lookup .broker) (hooks.map fun h => ⟨h, ended.lookup (.hook h)⟩) since

theorem mapM_filterMap (f : Hook → Option Delivery) (p : Delivery → Option BackendFailure)
    (hooks : List Hook) :
    (hooks.mapM f).map (List.filterMap p) =
      if hooks.all fun h => (f h).isSome then some (hooks.filterMap fun h => (f h).bind p)
      else none := by
  induction hooks with
  | nil => rfl
  | cons h hooks ih =>
    cases hf : f h with
    | none => simp [hf]
    | some x =>
      have hm : ((h :: hooks).mapM f).map (List.filterMap p) =
          ((hooks.mapM f).map (List.filterMap p)).map ((p x).toList ++ ·) := by
        cases hh : hooks.mapM f <;> cases hp : p x <;> simp [hf, hh, hp]
      rw [hm, ih]
      by_cases ha : hooks.all fun h => (f h).isSome
      · cases hp : p x <;> simp [ha, hf, hp]
      · simp [ha, hf]

/-- The dispatcher ends a send just when its deliveries have all ended, and as they did. -/
theorem concluded_recorded (known : List BackendFailure) (hooks : List Hook)
    (ended : List (Target × Delivery)) (since : Duration) :
    concluded? (recorded known hooks ended since) = verdict known (targets hooks) ended := by
  cases hb : ended.lookup .broker with
  | none => simp [recorded, concluded?, verdict, targets, hb]
  | some b =>
    have hc : concluded? (recorded known hooks ended since) =
        ((hooks.mapM fun h => ended.lookup (.hook h)).map
          (List.filterMap (ofDelivery WebhookBackend.name))).map fun fs =>
            report (known ++ (ofDelivery BrokerBackend.name b).toList ++ fs) := by
      simp only [recorded, concluded?, hb, outcomes?, List.mapM_map, Option.map_map]
      rfl
    have hall : ((targets hooks).all fun t => (ended.lookup t).isSome) =
        hooks.all fun h => (ended.lookup (.hook h)).isSome := by
      simp [targets, hb, Function.comp_def]
    have hfail : failuresOf known (targets hooks) ended =
        known ++ (ofDelivery BrokerBackend.name b).toList ++
          hooks.filterMap fun h =>
            (ended.lookup (.hook h)).bind (ofDelivery WebhookBackend.name) := by
      cases hx : ofDelivery BrokerBackend.name b <;>
        simp [failuresOf, targets, hb, hx, Target.name]
    rw [hc, mapM_filterMap, verdict, hall, hfail]
    split <;> rfl

@[simp] theorem endings_ended (k : Nat) (t : Target) (event : Event) (x : Delivery) :
    endings k (ended k t event x) = [(t, x)] := by
  simp [endings, ended]

@[simp] theorem attempts_ended (j k : Nat) (t : Target) (event : Event) (x : Delivery) :
    attempts j (ended k t event x) = [] :=
  rfl

@[simp] theorem results_ended (j k : Nat) (t : Target) (event : Event) (x : Delivery) :
    results j (ended k t event x) = [] :=
  rfl

theorem lookup_snoc_self {ended : List (Target × Delivery)} {t : Target}
    (h : ended.lookup t = none) (x : Delivery) : (ended ++ [(t, x)]).lookup t = some x := by
  simp [List.lookup_append, h]

theorem lookup_snoc_ne {t u : Target} (h : u ≠ t) (ended : List (Target × Delivery))
    (x : Delivery) : (ended ++ [(t, x)]).lookup u = ended.lookup u := by
  have hu : (u == t) = false := beq_false_of_ne h
  simp [List.lookup_append, List.lookup_cons, hu]

theorem lookup_launches {f : Target → Option Delivery} (ts : List Target) (t : Target) :
    (ts.flatMap fun t => (f t).toList.map (t, ·)).lookup t = if t ∈ ts then f t else none := by
  induction ts with
  | nil => rfl
  | cons u ts ih =>
    rw [List.flatMap_cons, List.lookup_append, ih]
    by_cases hu : t = u
    · subst hu
      cases f t <;> simp
    · have hne : (t == u) = false := beq_false_of_ne hu
      cases f u <;> simp [hu, hne, List.lookup_cons]

theorem launches_once {f : Target → Option Delivery} {ts : List Target} (h : ts.Nodup) :
    ((ts.flatMap fun t => (f t).toList.map (t, ·)).map Prod.fst).Nodup := by
  refine h.sublist ?_
  clear h
  induction ts with
  | nil => exact .slnil
  | cons t ts ih =>
    rw [List.flatMap_cons, List.map_append]
    cases f t with
    | none => exact ih.cons t
    | some x => exact ih.cons_cons t

theorem targets_nodup (h : (hooks.map (·.number)).Nodup) : (targets hooks).Nodup := by
  refine List.nodup_cons.mpr ⟨by simp, ?_⟩
  exact (List.Nodup.of_map _ h).map fun _ _ he => Target.hook.inj he

/-- The deliveries of a send have begun: each once and with the same notification. Each ends at
most once, what is kept about the send is how they ended, and the send ends with the last. -/
structure Fan (send : Nat) (n : Encoded) (known : List BackendFailure) (hooks : List Hook)
    (d : Dispatcher) (o : List Output) : Prop where
  distinct : (hooks.map (·.number)).Nodup
  attempts : attempts send o = (targets hooks).map (·, n)
  once : ((endings send o).map Prod.fst).Nodup
  own : ∀ t ∈ (endings send o).map Prod.fst, t ∈ targets hooks
  results : results send o = (verdict known (targets hooks) (endings send o)).toList
  kept : ∃ since, d.send? send =
    if (verdict known (targets hooks) (endings send o)).isSome then none
    else some ⟨send, n, recorded known hooks (endings send o) since⟩

/-- A send goes on as far as the outcomes of its deliveries let it. -/
theorem fan_of_proceed (hd : (hooks.map (·.number)).Nodup) (hs : d.send? k = some s)
    (ha : attempts k o = (targets hooks).map (·, n))
    (honce : ((endings k o).map Prod.fst).Nodup)
    (hown : ∀ t ∈ (endings k o).map Prod.fst, t ∈ targets hooks) (hr : results k o = [])
    (since : Duration) :
    let x := proceed d ⟨k, n, recorded known hooks (endings k o) since⟩
    Fan k n known hooks x.1 (o ++ x.2) := by
  intro x
  have hc := concluded_recorded known hooks (endings k o) since
  cases hv : verdict known (targets hooks) (endings k o) with
  | some result =>
    rw [hv] at hc
    obtain ⟨hsends, -, -, ho⟩ := proceed_of_some (d := d)
      (s := ⟨k, n, recorded known hooks (endings k o) since⟩) hc
    have ho' : x.2 = [.sent k result] := ho
    have ha' : attempts k (o ++ x.2) = attempts k o := by simp [ho', attempts]
    have he : endings k (o ++ x.2) = endings k o := by simp [ho', endings]
    have hr' : results k (o ++ x.2) = [result] := by
      rw [results_append, hr, ho']
      simp [results]
    refine ⟨hd, ha'.trans ha, by rw [he]; exact honce, by rw [he]; exact hown, ?_, since, ?_⟩
    · rw [hr', he, hv]
      rfl
    · rw [he, hv, Option.isSome_some, if_pos rfl, Dispatcher.send?, hsends]
      exact (send?_dropSend d k k).trans (if_pos rfl)
  | none =>
    rw [hv] at hc
    have hx : x = (d.setSend ⟨k, n, recorded known hooks (endings k o) since⟩, []) :=
      proceed_of_none hc
    rw [hx, List.append_nil]
    refine ⟨hd, ha, honce, hown, by rw [hr, hv]; rfl, since, ?_⟩
    rw [send?_setSend, if_pos rfl, hs, hv]
    rfl

/-- One more delivery ends. -/
theorem Fan.advance (h : Fan k n known hooks d o) (hs : d.send? k = some s) {t : Target}
    (ht : t ∈ targets hooks) (hl : (endings k o).lookup t = none) (x : Delivery)
    (since : Duration) :
    let y := proceed d ⟨k, n, recorded known hooks (endings k o ++ [(t, x)]) since⟩
    Fan k n known hooks y.1 (o ++ (ended k t n.event x ++ y.2)) := by
  have he : endings k (o ++ ended k t n.event x) = endings k o ++ [(t, x)] := by
    rw [endings_append, endings_ended]
  have hv : verdict known (targets hooks) (endings k o) = none := by
    rw [verdict, if_neg]
    intro hall
    have := List.all_eq_true.mp hall t ht
    rw [hl] at this
    cases this
  dsimp only
  rw [← List.append_assoc, ← he]
  refine fan_of_proceed h.distinct hs ?_ ?_ ?_ ?_ since
  · rw [attempts_append, h.attempts, attempts_ended, List.append_nil]
  · rw [he, List.map_append]
    exact List.concat_eq_append ▸ h.once.concat (lookup_none_iff.mp hl)
  · intro u hu
    rw [he, List.map_append] at hu
    rcases List.mem_append.mp hu with hu | hu
    · exact h.own u hu
    · rw [List.mem_singleton.mp hu]
      exact ht
  · rw [results_append, h.results, hv, results_ended]
    rfl

/-- What is kept about a send that is in flight. -/
theorem Fan.in_flight (h : Fan k n known hooks d o) (hs : d.send? k = some s) :
    ∃ since, s = ⟨k, n, recorded known hooks (endings k o) since⟩ := by
  obtain ⟨since, hk⟩ := h.kept
  rw [hs] at hk
  split at hk
  · cases hk
  · exact ⟨since, Option.some.inj hk⟩

/-- Only the webhook of the number has its outcome recorded. -/
theorem record_recorded {h : Hook} {ended : List (Target × Delivery)}
    (hd : (hooks.map (·.number)).Nodup) (hm : h ∈ hooks)
    (hl : ended.lookup (.hook h) = none) (x : Delivery) :
    (hooks.map fun g => (⟨g, ended.lookup (.hook g)⟩ : HookAttempt)).map (record h.number x) =
      hooks.map fun g => (⟨g, (ended ++ [(Target.hook h, x)]).lookup (.hook g)⟩ : HookAttempt) := by
  rw [List.map_map]
  refine List.map_congr_left fun g hg => ?_
  by_cases hgh : g = h
  · subst hgh
    simp [record, hl, lookup_snoc_self hl]
  · have hnum : g.number ≠ h.number := fun he => hgh (List.inj_on_of_nodup_map hd hg hm he)
    have hne : Target.hook g ≠ .hook h := fun he => hgh (Target.hook.inj he)
    simp [record, hnum, lookup_snoc_ne hne]

/-- An answer that is waited for is recorded as one more delivery that has ended. -/
theorem Told.records {es : List (Target × Delivery)} {t : Target} {x : Delivery} {phase : Phase}
    (h : Told (recorded known hooks es since) t x phase) (hd : (hooks.map (·.number)).Nodup) :
    t ∈ targets hooks ∧ es.lookup t = none ∧
      phase = recorded known hooks (es ++ [(t, x)]) since := by
  generalize hp : recorded known hooks es since = p at h
  cases h with
  | broker before attempts since' =>
    injection hp with hknown hb hhooks hsince
    refine ⟨List.mem_cons_self, hb, ?_⟩
    rw [← hknown, ← hhooks, ← hsince, recorded, lookup_snoc_self hb]
    congr 2
    funext g
    rw [lookup_snoc_ne (by simp)]
  | hook before b since' asked =>
    injection hp with hknown hb hhooks hsince
    subst hhooks
    have hfound := List.find?_some asked
    obtain ⟨g, hg, rfl⟩ := List.mem_map.mp (List.mem_of_find?_eq_some asked)
    rw [Bool.and_eq_true, beq_iff_eq, Option.isNone_iff_eq_none] at hfound
    obtain ⟨rfl, hl⟩ := hfound
    have hne : Target.broker ≠ .hook g := by simp
    refine ⟨List.mem_cons_of_mem _ (List.mem_map_of_mem hg), hl, ?_⟩
    rw [← hknown, ← hb, ← hsince, record_recorded hd hg hl, recorded, lookup_snoc_ne hne]

theorem Fan.answered {x : Outcome} (h : Fan k n known hooks d o) (hx : Answered k d x) :
    Fan k n known hooks x.1 (o ++ x.2) := by
  cases hx with
  | dropped => rwa [List.append_nil]
  | taken found told =>
    obtain ⟨since, rfl⟩ := h.in_flight found
    obtain ⟨ht, hl, rfl⟩ := told.records h.distinct
    exact h.advance found ht hl _ since

/-- When a send is resolved, all its deliveries begin. -/
theorem fan_of_deliver (hs : d.send? k = some s) (hn : s.notification = n) (hq : Quiet k o)
    (hd : (hooks.map (·.number)).Nodup) (known : List BackendFailure) :
    Fan k n known hooks (deliver d s known hooks).1 (o ++ (deliver d s known hooks).2) := by
  obtain rfl := send?_number hs
  subst hn
  have he : endings s.number (o ++ launches d s.number s.notification hooks) =
      (targets hooks).flatMap fun t =>
        (launch d s.number s.notification t).1.toList.map (t, ·) := by
    rw [endings_append, hq.endings, endings_launches]
    rfl
  have hphase : Phase.delivering known (launch d s.number s.notification .broker).1
      (hooks.map fun h => ⟨h, (launch d s.number s.notification (.hook h)).1⟩) d.registry.now =
      recorded known hooks (endings s.number (o ++ launches d s.number s.notification hooks))
        d.registry.now := by
    have hlook : ∀ t ∈ targets hooks,
        (endings s.number (o ++ launches d s.number s.notification hooks)).lookup t =
          (launch d s.number s.notification t).1 := by
      intro t ht
      rw [he, lookup_launches (f := fun t => (launch d s.number s.notification t).1), if_pos ht]
    rw [recorded, hlook _ List.mem_cons_self]
    congr 1
    refine List.map_congr_left fun h hh => ?_
    rw [hlook _ (List.mem_cons_of_mem _ (List.mem_map_of_mem hh))]
  rw [deliver_eq]
  dsimp only
  rw [hphase, ← List.append_assoc]
  refine fan_of_proceed hd hs ?_ ?_ ?_ ?_ d.registry.now
  · rw [attempts_append, hq.attempts, attempts_launches]
    rfl
  · rw [he]
    exact launches_once (f := fun t => (launch d s.number s.notification t).1) (targets_nodup hd)
  · intro t ht
    rw [he, List.mem_map] at ht
    obtain ⟨x, hx, rfl⟩ := ht
    obtain ⟨t, ht, hx⟩ := List.mem_flatMap.mp hx
    obtain ⟨y, -, rfl⟩ := List.mem_map.mp hx
    exact ht
  · rw [results_append, hq.results, results_launches]
    rfl

end Uplink.Dispatch
