import Uplink.Proofs.Dispatch.Underlying

namespace Uplink.Dispatch

open Backend Broker Notification Registry Time

variable {d d' : Dispatcher} {j k : Nat} {n : Encoded} {s : Step} {x y : Outcome}
  {outs : List Registry.Output}

/-- What happens is nothing to a send. -/
structure Aside (send : Nat) (d : Dispatcher) (x : Outcome) : Prop where
  same : x.1.send? send = d.send? send
  quiet : Quiet send x.2

theorem Aside.trans (h : Aside k d x) (h' : Aside k x.1 y) : Aside k d (y.1, x.2 ++ y.2) :=
  ⟨h'.same.trans h.same, h.quiet.append h'.quiet⟩

theorem Touches.aside (h : Touches j d x) (hk : k ≠ j) : Aside k d x :=
  ⟨h.others k hk, h.quiet k hk⟩

theorem onOutput_aside {out : Registry.Output} (h : ∀ result, out ≠ .returned k result) :
    Aside k d (onOutput d out) := by
  cases out with
  | returned j result =>
    have hj : k ≠ j := fun he => h result (he ▸ rfl)
    simp only [onOutput]
    split
    · rename_i s hs
      obtain rfl := send?_number hs
      have ha := (onResolved_touches d s result).aside hj
      exact ⟨ha.same, Quiet.append (o := [.resolved s.number result]) ⟨rfl, rfl, rfl⟩ ha.quiet⟩
    · exact ⟨rfl, rfl, rfl, rfl⟩
  | _ => exact ⟨rfl, rfl, rfl, rfl⟩

theorem follow_append (d : Dispatcher) (xs ys : List Registry.Output) :
    follow d (xs ++ ys) =
      ((follow (follow d xs).1 ys).1, (follow d xs).2 ++ (follow (follow d xs).1 ys).2) :=
  collect_append onOutput d xs ys

theorem follow_cons (d : Dispatcher) (out : Registry.Output) (outs : List Registry.Output) :
    follow d (out :: outs) =
      ((follow (onOutput d out).1 outs).1,
        (onOutput d out).2 ++ (follow (onOutput d out).1 outs).2) :=
  collect_cons onOutput d out outs

/-- Where no call of a send returns, what the registry says is passed on and that is all. -/
theorem follow_unwaited (h : ∀ k result, .returned k result ∈ outs → d.send? k = none) :
    follow d outs = (d, outs.map pass) := by
  induction outs with
  | nil => rfl
  | cons out outs ih =>
    have hout : onOutput d out = (d, [pass out]) := by
      cases out with
      | returned k result => simp only [onOutput, h k result List.mem_cons_self, pass]
      | _ => rfl
    rw [follow_cons, hout, ih fun k result hm => h k result (List.mem_cons_of_mem _ hm)]
    rfl

theorem registryStep_unwaited {t : Registry.Step}
    (h : ∀ k result, .returned k result ∈ (Registry.step d.registry t).2 → d.send? k = none) :
    registryStep d t = ({ d with registry := (Registry.step d.registry t).1 },
      (Registry.step d.registry t).2.map pass) :=
  follow_unwaited (d := { d with registry := (Registry.step d.registry t).1 }) h

/-- Where the call of a send does not return, nothing that the registry says is about it. -/
theorem follow_aside (h : k ∉ returns outs) : Aside k d (follow d outs) := by
  induction outs generalizing d with
  | nil => exact ⟨rfl, .nil⟩
  | cons out outs ih =>
    rw [follow_cons]
    have hout : ∀ result, out ≠ .returned k result := by
      rintro result rfl
      exact h (mem_returns_of_returned List.mem_cons_self)
    have hrest : k ∉ returns outs := by
      intro hk
      obtain ⟨result, hm⟩ := returned_of_mem_returns hk
      exact h (mem_returns_of_returned (List.mem_cons_of_mem _ hm))
    exact (onOutput_aside hout).trans (ih hrest)

/-- The call of a waiting send returns, once, and the send goes on with the result. All else that
happens is nothing to the send. -/
structure GoesOn (send : Nat) (n : Encoded) (d : Dispatcher) (x : Outcome) (result : Resolved)
    (d' : Dispatcher) (pre post : List Output) : Prop where
  waits : d'.send? send = some ⟨send, n, .resolving⟩
  broker : d'.broker = d.broker
  registry : d'.registry = x.1.registry
  before : Quiet send pre
  after : Quiet send post
  resolved : ∀ result', .resolved send result' ∈ x.2 → result' = result
  same : x.1.send? send = (onResolved d' ⟨send, n, .resolving⟩ result).1.send? send
  out : x.2 = pre ++ .resolved send result :: (onResolved d' ⟨send, n, .resolving⟩ result).2 ++ post

theorem follow_resolved (hs : d.send? k = some ⟨k, n, .resolving⟩) (hr : returns outs = [k]) :
    ∃ result d' pre post, GoesOn k n d (follow d outs) result d' pre post := by
  obtain ⟨result, pre, post, rfl, hpre, hpost⟩ := returns_eq_singleton hr
  have hrest : ∀ {l}, returns l = [] → k ∉ returns l := by
    intro l hl
    rw [hl]
    exact List.not_mem_nil
  have ha : Aside k d (follow d pre) := follow_aside (hrest hpre)
  have hs' := ha.same.trans hs
  have hon : onOutput (follow d pre).1 (.returned k result) =
      ((onResolved (follow d pre).1 ⟨k, n, .resolving⟩ result).1,
        .resolved k result :: (onResolved (follow d pre).1 ⟨k, n, .resolving⟩ result).2) := by
    simp only [onOutput, hs']
  have hsplit := follow_append d pre (.returned k result :: post)
  rw [follow_cons, hon] at hsplit
  have hb := follow_aside (d := (onResolved (follow d pre).1 ⟨k, n, .resolving⟩ result).1)
    (hrest hpost)
  obtain ⟨hreg, hh⟩ := follow_heard d (pre ++ .returned k result :: post)
  refine ⟨result, (follow d pre).1, (follow d pre).2, _, hs', follow_broker d pre,
    (follow_heard d pre).1.trans hreg.symm, ha.quiet, hb.quiet, ?_, ?_, ?_⟩
  · intro result' hm
    rw [← mem_heard_resolved, hh] at hm
    rcases List.mem_append.mp hm with hm | hm
    · exact absurd (mem_returns_of_returned hm) (hrest hpre)
    · rcases List.mem_cons.mp hm with hm | hm
      · cases hm
        rfl
      · exact absurd (mem_returns_of_returned hm) (hrest hpost)
  · rw [hsplit]
    exact hb.same
  · rw [hsplit]
    simp

/-- The numbers of calls are in order when a step happens. -/
def Orderly (d : Dispatcher) (s : Step) : Prop :=
  ∀ t, s.inner? d = some t →
    Traffic d.registry.calls t (Registry.step d.registry t).1.calls (Registry.step d.registry t).2

theorem begun_of_inner {t : Registry.Step} (h : s.inner? d = some t) : t.begun? = s.begun? := by
  cases s with
  | begin j m =>
    simp only [Step.inner?] at h
    split at h <;> cases h
    rfl
  | registry t =>
    cases h
    rfl
  | beginClose j =>
    simp only [Step.inner?] at h
    split at h <;> cases h
    rfl
  | _ => cases h

theorem step_of_inner_none (h : s.inner? d = none) :
    (step d s).1.registry = d.registry ∧ heard (step d s).2 = [] := by
  have hs := step_inner d s
  rw [h] at hs
  exact Prod.mk.inj hs

theorem step_of_inner_some {t : Registry.Step} (h : s.inner? d = some t) :
    (step d s).1.registry = (Registry.step d.registry t).1 ∧
      heard (step d s).2 = (Registry.step d.registry t).2 := by
  have hs := step_inner d s
  rw [h] at hs
  exact Prod.mk.inj hs

/-- A call that is not in flight does not return. -/
theorem step_absent (ho : Orderly d s) (hk : k ∉ d.registry.calls.map (·.number))
    (hb : s.begun? ≠ some k) :
    (∀ result, .resolved k result ∉ (step d s).2) ∧
      k ∉ (step d s).1.registry.calls.map (·.number) := by
  cases hi : s.inner? d with
  | none =>
    obtain ⟨hr, hh⟩ := step_of_inner_none hi
    refine ⟨fun result hm => ?_, by rw [hr]; exact hk⟩
    rw [← mem_heard_resolved, hh] at hm
    cases hm
  | some t =>
    obtain ⟨hr, hh⟩ := step_of_inner_some hi
    obtain ⟨hret, hcalls⟩ := (ho t hi).absent hk (begun_of_inner hi ▸ hb)
    refine ⟨fun result hm => ?_, by rw [hr]; exact hcalls⟩
    rw [← mem_heard_resolved, hh] at hm
    exact hret (mem_returns_of_returned hm)

/-- A call that is in flight, or begins, stays in flight until it returns. -/
theorem step_in_flight (ho : Orderly d s)
    (hk : k ∈ d.registry.calls.map (·.number) ∨
      s.begun? = some k ∧ ∃ t, s.inner? d = some t)
    (hu : ∀ result, .resolved k result ∉ (step d s).2) :
    k ∈ (step d s).1.registry.calls.map (·.number) := by
  cases hi : s.inner? d with
  | none =>
    rw [(step_of_inner_none hi).1]
    exact hk.resolve_right (by simp [hi])
  | some t =>
    obtain ⟨hr, hh⟩ := step_of_inner_some hi
    rw [hr]
    refine (ho t hi).kept (hk.imp id fun hb => (begun_of_inner hi).trans hb.1) fun hm => ?_
    obtain ⟨result, hm⟩ := returned_of_mem_returns hm
    rw [← hh] at hm
    exact hu result (mem_heard_resolved.mp hm)

/-- A step with work for the registry does that, and little else. -/
structure Around (d : Dispatcher) (s : Step) (t : Registry.Step) (d' : Dispatcher)
    (pre post : List Output) : Prop where
  registry : d'.registry = d.registry
  broker : d'.broker = d.broker
  others : ∀ j, s.begun? ≠ some j → d'.send? j = d.send? j
  own : ∀ k n, s = .begin k n → d.send? k = none → d'.send? k = some ⟨k, n, .resolving⟩
  sends : ∀ j, (step d s).1.send? j = (registryStep d' t).1.send? j
  out : (step d s).2 = pre ++ (registryStep d' t).2 ++ post
  before : ∀ j, Quiet j pre
  after : ∀ j, Quiet j post

theorem begin_around (hopen : ¬d.closed) (k : Nat) (n : Encoded) :
    Around d (.begin k n) (.begin k n.applicationId) { d with
      stats := { d.stats with totalSent := d.stats.totalSent + 1 }
      sends := d.sends ++ [⟨k, n, .resolving⟩] } [.counted (.notification n.event)] [] where
  registry := rfl
  broker := rfl
  others j hj := by
    have hne : (k == j) = false := beq_false_of_ne fun he => hj (congrArg some he)
    simp [Dispatcher.send?, List.find?_append, hne]
  own k' n' he hnone := by
    cases he
    unfold Dispatcher.send? at hnone
    simp [Dispatcher.send?, List.find?_append, hnone]
  sends j := by simp only [step, begin, if_neg hopen]
  out := by simp [step, begin, hopen]
  before _ := ⟨rfl, rfl, rfl⟩
  after _ := .nil

theorem beginClose_around (hopen : ¬d.closed) (close : Nat) :
    Around d (.beginClose close) .close { d with closed := true } []
      [if (registryStep { d with closed := true } .close).1.broker.closed then .closed close (.ok ())
        else .disconnected] where
  registry := rfl
  broker := rfl
  others _ _ := rfl
  own _ _ he := by cases he
  sends j := by
    simp only [step, beginClose, if_neg hopen]
    split <;> rfl
  out := by
    simp only [step, beginClose, if_neg hopen, List.nil_append]
    split <;> rfl
  before _ := .nil
  after j := by split <;> exact ⟨rfl, rfl, rfl⟩

theorem step_around {t : Registry.Step} (h : s.inner? d = some t) :
    ∃ d' pre post, Around d s t d' pre post := by
  cases s with
  | begin k n =>
    simp only [Step.inner?] at h
    split at h
    · cases h
    · rename_i hopen
      cases h
      exact ⟨_, _, _, begin_around hopen k n⟩
  | registry t =>
    cases h
    exact ⟨d, [], [], rfl, rfl, fun _ _ => rfl, fun _ _ he => (by cases he), fun _ => rfl,
      (List.append_nil _).symm, fun _ => .nil, fun _ => .nil⟩
  | beginClose close =>
    simp only [Step.inner?] at h
    split at h
    · cases h
    · rename_i hopen
      cases h
      exact ⟨_, _, _, beginClose_around hopen close⟩
  | _ => cases h

/-- The send that a step answers. -/
def Step.answered? : Step → Option Nat
  | .brokerAnswer send _ => some send
  | .hookAnswer send _ _ => some send
  | _ => none

theorem step_answered (h : s.answered? = some k) (d : Dispatcher) : Answered k d (step d s) := by
  cases s with
  | brokerAnswer j a =>
    cases h
    exact brokerAnswer_answered d k a
  | hookAnswer j hook r =>
    cases h
    exact hookAnswer_answered d k hook r
  | _ => cases h

/-- An answer that nobody waits for is dropped. -/
theorem Answered.of_resolving {x : Outcome} (h : Answered k d x)
    (hk : ∀ t, d.send? k = some t → t.phase = .resolving) : x = (d, []) := by
  cases h with
  | dropped => rfl
  | taken found told =>
    rw [hk _ found] at told
    cases told

/-- To a send that is not resolved by a step, and not answered, the step is nothing. -/
theorem step_aside (hb : s.begun? ≠ some k) (hu : ∀ result, .resolved k result ∉ (step d s).2)
    (ha : s.answered? ≠ some k ∨ ∀ t, d.send? k = some t → t.phase = .resolving) :
    Aside k d (step d s) := by
  have answers : ∀ {j}, s.answered? = some j → Aside k d (step d s) := by
    intro j hans
    have hanswered := step_answered hans d
    by_cases hj : k = j
    · subst hj
      rw [hanswered.of_resolving (ha.resolve_left (not_not_intro hans))]
      exact ⟨rfl, .nil⟩
    · exact hanswered.touches.aside hj
  cases hi : s.inner? d with
  | some t =>
    obtain ⟨d', pre, post, h⟩ := step_around hi
    have hk : k ∉ returns (Registry.step d'.registry t).2 := by
      intro hk
      obtain ⟨result, hm⟩ := returned_of_mem_returns hk
      rw [h.registry, ← (step_of_inner_some hi).2] at hm
      exact hu result (mem_heard_resolved.mp hm)
    have ha : Aside k { d' with registry := (Registry.step d'.registry t).1 } (registryStep d' t) :=
      follow_aside hk
    refine ⟨(h.sends k).trans (ha.same.trans (h.others k hb)), ?_⟩
    rw [h.out]
    exact ((h.before k).append ha.quiet).append (h.after k)
  | none =>
    cases s with
    | begin j n =>
      have hj : k ≠ j := fun he => hb (he ▸ rfl)
      simp only [Step.inner?, ite_eq_left_iff, reduceCtorEq, imp_false, Bool.not_eq_true,
        Bool.not_eq_false] at hi
      simp only [step, begin, hi, ↓reduceIte]
      exact ⟨rfl, sent_quiet _ hj⟩
    | registry t => cases hi
    | brokerAnswer j a => exact answers rfl
    | hookAnswer j hook r => exact answers rfl
    | beginClose j =>
      simp only [Step.inner?, ite_eq_left_iff, reduceCtorEq, imp_false, Bool.not_eq_true,
        Bool.not_eq_false] at hi
      simp only [step, beginClose, hi, ↓reduceIte]
      exact ⟨rfl, rfl, rfl, rfl⟩
    | closeAnswer a =>
      simp only [step, closeAnswer]
      split <;> exact ⟨rfl, rfl, rfl, rfl⟩

end Uplink.Dispatch
