import Uplink.Proofs.Dispatch.Sends
import Uplink.Proofs.Registry.Origin

namespace Uplink.Dispatch

open Backend Broker Notification Registry Time

variable {d : Dispatcher} {k : Nat} {n : Encoded} {s : Step} {steps : List Step}
  {outs : List Registry.Output}

theorem run_snoc (d : Dispatcher) (steps : List Step) (s : Step) :
    run d (steps ++ [s]) =
      ((step (run d steps).1 s).1, (run d steps).2 ++ (step (run d steps).1 s).2) :=
  collect_snoc step d steps s

theorem run_cons (d : Dispatcher) (s : Step) (steps : List Step) :
    run d (s :: steps) =
      ((run (step d s).1 steps).1, (step d s).2 ++ (run (step d s).1 steps).2) :=
  collect_cons step d s steps

theorem mem_run {o : Output} (h : o ∈ (run d steps).2) :
    ∃ before s after, steps = before ++ s :: after ∧ o ∈ (step (run d before).1 s).2 :=
  mem_collect (f := step) h

theorem onOutput_heard (d : Dispatcher) (o : Registry.Output) :
    (onOutput d o).1.registry = d.registry ∧ heard (onOutput d o).2 = [o] := by
  cases o with
  | returned k result =>
    simp only [onOutput]
    split
    · rename_i s _
      have h := onResolved_touches d s result
      refine ⟨h.registry, ?_⟩
      change .returned k result :: heard (onResolved d s result).2 = _
      rw [h.unheard]
    · exact ⟨rfl, rfl⟩
  | _ => exact ⟨rfl, rfl⟩

theorem follow_heard (d : Dispatcher) (outs : List Registry.Output) :
    (follow d outs).1.registry = d.registry ∧ heard (follow d outs).2 = outs := by
  induction outs using List.reverseRecOn with
  | nil => exact ⟨rfl, rfl⟩
  | append_singleton outs o ih =>
    have hs : follow d (outs ++ [o]) = ((onOutput (follow d outs).1 o).1,
        (follow d outs).2 ++ (onOutput (follow d outs).1 o).2) := collect_snoc onOutput d outs o
    obtain ⟨hr, hh⟩ := onOutput_heard (follow d outs).1 o
    rw [hs, heard_append, hr, hh, ih.1, ih.2]
    exact ⟨rfl, rfl⟩

theorem follow_broker (d : Dispatcher) (outs : List Registry.Output) :
    (follow d outs).1.broker = d.broker := by
  refine collect_keeps (f := onOutput) (P := fun d' _ => d'.broker = d.broker) (o := [])
    (fun d' _ o h => ?_) rfl outs
  cases o with
  | returned k result =>
    simp only [onOutput]
    split
    · exact (onResolved_touches d' _ result).broker.trans h
    · exact h
  | _ => exact h

theorem registryStep_heard (d : Dispatcher) (s : Registry.Step) :
    (registryStep d s).1.registry = (Registry.step d.registry s).1 ∧
      heard (registryStep d s).2 = (Registry.step d.registry s).2 :=
  follow_heard { d with registry := (Registry.step d.registry s).1 } _

theorem returns_eq_singleton (h : returns outs = [k]) :
    ∃ result pre post, outs = pre ++ .returned k result :: post ∧ returns pre = [] ∧
      returns post = [] := by
  obtain ⟨pre, o, post, ho, hpre, hk, hpost⟩ := List.filterMap_eq_cons_iff.mp h
  cases o with
  | returned j result =>
    cases hk
    exact ⟨result, pre, post, ho, List.filterMap_eq_nil_iff.mpr hpre, hpost⟩
  | _ => cases hk

/-- The step that the registry makes with a step of the dispatcher, if it makes one. -/
def Step.inner? (d : Dispatcher) : Step → Option Registry.Step
  | .begin send n => if d.closed then none else some (.begin send n.applicationId)
  | .registry s => some s
  | .beginClose _ => if d.closed then none else some .close
  | _ => none

/-- The steps of the registry in a run of the dispatcher. -/
def inner (d : Dispatcher) : List Step → List Registry.Step
  | [] => []
  | s :: steps => (s.inner? d).toList ++ inner (step d s).1 steps

theorem inner_snoc (d : Dispatcher) (steps : List Step) (s : Step) :
    inner d (steps ++ [s]) = inner d steps ++ (s.inner? (run d steps).1).toList := by
  induction steps generalizing d with
  | nil => simp [inner, run]
  | cons t steps ih =>
    rw [List.cons_append, inner, ih, inner, List.append_assoc, run_cons]

/-- A step of the dispatcher as its registry sees it. -/
theorem step_inner (d : Dispatcher) (s : Step) :
    ((step d s).1.registry, heard (step d s).2) =
      Registry.run d.registry (s.inner? d).toList := by
  have one : ∀ t, Registry.run d.registry [t] = Registry.step d.registry t := fun _ => rfl
  cases s with
  | begin k n =>
    simp only [step, begin, Step.inner?]
    split
    · rfl
    · obtain ⟨hr, hh⟩ := registryStep_heard { d with
        stats := { d.stats with totalSent := d.stats.totalSent + 1 }
        sends := d.sends ++ [⟨k, n, .resolving⟩] } (.begin k n.applicationId)
      rw [Option.toList_some, one]
      exact Prod.ext hr hh
  | registry t =>
    obtain ⟨hr, hh⟩ := registryStep_heard d t
    exact Prod.ext hr hh
  | brokerAnswer k a =>
    have h := (brokerAnswer_answered d k a).touches
    exact Prod.ext h.registry h.unheard
  | hookAnswer k hook result =>
    have h := (hookAnswer_answered d k hook result).touches
    exact Prod.ext h.registry h.unheard
  | beginClose k =>
    simp only [step, beginClose, Step.inner?]
    split
    · rfl
    · obtain ⟨hr, hh⟩ := registryStep_heard { d with closed := true } .close
      rw [Option.toList_some, one]
      have last : ∀ o : Output, heard [o] = [] →
          heard ((registryStep { d with closed := true } .close).2 ++ [o]) =
            (Registry.step d.registry .close).2 := by
        intro o ho
        rw [heard_append, ho, List.append_nil, hh]
      split
      · exact Prod.ext hr (last _ rfl)
      · exact Prod.ext hr (last _ rfl)
  | closeAnswer a =>
    simp only [step, closeAnswer]
    split <;> rfl

theorem run_inner (d : Dispatcher) (steps : List Step) :
    ((run d steps).1.registry, heard (run d steps).2) =
      Registry.run d.registry (inner d steps) := by
  induction steps using List.reverseRecOn with
  | nil => rfl
  | append_singleton steps s ih =>
    rw [run_snoc, heard_append, inner_snoc, Registry.run_append, ← ih, ← step_inner]

/-- The number of the send, or of the call, that a step begins. -/
def Step.begun? : Step → Option Nat
  | .begin send _ => some send
  | .registry s => s.begun?
  | _ => none

/-- No two sends or calls begin under one number. -/
def Distinct (steps : List Step) : Prop := (steps.filterMap Step.begun?).Nodup

instance (steps : List Step) : Decidable (Distinct steps) :=
  inferInstanceAs (Decidable (steps.filterMap Step.begun?).Nodup)

theorem Distinct.append_left {xs ys : List Step} (h : Distinct (xs ++ ys)) : Distinct xs := by
  unfold Distinct at h ⊢
  rw [List.filterMap_append] at h
  exact (List.nodup_append.mp h).1

/-- The numbers of a run are those of the run inside, but for sends that are refused at once. -/
theorem begun_inner (d : Dispatcher) (steps : List Step) :
    (Registry.begun (inner d steps)).Sublist (steps.filterMap Step.begun?) := by
  induction steps generalizing d with
  | nil => exact .slnil
  | cons s steps ih =>
    have hs : (Registry.begun (s.inner? d).toList).Sublist s.begun?.toList := by
      cases s with
      | begin k n =>
        simp only [Step.inner?]
        split
        · exact List.nil_sublist _
        · exact .refl _
      | registry t =>
        simp only [Step.inner?, Step.begun?]
        cases t <;> exact .refl _
      | beginClose k =>
        simp only [Step.inner?]
        split <;> exact .refl _
      | _ => exact .refl _
    have hc : (s :: steps).filterMap Step.begun? =
        s.begun?.toList ++ steps.filterMap Step.begun? := by
      cases h : s.begun? <;> simp [h]
    rw [inner, Registry.begun, List.filterMap_append, hc]
    exact hs.append (ih _)

theorem Distinct.inner (h : Distinct steps) (d : Dispatcher) :
    Registry.Distinct (inner d steps) :=
  h.sublist (begun_inner d steps)

/-- A call of the run inside is one of its own, or a send's. -/
theorem mem_inner {a : Int64} (h : .begin k a ∈ inner d steps) :
    .registry (.begin k a) ∈ steps ∨ ∃ n, .begin k n ∈ steps ∧ n.applicationId = a := by
  induction steps generalizing d with
  | nil => cases h
  | cons s steps ih =>
    rcases List.mem_append.mp h with h | h
    · cases s with
      | begin j n =>
        simp only [Step.inner?] at h
        split at h
        · cases h
        · rw [Option.toList_some, List.mem_singleton] at h
          cases h
          exact .inr ⟨n, List.mem_cons_self, rfl⟩
      | registry t =>
        simp only [Step.inner?, Option.toList_some, List.mem_singleton] at h
        rw [h]
        exact .inl List.mem_cons_self
      | beginClose j =>
        simp only [Step.inner?] at h
        split at h <;> simp at h
      | _ => cases h
    · rcases ih h with h | ⟨n, h, hn⟩
      · exact .inl (List.mem_cons_of_mem _ h)
      · exact .inr ⟨n, List.mem_cons_of_mem _ h, hn⟩

/-- The call of a send is for the application of its notification. -/
theorem Distinct.application {a : Int64} (h : Distinct steps) (hk : .begin k n ∈ steps)
    (ha : .begin k a ∈ Dispatch.inner d steps) : a = n.applicationId := by
  rcases mem_inner ha with ha | ⟨m, hm, rfl⟩
  · cases eq_of_nodup_filterMap h hk ha rfl rfl
  · cases eq_of_nodup_filterMap h hk hm rfl rfl
    rfl

end Uplink.Dispatch
