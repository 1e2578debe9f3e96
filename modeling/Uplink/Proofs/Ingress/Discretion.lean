import Uplink.Ingress.Response

namespace Uplink.Ingress

open Dispatch

/-- Errors of one sort that name the same backends in the same order, for whatever reasons. -/
inductive Alike : DispatchError → DispatchError → Prop where
  | closed : Alike .closed .closed
  | encode (fault fault' : Json.Fault) : Alike (.encode fault) (.encode fault')
  | delivery (failures failures' : List BackendFailure)
    (names : backendNames failures = backendNames failures') :
    Alike (.delivery failures) (.delivery failures')

variable {e e' : DispatchError} {failures failures' : List BackendFailure} {mode : Option String}

/-- The answer to a send that has failed, by the mode the service runs in. -/
def answerTo (runMode : Option String) (e : DispatchError) : Response :=
  (Refusal.dispatch e).response (isProduction runMode)

theorem isProduction_iff :
    isProduction mode = true ↔ mode = some "production" ∨ mode = some "prod" := by
  simp [isProduction]

/-- A backend and what is said of its failure. -/
def told? (v : Json) : Option (String × String) :=
  match v.get? "backend", v.get? "message" with
  | some (.text backend), some (.text message) => some (backend, message)
  | _, _ => none

/-- The failures that the body of an answer tells of, in order; none where it has no such member. -/
def toldFailures : Body → Option (List (String × String))
  | .json v =>
    match (v.get? "error").bind (·.get? "failures") with
    | some (.list items) => items.mapM told?
    | some _ => none
    | none => some []
  | .text _ => none

/-- The failures of a send as their sender is told of them. -/
def tellings (production : Bool) (failures : List BackendFailure) : List (String × String) :=
  failures.map fun f => (f.backend, if production then "delivery failed" else f.cause.message)

theorem mapM_told (production : Bool) (failures : List BackendFailure) :
    (failures.map (Refusal.failureJson production)).mapM told? =
      some (tellings production failures) := by
  induction failures with
  | nil => rfl
  | cons f failures ih =>
    rw [List.map_cons, List.mapM_cons, ih]
    rfl

theorem toldFailures_delivery (production : Bool) (failures : List BackendFailure) :
    toldFailures ((Refusal.dispatch (.delivery failures)).response production).body =
      some (tellings production failures) := by
  cases failures with
  | nil => rfl
  | cons f rest => exact mapM_told production (f :: rest)

theorem tellings_names (production : Bool) (failures : List BackendFailure) :
    (tellings production failures).map (·.1) = backendNames failures := by
  rw [tellings, List.map_map]
  rfl

/-- In production a failure is told by its backend alone. -/
theorem map_failureJson (failures : List BackendFailure) :
    failures.map (Refusal.failureJson true) = (backendNames failures).map fun name =>
      .object [("backend", .text name), ("message", .text "delivery failed")] := by
  rw [backendNames, List.map_map]
  rfl

theorem failuresJson_alike (h : backendNames failures = backendNames failures') :
    (Refusal.dispatch (.delivery failures)).failuresJson true =
      (Refusal.dispatch (.delivery failures')).failuresJson true := by
  cases failures with
  | nil =>
    cases failures' with
    | nil => rfl
    | cons f' rest' => cases h
  | cons f rest =>
    cases failures' with
    | nil => cases h
    | cons f' rest' =>
      simp only [Refusal.failuresJson]
      rw [map_failureJson, map_failureJson, h]

theorem Alike.response_eq (h : Alike e e') :
    (Refusal.dispatch e).response true = (Refusal.dispatch e').response true := by
  cases h with
  | closed => rfl
  | encode fault fault' => rfl
  | delivery failures failures' names =>
    have htold : (Refusal.dispatch (.delivery failures)).told true =
        (Refusal.dispatch (.delivery failures')).told true :=
      congrArg (fun names => "Delivery failed for: " ++ ", ".intercalate names) names
    rw [Refusal.response, Refusal.response, htold, failuresJson_alike names]
    rfl

theorem alike_of_response_eq {production : Bool}
    (h : (Refusal.dispatch e).response production = (Refusal.dispatch e').response production) :
    Alike e e' := by
  have hstatus : (Refusal.dispatch e).status = (Refusal.dispatch e').status :=
    congrArg Response.status h
  cases e with
  | closed =>
    cases e' with
    | closed => exact .closed
    | encode fault' => cases hstatus
    | delivery failures' => cases hstatus
  | encode fault =>
    cases e' with
    | closed => cases hstatus
    | encode fault' => exact .encode fault fault'
    | delivery failures' => cases hstatus
  | delivery failures =>
    cases e' with
    | closed => cases hstatus
    | encode fault' => cases hstatus
    | delivery failures' =>
      have htold := congrArg (fun r => toldFailures r.body) h
      simp only [toldFailures_delivery, Option.some.injEq] at htold
      have hnames := congrArg (List.map (·.1)) htold
      rw [tellings_names, tellings_names] at hnames
      exact .delivery failures failures' hnames

/-- In production the answer to a failed send depends on the sort of the error and on the names of
the backends that have failed, and on nothing else. In any other mode it tells the reason of every
failure, in order. -/
theorem reasons_kept_back :
    (∀ mode, mode = some "production" ∨ mode = some "prod" → ∀ e e',
      answerTo mode e = answerTo mode e' ↔ Alike e e') ∧
    ∀ mode, mode ≠ some "production" → mode ≠ some "prod" → ∀ failures,
      toldFailures (answerTo mode (.delivery failures)).body =
        some (failures.map fun f => (f.backend, f.cause.message)) := by
  constructor
  · intro mode hmode e e'
    rw [answerTo, answerTo, isProduction_iff.mpr hmode]
    exact ⟨alike_of_response_eq, Alike.response_eq⟩
  · intro mode hlong hshort failures
    have hmode : isProduction mode = false :=
      Bool.eq_false_iff.mpr fun h => (isProduction_iff.mp h).elim hlong hshort
    rw [answerTo, hmode, toldFailures_delivery]
    rfl

end Uplink.Ingress
