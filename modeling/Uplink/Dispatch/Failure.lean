import Uplink.Registry.Step

namespace Uplink.Dispatch

open Backend Integration Registry Store

inductive FailureCause where
  | transport (e : BackendError)
  /-- The integration could not be built from what is stored. -/
  | configuration (e : IntegrationError)
  /-- Integrations could not be looked up, so none was tried. -/
  | storage (e : StorageError)

def FailureCause.message : FailureCause → String
  | .transport e => e.message
  | .configuration e => "configuration error: " ++ e.message
  | .storage e => e.message

structure BackendFailure where
  backend : String
  cause : FailureCause

def BackendFailure.message (f : BackendFailure) : String := f.backend ++ ": " ++ f.cause.message

inductive DispatchError where
  | closed
  | encode (fault : Json.Fault)
  /-- All failures of one send, in the order of delivery. -/
  | delivery (failures : List BackendFailure)

def backendNames (failures : List BackendFailure) : List String := failures.map (·.backend)

def deliveryMessage (failures : List BackendFailure) : String :=
  s!"delivery failed for {failures.length} backend(s)"
    ++ (if failures.isEmpty then "" else
      ": " ++ "; ".intercalate (failures.map BackendFailure.message))

/-- What a fault of encoding is called. -/
def encodeMessage (fault : Json.Fault) : String := "Serialization error: " ++ fault.message

def DispatchError.message : DispatchError → String
  | .closed => "dispatcher is closed"
  | .encode fault => "failed to encode notification: " ++ encodeMessage fault
  | .delivery failures => deliveryMessage failures

abbrev Sent := Except DispatchError Unit

/-- The failure of a row that could not be built, named by its stored kind. -/
def ofConfiguration (f : ConfigurationFailure) : BackendFailure := ⟨f.kind, .configuration f.error⟩

/-- The failure that stands for a failed lookup. -/
def ofStorage (e : StorageError) : BackendFailure := ⟨"storage", .storage e⟩

/-- The failure of a backend, if its delivery failed. -/
def ofDelivery (backend : String) : Delivery → Option BackendFailure
  | .ok _ => none
  | .error e => some ⟨backend, .transport e⟩

end Uplink.Dispatch
