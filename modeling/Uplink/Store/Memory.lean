import Uplink.Json.Record

namespace Uplink.Store

/-- One stored integration of an application. Its kind is the text that was stored. -/
structure Integration where
  applicationId : Int64
  kind : String
  settings : Json

inductive StorageError where
  | unavailable (reason : String)
  deriving DecidableEq, Repr

def StorageError.message : StorageError → String
  | .unavailable reason => "Storage unavailable: " ++ reason

namespace Integration

open Json

def blank : Integration := ⟨0, "", .null⟩

def record : Record Integration where
  title := "Integration"
  blank := blank
  fields :=
    [{ name := "application_id"
       required := true
       read := fun d => do
         let n ← d.asInt (-(Number.intMax : Int) - 1) Number.intMax "i64"
         return fun r => { r with applicationId := Int64.ofInt n }
       write := fun r => some (.int r.applicationId.toInt) },
     { name := "kind"
       required := true
       read := fun d => do
         let s ← d.asText "a string"
         return fun r => { r with kind := s }
       write := fun r => some (.text r.kind) },
     { name := "settings"
       required := true
       read := fun d => do
         let v ← d.toJson Document.depthLimit
         return fun r => { r with settings := v }
       write := fun r => some r.settings }]

end Integration

/-- Integrations in the order in which they came, at most one of a kind for each application. -/
structure Memory where
  applications : List (Int64 × List Integration)

namespace Memory

def empty : Memory := ⟨[]⟩

def list (m : Memory) (applicationId : Int64) : List Integration :=
  (m.applications.lookup applicationId).getD []

/-- Replaces the first integration of the same kind, or comes last. -/
def put (row : Integration) : List Integration → List Integration
  | [] => [row]
  | other :: rest => if other.kind = row.kind then row :: rest else other :: put row rest

def assign (id : Int64) (rows : List Integration) :
    List (Int64 × List Integration) → List (Int64 × List Integration)
  | [] => [(id, rows)]
  | (other, old) :: rest =>
    if other = id then (id, rows) :: rest else (other, old) :: assign id rows rest

def upsert (m : Memory) (row : Integration) : Memory :=
  ⟨assign row.applicationId (put row (m.list row.applicationId)) m.applications⟩

/-- Removes the integrations of a kind, and says whether there were any. -/
def remove (m : Memory) (applicationId : Int64) (kind : String) : Memory × Bool :=
  let rows := m.list applicationId
  let kept := rows.filter (·.kind != kind)
  if kept.length = rows.length then (m, false)
  else (⟨assign applicationId kept m.applications⟩, true)

end Memory

end Uplink.Store
