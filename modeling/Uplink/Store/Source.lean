import Uplink.Store.Memory

namespace Uplink.Store

/-- Where integrations are looked up. A table may hold several of one kind for an application. -/
inductive Source where
  | memory (m : Memory)
  | table (rows : List Integration)

namespace Source

def list (s : Source) (applicationId : Int64) : List Integration :=
  match s with
  | .memory m => m.list applicationId
  | .table rows => rows.filter (·.applicationId == applicationId)

/-- Stores an integration. A table just gets another row. -/
def upsert (s : Source) (row : Integration) : Source :=
  match s with
  | .memory m => .memory (m.upsert row)
  | .table rows => .table (rows ++ [row])

def isOf (applicationId : Int64) (kind : String) (row : Integration) : Bool :=
  row.applicationId == applicationId && row.kind == kind

/-- Removes the integrations of a kind, and says whether there were any. -/
def remove (s : Source) (applicationId : Int64) (kind : String) : Source × Bool :=
  match s with
  | .memory m =>
    let (m, removed) := m.remove applicationId kind
    (.memory m, removed)
  | .table rows =>
    (.table (rows.filter fun row => !isOf applicationId kind row),
      rows.any (isOf applicationId kind))

end Source

end Uplink.Store
