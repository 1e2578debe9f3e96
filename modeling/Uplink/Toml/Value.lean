namespace Uplink.Toml

inductive Value where
  | text (s : String)
  | int (n : Int)
  | float (x : Float)
  | bool (b : Bool)
  /-- A date, a time or both, as it is written. -/
  | moment (s : String)
  | list (items : List Value)
  | table (members : List (String × Value))

namespace Value

instance : Inhabited Value := ⟨.list []⟩

def typeName : Value → String
  | .text _ => "string"
  | .int _ => "integer"
  | .float _ => "float"
  | .bool _ => "boolean"
  | .moment _ => "datetime"
  | .list _ => "array"
  | .table _ => "inline table"

end Value

inductive Opening where
  | implied
  | dotted
  | header
  deriving DecidableEq, Repr

inductive Entry where
  | value (v : Value)
  | table (how : Opening) (members : List (String × Entry))
  /-- Tables under one header; the last one is open. -/
  | series (tables : List (List (String × Entry)))

namespace Entry

instance : Inhabited Entry := ⟨.series []⟩

mutual

def toValue : Entry → Value
  | .value v => v
  | .table _ members => .table (membersToValue members)
  | .series tables => .list (tablesToValue tables)

def membersToValue : List (String × Entry) → List (String × Value)
  | [] => []
  | (name, e) :: rest => (name, e.toValue) :: membersToValue rest

def tablesToValue : List (List (String × Entry)) → List Value
  | [] => []
  | members :: rest => .table (membersToValue members) :: tablesToValue rest

end

end Entry

end Uplink.Toml
