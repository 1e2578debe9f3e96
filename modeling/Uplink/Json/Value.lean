namespace Uplink

/-- A number without point and exponent is whole; all others are doubles. -/
inductive Json.Number where
  | int (n : Int)
  | float (x : Float)

/-- A JSON value. Objects that were read hold each name once, in ascending order. -/
inductive Json where
  | null
  | bool (b : Bool)
  | number (n : Json.Number)
  | text (s : String)
  | list (items : List Json)
  | object (members : List (String × Json))

namespace Json

instance : Inhabited Json := ⟨null⟩

def int (n : Int) : Json := number (.int n)

/-- The value of a member, the first one of that name. -/
def get? (name : String) : Json → Option Json
  | object members => members.lookup name
  | _ => none

/-- Puts a member into a list in ascending order of names, unless one of the same name is there.
Names are compared by their characters. -/
def insertMember (name : String) (v : Json) : List (String × Json) → List (String × Json)
  | [] => [(name, v)]
  | (other, w) :: rest =>
    if name < other then (name, v) :: (other, w) :: rest
    else if name = other then (other, w) :: rest
    else (other, w) :: insertMember name v rest

/-- The object of the members, each name once with its last value, in ascending order. -/
def ofMembers (members : List (String × Json)) : Json :=
  object (members.foldr (fun (name, v) sorted => insertMember name v sorted) [])

end Json

end Uplink
