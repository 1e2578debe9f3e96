import Uplink.Toml.Fault
import Uplink.Toml.Value

namespace Uplink.Toml

abbrev Members := List (String × Entry)

/-- Puts an entry in the place of the one of its name, or behind all others. -/
def Members.put (name : String) (e : Entry) : Members → Members
  | [] => [(name, e)]
  | (other, old) :: rest =>
    if other = name then (name, e) :: rest else (other, old) :: Members.put name e rest

/-- Why a key cannot be set or a table not be opened. -/
inductive Conflict where
  /-- The key is taken; the table it is in, if that is known. -/
  | duplicate (name : String) (table : Option (List String))
  /-- A path goes through a value. -/
  | extends (path : List String) (typeName : String)
  deriving DecidableEq, Repr

def joined (path : List String) : String := ".".intercalate path

def Conflict.message : Conflict → String
  | .duplicate name none => "duplicate key `" ++ name ++ "`"
  | .duplicate name (some []) => "duplicate key `" ++ name ++ "` in document root"
  | .duplicate name (some path) =>
    "duplicate key `" ++ name ++ "` in table `" ++ joined path ++ "`"
  | .extends path typeName =>
    "dotted key `" ++ joined path ++ "` attempted to extend non-table type (" ++ typeName ++ ")"

/-- Changes the table at a path, and opens those on the way to it. `done` is the path so far. -/
def change (how : Opening) (done : List String) (act : Members → Except Conflict Members) :
    (path : List String) → Members → Except Conflict Members
  | [], members => act members
  | name :: rest, members =>
    match (members.lookup name).getD (.table how []) with
    | .value v => .error (.extends (done ++ [name]) v.typeName)
    | .table old inner =>
      if how = .dotted ∧ old = .header then .error (.duplicate name none)
      else do
        let inner ← change how (done ++ [name]) act rest inner
        .ok (members.put name (.table old inner))
    | .series tables => do
      let last ← change how (done ++ [name]) act rest (tables.getLast?.getD [])
      .ok (members.put name (.series (tables.dropLast ++ [last])))

/-- Opens a table under a header. One that only was on the way to another may be opened. -/
def openTable (path : List String) (name : String) (root : Members) : Except Conflict Members :=
  change .implied [] (fun members =>
    match members.lookup name with
    | none => .ok (members.put name (.table .header []))
    | some (.table .implied inner) => .ok (members.put name (.table .header inner))
    | some _ => .error (.duplicate name (some path))) path root

def openSeries (path : List String) (name : String) (root : Members) : Except Conflict Members :=
  change .implied [] (fun members =>
    match members.lookup name with
    | none => .ok (members.put name (.series [[]]))
    | some (.series tables) => .ok (members.put name (.series (tables ++ [[]])))
    | some _ => .error (.duplicate name (some path))) path root

/-- Sets a key in a table; `table` is the header it stands under. -/
def assign (table path : List String) (name : String) (v : Value) (members : Members) :
    Except Conflict Members :=
  change .dotted [] (fun inner =>
    match inner.lookup name with
    | none => .ok (inner.put name (.value v))
    | some _ => .error (.duplicate name (some table))) path members

/-- Sets a key under the header that is open. -/
def setKey (table path : List String) (name : String) (v : Value) (root : Members) :
    Except Conflict Members :=
  change .implied [] (assign table path name v) table root

end Uplink.Toml
