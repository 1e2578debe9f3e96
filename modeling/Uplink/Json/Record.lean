import Uplink.Json.Decode

namespace Uplink.Json

/-- A field of a record of type `σ`: how it gets in from a document and how it comes out. A field
that writes nothing is left out. -/
structure Field (σ : Type) where
  name : String
  required : Bool
  read : Document → Read (σ → σ)
  write : σ → Option Json

/-- A record: the name that errors call it by, its fields, and the values fields start from. -/
structure Record (σ : Type) where
  title : String
  fields : List (Field σ)
  blank : σ

namespace Record

variable {σ : Type}

def described (r : Record σ) : String := "struct " ++ r.title

/-- How errors describe the list form of a record. -/
def sized (r : Record σ) : String := s!"struct {r.title} with {r.fields.length} elements"

def find? (r : Record σ) (name : String) : Option (Field σ) :=
  r.fields.find? (·.name == name)

/-- Reads fields from the items of a list, `i` of which are done. Fields behind the end of the
list keep their values unless one of them is required. -/
def readItems (r : Record σ) (stop : Stop) (total : Nat) (i : Nat) (acc : σ) :
    List (Field σ) → List Document → Read σ
  | [], [] =>
    match stop.afterLast with
    | some m => malformed m
    | none => .ok acc
  | [], _ :: _ =>
    if stop = .whole then fail (.wrongLength total "fewer elements in array")
    else malformed .trailingCharacters
  | f :: fields, [] =>
    match stop.inList with
    | some m => inside (.index i) (malformed m)
    | none =>
      match (f :: fields).findIdx? (·.required) with
      | some k => fail (.wrongLength (i + k) r.sized)
      | none => .ok acc
  | f :: fields, d :: items => do
    let set ← inside (.index i) (f.read d)
    readItems r stop total (i + 1) (set acc) fields items

/-- Reads fields from the members of an object; `seen` are the names that were there. -/
def readMembers (r : Record σ) (stop : Stop) (seen : List String) (acc : σ) :
    List (Token String × Document) → Read σ
  | [] =>
    match stop.inObject with
    | some m => inside .unknown (malformed m)
    | none =>
      match r.fields.find? fun f => f.required && !seen.contains f.name with
      | some f => fail (.missing f.name)
      | none => .ok acc
  | (key, d) :: rest => do
    let name ← inside .unknown (Document.settle key)
    match r.find? name with
    | none =>
      inside (.key name) d.skip
      readMembers r stop seen acc rest
    | some f =>
      if seen.contains name then fail (.duplicate name)
      else
        let set ← inside (.key name) (f.read d)
        readMembers r stop (name :: seen) (set acc) rest

def read (r : Record σ) : Document → Read σ
  | .object members stop => r.readMembers stop [] r.blank members
  | .list items stop => r.readItems stop items.length 0 r.blank r.fields items
  | d => d.mismatch r.described

/-- The object of the fields that write something, in the order of the table. -/
def write (r : Record σ) (a : σ) : Json :=
  .object (r.fields.filterMap fun f => (f.write a).map (f.name, ·))

end Record

end Uplink.Json
