import Uplink.Json.Reader

namespace Uplink.Json

def malformed {α : Type} (m : Malformed) : Read α := fail (.malformed m)

namespace Document

/-- Something else was wanted. -/
def mismatch {α : Type} (expected : String) (d : Document) : Read α :=
  match d.found with
  | .ok found => fail (.wrongType found expected)
  | .error m => malformed m

def skip (d : Document) : Read Unit :=
  match d.skipped with
  | some m => malformed m
  | none => .ok ()

def settle {α : Type} (t : Token α) : Read α :=
  match t.value with
  | .ok a => .ok a
  | .error m => malformed m

def asText (expected : String) : Document → Read String
  | text t => settle t
  | d => d.mismatch expected

def asBool : Document → Read Bool
  | bool b => .ok b
  | d => d.mismatch "a boolean"

/-- A whole number between two bounds. -/
def asInt (low high : Int) (expected : String) : Document → Read Int
  | number t => do
    match ← settle t with
    | .int n =>
      if low ≤ n ∧ n ≤ high then .ok n else fail (.wrongValue (.int n) expected)
    | .float x => fail (.wrongType (.float x) expected)
  | d => d.mismatch expected

/-- A whole number as the nearest double. -/
def intToFloat (n : Int) : Float :=
  if n < 0 then -(UInt64.ofNat n.natAbs).toFloat else (UInt64.ofNat n.natAbs).toFloat

def asFloat : Document → Read Float
  | number t => do
    match ← settle t with
    | .int n => .ok (intToFloat n)
    | .float x => .ok x
  | d => d.mismatch "f64"

def asOptional {α : Type} (read : Document → Read α) : Document → Read (Option α)
  | null => .ok none
  | d => (read d).map some

/-- Reads the items of a list, of which `i` have been read. -/
def readItems {α : Type} (read : Document → Read α) (stop : Stop) (i : Nat) (done : List α) :
    List Document → Read (List α)
  | [] =>
    match stop.inList with
    | some m => inside (.index i) (malformed m)
    | none => .ok done.reverse
  | d :: rest => do
    let a ← inside (.index i) (read d)
    readItems read stop (i + 1) (a :: done) rest

def asList {α : Type} (read : Document → Read α) : Document → Read (List α)
  | list items stop => readItems read stop 0 [] items
  | d => d.mismatch "a sequence"

/-- Reads the members of an object of any names. -/
def readMembers {α : Type} (read : Document → Read α) (stop : Stop) (done : List (String × α)) :
    List (Token String × Document) → Read (List (String × α))
  | [] =>
    match stop.inObject with
    | some m => inside .unknown (malformed m)
    | none => .ok done.reverse
  | (key, d) :: rest => do
    let name ← inside .unknown (settle key)
    let a ← inside (.key name) (read d)
    readMembers read stop ((name, a) :: done) rest

/-- An object of any names, in the order of the text; a name may come more than once. -/
def asMembers {α : Type} (read : Document → Read α) : Document → Read (List (String × α))
  | object members stop => readMembers read stop [] members
  | d => d.mismatch "a map"

/-- How many lists and objects may stand inside each other in a value of any shape. -/
def depthLimit : Nat := 127

mutual

/-- A value of any shape, with room for `room` levels of lists and objects. -/
def toJson (room : Nat) : Document → Read Json
  | broken m => malformed m
  | null => .ok .null
  | bool b => .ok (.bool b)
  | number t => (settle t).map .number
  | text t => (settle t).map .text
  | list items stop =>
    if room = 0 then malformed .tooDeep
    else (itemsToJson (room - 1) stop [] items).map .list
  | object members stop =>
    if room = 0 then malformed .tooDeep
    else (membersToJson (room - 1) stop [] members).map Json.ofMembers

def itemsToJson (room : Nat) (stop : Stop) (done : List Json) : List Document → Read (List Json)
  | [] =>
    match stop.inList with
    | some m => malformed m
    | none => .ok done.reverse
  | d :: rest =>
    match toJson room d with
    | .ok v => itemsToJson room stop (v :: done) rest
    | .error f => .error f

def membersToJson (room : Nat) (stop : Stop) (done : List (String × Json)) :
    List (Token String × Document) → Read (List (String × Json))
  | [] =>
    match stop.inObject with
    | some m => malformed m
    | none => .ok done.reverse
  | (key, d) :: rest =>
    match settle key with
    | .error f => .error f
    | .ok name =>
      match toJson room d with
      | .ok v => membersToJson room stop ((name, v) :: done) rest
      | .error f => .error f

end

end Document

/-- Reads a whole text as data. -/
def readText {α : Type} (read : Document → Read α) (text : String) : Read α := do
  let reading := Reading.ofText text.toList
  let a ← read reading.document
  if reading.trailing then malformed .trailingCharacters else .ok a

/-- Reads a text as a value of any shape. -/
def parse (text : String) : Read Json := readText (Document.toJson Document.depthLimit) text

end Uplink.Json
