import Uplink.Number.Shortest
import Uplink.Text.Decimal
import Uplink.Text.Quoted

namespace Uplink.Json

inductive Malformed where
  | endInValue
  | endInText
  | endInList
  | endInObject
  | expectedValue
  | expectedWord
  | expectedColon
  | expectedListNext
  | expectedObjectNext
  | trailingComma
  | trailingCharacters
  | keyNotText
  | badNumber
  | numberTooLarge
  | badEscape
  | loneSurrogate
  | unpairedEscape
  | controlCharacter
  | tooDeep
  deriving DecidableEq, Repr

def Malformed.message : Malformed → String
  | .endInValue => "EOF while parsing a value"
  | .endInText => "EOF while parsing a string"
  | .endInList => "EOF while parsing a list"
  | .endInObject => "EOF while parsing an object"
  | .expectedValue => "expected value"
  | .expectedWord => "expected ident"
  | .expectedColon => "expected `:`"
  | .expectedListNext => "expected `,` or `]`"
  | .expectedObjectNext => "expected `,` or `\x7d`"
  | .trailingComma => "trailing comma"
  | .trailingCharacters => "trailing characters"
  | .keyNotText => "key must be a string"
  | .badNumber => "invalid number"
  | .numberTooLarge => "number out of range"
  | .badEscape => "invalid escape"
  | .loneSurrogate => "lone leading surrogate in hex escape"
  | .unpairedEscape => "unexpected end of hex escape"
  | .controlCharacter => "control character (\\u0000-\\u001F) found while parsing a string"
  | .tooDeep => "recursion limit exceeded"

/-- Whether the text just ended too early. -/
def Malformed.isEnd : Malformed → Bool
  | .endInValue | .endInText | .endInList | .endInObject => true
  | _ => false

inductive Found where
  | null
  | bool (b : Bool)
  | int (n : Int)
  | float (x : Float)
  | text (s : String)
  | list
  | object

/-- A double in its shortest decimal: positional from `1e-5` up to `1e16` with at least one place
after the point, scientific with a signed exponent outside. -/
def renderFloat (x : Float) : String :=
  let d := Number.shortest x
  let digits := Text.Decimal.digits d.digits
  let count := digits.length
  -- where the point stands, counted from the first digit
  let point : Int := count + d.exponent
  let magnitude :=
    if d.digits = 0 then ['0', '.', '0']
    else if -5 < point ∧ point ≤ 0 then
      '0' :: '.' :: List.replicate (-point).toNat '0' ++ digits
    else if 0 < point ∧ point < count then
      digits.take point.toNat ++ '.' :: digits.drop point.toNat
    else if 0 < point ∧ point ≤ 16 then
      digits ++ List.replicate (point.toNat - count) '0' ++ ['.', '0']
    else
      let e := point - 1
      let mark := 'e' :: (if e < 0 then '-' else '+') :: Text.Decimal.digits e.natAbs
      match digits with
      | [single] => single :: mark
      | first :: rest => first :: '.' :: rest ++ mark
      | [] => mark
  String.ofList (if Number.signBit x then '-' :: magnitude else magnitude)

def Found.message : Found → String
  | .null => "null"
  | .bool b => s!"boolean `{b}`"
  | .int n => s!"integer `{String.ofList (Text.Decimal.ofInt n)}`"
  | .float x => s!"floating point `{renderFloat x}`"
  | .text s => "string " ++ Text.Quoted.quote s
  | .list => "sequence"
  | .object => "map"

/-- One step from a value to a part of it. A fault between two members has no name yet. -/
inductive Segment where
  | key (name : String)
  | index (n : Nat)
  | unknown
  deriving DecidableEq, Repr

inductive Cause where
  | malformed (m : Malformed)
  | wrongType (found : Found) (expected : String)
  | wrongValue (found : Found) (expected : String)
  | wrongLength (length : Nat) (expected : String)
  | missing (field : String)
  | duplicate (field : String)
  | unknownVariant (name : String) (known : List String)
  | refused (reason : String)

/-- A text between the marks that set off names. -/
def ticked (name : String) : String := "`" ++ name ++ "`"

def Cause.message : Cause → String
  | .malformed m => m.message
  | .wrongType found expected => "invalid type: " ++ found.message ++ ", expected " ++ expected
  | .wrongValue found expected => "invalid value: " ++ found.message ++ ", expected " ++ expected
  | .wrongLength n expected => s!"invalid length {n}, expected " ++ expected
  | .missing field => "missing field " ++ ticked field
  | .duplicate field => "duplicate field " ++ ticked field
  | .unknownVariant name known =>
    "unknown variant " ++ ticked name ++ ", expected one of "
      ++ ", ".intercalate (known.map ticked)
  | .refused reason => reason

/-- The three sorts of causes: the text breaks the grammar, it ends early, or its data is not of
the wanted shape. -/
inductive Category where
  | grammar
  | ended
  | shape
  deriving DecidableEq, Repr

def Cause.category : Cause → Category
  | .malformed m => if m.isEnd then .ended else .grammar
  | _ => .shape

/-- A cause and the place it was met at, from the outside in. -/
structure Fault where
  path : List Segment
  cause : Cause

namespace Fault

def message (f : Fault) : String := f.cause.message

def category (f : Fault) : Category := f.cause.category

/-- The fault as seen from one level further out. -/
def within (s : Segment) (f : Fault) : Fault := { f with path := s :: f.path }

/-- The steps of a path, joined by points; an index follows without one. -/
def renderPath : List Segment → String
  | [] => ""
  | s :: rest =>
    let tail := rest.foldl (fun text s =>
      match s with
      | .key name => text ++ "." ++ name
      | .index n => text ++ s!"[{n}]"
      | .unknown => text ++ ".?") ""
    (match s with
      | .key name => name
      | .index n => s!"[{n}]"
      | .unknown => "?") ++ tail

/-- The message behind its place, where a place is known. -/
def located (f : Fault) : String :=
  if f.path.all (· == .unknown) then f.message else renderPath f.path ++ ": " ++ f.message

end Fault

abbrev Read (α : Type) := Except Fault α

def fail {α : Type} (cause : Cause) : Read α := .error ⟨[], cause⟩

/-- Reads a part; its faults lie one step further in. -/
def inside {α : Type} (s : Segment) : Read α → Read α
  | .ok a => .ok a
  | .error f => .error (f.within s)

end Uplink.Json
