import Uplink.Text.Hex

namespace Uplink.Device

open Uplink.Text

/-- An identifier of `n` bytes. -/
structure Identifier (n : Nat) where
  bytes : List UInt8
  size_eq : bytes.length = n
  deriving DecidableEq, Repr

/-- The globally unique identifier of a device. -/
abbrev Eui64 := Identifier 8

abbrev DevAddr := Identifier 4

namespace Identifier

def zero (n : Nat) : Identifier n := ⟨List.replicate n 0, List.length_replicate⟩

instance (n : Nat) : Inhabited (Identifier n) := ⟨zero n⟩

inductive Fault where
  | wrongLength (expected actual : Nat)
  | badDigit (text : String)
  deriving DecidableEq, Repr

def Fault.message : Fault → String
  | .wrongLength expected actual => s!"expected {expected} hex characters, got {actual}"
  | .badDigit text => "invalid hex character in '" ++ text ++ "'"

/-- Lower-case digits, two a byte. -/
def render {n : Nat} (id : Identifier n) : String := String.ofList (Hex.encode id.bytes)

/-- Reads digits of either case. The length counts bytes, and a wrong one is reported first. -/
def parse (n : Nat) (text : String) : Except Fault (Identifier n) :=
  if text.utf8ByteSize = 2 * n then
    match Hex.decode text.toList with
    | some bytes =>
      if h : bytes.length = n then .ok ⟨bytes, h⟩ else .error (.badDigit text)
    | none => .error (.badDigit text)
  else .error (.wrongLength (2 * n) text.utf8ByteSize)

end Identifier

end Uplink.Device
