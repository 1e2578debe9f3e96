namespace Uplink.Text.Hex

def digitChar (d : Nat) : Char :=
  if d < 10 then Char.ofNat ('0'.toNat + d) else Char.ofNat ('a'.toNat + (d - 10))

def upperChar (d : Nat) : Char :=
  if d < 10 then Char.ofNat ('0'.toNat + d) else Char.ofNat ('A'.toNat + (d - 10))

def digitValue (c : Char) : Option Nat :=
  if '0' ≤ c ∧ c ≤ '9' then some (c.toNat - '0'.toNat)
  else if 'a' ≤ c ∧ c ≤ 'f' then some (c.toNat - 'a'.toNat + 10)
  else if 'A' ≤ c ∧ c ≤ 'F' then some (c.toNat - 'A'.toNat + 10)
  else none

def isDigit (c : Char) : Bool := (digitValue c).isSome

/-- The two digits of a byte, high half first. -/
def encodeByte (b : UInt8) : List Char :=
  [digitChar (b.toNat / 16), digitChar (b.toNat % 16)]

def encode (bytes : List UInt8) : List Char := bytes.flatMap encodeByte

/-- Reads pairs of digits; an odd count or any other character is refused. -/
def decode : List Char → Option (List UInt8)
  | [] => some []
  | [_] => none
  | c :: d :: rest => do
    let hi ← digitValue c
    let lo ← digitValue d
    let bytes ← decode rest
    pure (UInt8.ofNat (16 * hi + lo) :: bytes)

def ofNat (n : Nat) : List Char :=
  if n < 16 then [digitChar n] else ofNat (n / 16) ++ [digitChar (n % 16)]
termination_by n
decreasing_by omega

end Uplink.Text.Hex
