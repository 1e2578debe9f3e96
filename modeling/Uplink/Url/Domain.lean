import Uplink.Url.Percent
import Uplink.Url.Punycode

namespace Uplink.Url.Domain

/-- Characters beyond ASCII that no name holds: controls, blanks, joiners, separators, those for
private use and those that are none. -/
def isReserved (n : Nat) : Bool :=
  (0x80 ≤ n && n ≤ 0xA0) || n == 0x1680 || (0x2000 ≤ n && n ≤ 0x200A)
    || (0x200C ≤ n && n ≤ 0x200F) || (0x2028 ≤ n && n ≤ 0x202F) || n == 0x205F || n == 0x3000
    || (0xE000 ≤ n && n ≤ 0xF8FF) || (0xFDD0 ≤ n && n ≤ 0xFDEF) || (0xFFF9 ≤ n && n ≤ 0xFFFD)
    || 0xFFFE ≤ n % 0x10000 || 0xE0000 ≤ n

def isForbidden (c : Char) : Bool :=
  c.toNat ≤ 0x20 || c.toNat == 0x7F || "%#/:<>?@[\\]^|".toList.contains c || isReserved c.toNat

def isIgnored (n : Nat) : Bool :=
  n == 0xAD || n == 0x200B || n == 0x2060 || n == 0xFEFF || (0xFE00 ≤ n && n ≤ 0xFE0F)

/-- The lower case of the letters of the European scripts. -/
def lower (n : Nat) : Nat :=
  if 0x41 ≤ n ∧ n ≤ 0x5A then n + 32
  else if 0xC0 ≤ n ∧ n ≤ 0xDE ∧ n ≠ 0xD7 then n + 32
  else if 0x100 ≤ n ∧ n ≤ 0x137 ∧ n ≠ 0x130 then (if n % 2 = 0 then n + 1 else n)
  else if 0x139 ≤ n ∧ n ≤ 0x148 then (if n % 2 = 1 then n + 1 else n)
  else if 0x14A ≤ n ∧ n ≤ 0x177 then (if n % 2 = 0 then n + 1 else n)
  else if n = 0x178 then 0xFF
  else if 0x179 ≤ n ∧ n ≤ 0x17E then (if n % 2 = 1 then n + 1 else n)
  else if n = 0x386 then 0x3AC
  else if 0x388 ≤ n ∧ n ≤ 0x38A then n + 37
  else if n = 0x38C then 0x3CC
  else if n = 0x38E ∨ n = 0x38F then n + 63
  else if 0x391 ≤ n ∧ n ≤ 0x3AB then n + 32
  else if 0x410 ≤ n ∧ n ≤ 0x42F then n + 32
  else if 0x400 ≤ n ∧ n ≤ 0x40F then n + 80
  else if 0x531 ≤ n ∧ n ≤ 0x556 then n + 48
  else if (0x1E00 ≤ n ∧ n ≤ 0x1E95) ∨ (0x1EA0 ≤ n ∧ n ≤ 0x1EFF) then
    (if n % 2 = 0 then n + 1 else n)
  else if 0xFF01 ≤ n ∧ n ≤ 0xFF5E then
    (let m := n - 0xFEE0
    if 0x41 ≤ m ∧ m ≤ 0x5A then m + 32 else m)
  else if n = 0x3002 ∨ n = 0xFF0E ∨ n = 0xFF61 then 0x2E
  else n

def fold (cs : List Char) : List Char :=
  ((cs.map Char.toNat).filter (!isIgnored ·)).map fun n => Char.ofNat (lower n)

/-- Whether a label carries the mark of the encoded form. -/
def marked? : List Char → Option (List Char)
  | 'x' :: 'n' :: '-' :: '-' :: rest => some rest
  | _ => none

/-- A label in ASCII; an encoded one has to be what its own decoding, folded, is written as. -/
def label (cs : List Char) : Option (List Char) :=
  match marked? cs with
  | some rest =>
    match Punycode.decode rest with
    | some points =>
      let decoded := points.map Char.ofNat
      if points.any (128 ≤ ·) ∧ Punycode.encode points = rest ∧ fold decoded = decoded
          ∧ !decoded.any isForbidden then some cs
      else none
    | none => none
  | none =>
    if cs.all (·.toNat < 128) then some cs
    else some ('x' :: 'n' :: '-' :: '-' :: Punycode.encode (cs.map Char.toNat))

/-- The name a text stands for, `none` where it stands for none. -/
def normalize (cs : List Char) : Option (List Char) := do
  let folded := fold cs
  if folded.any isForbidden then none
  let labels ← (folded.splitOn '.').mapM label
  some (['.'].intercalate labels)

end Uplink.Url.Domain
