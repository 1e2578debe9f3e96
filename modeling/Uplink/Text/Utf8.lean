namespace Uplink.Text.Utf8

def encode (s : String) : List UInt8 := s.toList.flatMap String.utf8EncodeChar

/-- How many bytes follow a first byte, the least and greatest second byte, and the bits the first
byte gives; `none` for a byte that starts no character. -/
def first (b : Nat) : Option (Nat × Nat × Nat × Nat) :=
  if b < 0x80 then some (0, 0, 0, b)
  else if 0xC2 ≤ b ∧ b ≤ 0xDF then some (1, 0x80, 0xBF, b - 0xC0)
  else if b = 0xE0 then some (2, 0xA0, 0xBF, 0)
  else if b = 0xED then some (2, 0x80, 0x9F, 0xD)
  else if 0xE1 ≤ b ∧ b ≤ 0xEF then some (2, 0x80, 0xBF, b - 0xE0)
  else if b = 0xF0 then some (3, 0x90, 0xBF, 0)
  else if 0xF1 ≤ b ∧ b ≤ 0xF3 then some (3, 0x80, 0xBF, b - 0xF0)
  else if b = 0xF4 then some (3, 0x80, 0x8F, 4)
  else none

/-- The bytes still owed to a character, the bounds of the next one, and the bits so far. -/
structure Pending where
  owed : Nat
  low : Nat
  high : Nat
  bits : Nat

/-- The character a decoder puts in place of what is none. -/
def replacement : Char := '\uFFFD'

/-- A decoder: the characters so far in reverse, whether all bytes were good, and the character
that has begun. -/
structure Decoder where
  chars : List Char
  good : Bool
  pending : Option Pending

namespace Decoder

def start : Decoder := ⟨[], true, none⟩

def begin (d : Decoder) (b : UInt8) : Decoder :=
  match first b.toNat with
  | some (0, _, _, bits) => ⟨Char.ofNat bits :: d.chars, d.good, none⟩
  | some (owed, low, high, bits) => ⟨d.chars, d.good, some ⟨owed, low, high, bits⟩⟩
  | none => ⟨replacement :: d.chars, false, none⟩

def step (d : Decoder) (b : UInt8) : Decoder :=
  match d.pending with
  | none => d.begin b
  | some p =>
    if p.low ≤ b.toNat ∧ b.toNat ≤ p.high then
      let bits := 64 * p.bits + b.toNat % 64
      if p.owed ≤ 1 then ⟨Char.ofNat bits :: d.chars, d.good, none⟩
      else ⟨d.chars, d.good, some ⟨p.owed - 1, 0x80, 0xBF, bits⟩⟩
    else begin ⟨replacement :: d.chars, false, none⟩ b

def finish (d : Decoder) : Decoder :=
  match d.pending with
  | none => d
  | some _ => ⟨replacement :: d.chars, false, none⟩

end Decoder

def run (bytes : List UInt8) : Decoder := (bytes.foldl Decoder.step Decoder.start).finish

/-- The text of the bytes, or nothing when they are none. -/
def decode? (bytes : List UInt8) : Option String :=
  let d := run bytes
  if d.good then some (String.ofList d.chars.reverse) else none

/-- The text of the bytes, with replacements for what is none. -/
def decodeLossy (bytes : List UInt8) : String := String.ofList (run bytes).chars.reverse

end Uplink.Text.Utf8
