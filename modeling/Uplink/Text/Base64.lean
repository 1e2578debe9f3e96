import Uplink.Text.Hex

namespace Uplink.Text.Base64

def symbol (v : Nat) : Char :=
  if v < 26 then Char.ofNat ('A'.toNat + v)
  else if v < 52 then Char.ofNat ('a'.toNat + (v - 26))
  else if v < 62 then Char.ofNat ('0'.toNat + (v - 52))
  else if v = 62 then '+' else '/'

/-- The six-bit number of a symbol, given as the byte it is stored as. -/
def symbolValue (b : UInt8) : Option Nat :=
  let c := b.toNat
  if 65 ≤ c ∧ c ≤ 90 then some (c - 65)
  else if 97 ≤ c ∧ c ≤ 122 then some (c - 71)
  else if 48 ≤ c ∧ c ≤ 57 then some (c + 4)
  else if c = 43 then some 62
  else if c = 47 then some 63
  else none

def pad : UInt8 := 61

/-- Writes the rest of the bytes behind the symbols written so far, which stand in reverse. -/
def encodeOnto (written : List Char) : List UInt8 → List Char
  | [] => written.reverse
  | [a] =>
    (('=' :: '=' :: symbol (a.toNat % 4 * 16) :: symbol (a.toNat / 4) :: written)).reverse
  | [a, b] =>
    ('=' :: symbol (b.toNat % 16 * 4) :: symbol (a.toNat % 4 * 16 + b.toNat / 16)
      :: symbol (a.toNat / 4) :: written).reverse
  | a :: b :: c :: rest =>
    encodeOnto (symbol (c.toNat % 64) :: symbol (b.toNat % 16 * 4 + c.toNat / 64)
      :: symbol (a.toNat % 4 * 16 + b.toNat / 16) :: symbol (a.toNat / 4) :: written) rest

def encode (bytes : List UInt8) : String := String.ofList (encodeOnto [] bytes)

inductive Fault where
  | badSymbol (byte : UInt8) (offset : Nat)
  | badLength (length : Nat)
  | looseBits (byte : UInt8) (offset : Nat) (bits : Nat)
  deriving DecidableEq, Repr

def bits8 (n : Nat) : String :=
  String.ofList ((List.range 8).map fun i => if n.testBit (7 - i) then '1' else '0')

def Fault.message : Fault → String
  | .badSymbol byte offset => s!"Invalid symbol {byte.toNat}, offset {offset}."
  | .badLength length => s!"Invalid input length: {length}"
  | .looseBits byte offset bits =>
    let hex := String.ofList [Hex.upperChar (byte.toNat / 16), Hex.upperChar (byte.toNat % 16)]
    s!"Invalid last symbol 0x{hex} ('" ++ String.singleton (Char.ofNat byte.toNat)
      ++ s!"') at offset {offset}, decoded as 0b{bits8 bits}."

/-- The values of symbols, or the first byte that is none. -/
def values (offset : Nat) (found : List Nat) : List UInt8 → Except Fault (List Nat)
  | [] => .ok found.reverse
  | b :: rest =>
    match symbolValue b with
    | some v => values (offset + 1) (v :: found) rest
    | none => .error (.badSymbol b offset)

/-- The bytes of whole quads, in front of those of a last quad of two, three or four values. -/
def join (written : List UInt8) : List Nat → List UInt8
  | a :: b :: c :: d :: rest =>
    join (UInt8.ofNat (c % 4 * 64 + d) :: UInt8.ofNat (b % 16 * 16 + c / 4)
      :: UInt8.ofNat (a * 4 + b / 16) :: written) rest
  | [a, b, c] =>
    (UInt8.ofNat (b % 16 * 16 + c / 4) :: UInt8.ofNat (a * 4 + b / 16) :: written).reverse
  | [a, b] => (UInt8.ofNat (a * 4 + b / 16) :: written).reverse
  | _ => written.reverse

/-- The bits of the last value that no byte uses. -/
def looseBits : List Nat → Nat
  | [_, b] => b % 16
  | [_, _, c] => c % 4
  | _ => 0

/-- How many bytes belong to the last quad, the only one that may hold padding. -/
def lastQuad (length : Nat) : Nat :=
  if length % 4 = 0 then min 4 length else length % 4

/-- Reads the text, given as its bytes. A dangling last byte is looked at first, then all quads
but the last, then the last one. -/
def decode (text : List UInt8) : Except Fault (List UInt8) := do
  let length := text.length
  if length % 4 = 1 then
    match text.getLast? with
    | some b =>
      if b ≠ pad ∧ symbolValue b = none then throw (.badSymbol b (length - 1))
    | none => pure ()
  let cut := length - lastQuad length
  let whole ← values 0 [] (text.take cut)
  let tail := text.drop cut
  let symbols := tail.takeWhile (· ≠ pad)
  let padding := tail.dropWhile (· ≠ pad)
  let last ← values cut [] symbols
  if padding ≠ [] ∧ (last.length < 2 ∨ padding.any (· ≠ pad)) then
    throw (.badSymbol pad (cut + last.length))
  if text ≠ [] ∧ last.length < 2 then throw (.badLength (cut + last.length))
  if looseBits last ≠ 0 then
    throw (.looseBits (symbols.getLast?.getD 0) (cut + last.length - 1) (last.getLast?.getD 0))
  pure (join [] (whole ++ last))

end Uplink.Text.Base64
