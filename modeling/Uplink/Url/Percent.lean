import Uplink.Text.Hex
import Uplink.Text.Utf8

namespace Uplink.Url

open Text

/-- Whether a character is written as bytes in every part: controls and all beyond ASCII. -/
def isControl (c : Char) : Bool := c.toNat < 0x20 || 0x7F ≤ c.toNat

def inQuery (c : Char) : Bool :=
  isControl c || c == ' ' || c == '"' || c == '#' || c == '<' || c == '>' || c == '\''

def inFragment (c : Char) : Bool :=
  isControl c || c == ' ' || c == '"' || c == '<' || c == '>' || c == '`'

def inPath (c : Char) : Bool :=
  inFragment c || c == '#' || c == '?' || c == '\x7b' || c == '\x7d'

def inUserinfo (c : Char) : Bool :=
  inPath c || c == '/' || c == ':' || c == ';' || c == '=' || c == '@' || c == '[' || c == '\\'
    || c == ']' || c == '^' || c == '|'

def encodeByte (b : UInt8) : List Char :=
  ['%', Hex.upperChar (b.toNat / 16), Hex.upperChar (b.toNat % 16)]

def encodeChar (set : Char → Bool) (c : Char) : List Char :=
  if set c then (String.utf8EncodeChar c).flatMap encodeByte else [c]

def encode (set : Char → Bool) (cs : List Char) : List Char := cs.flatMap (encodeChar set)

/-- The bytes of a text in which `%` and two digits stand for one byte; any other `%` stands for
itself. -/
def decode : List Char → List UInt8
  | [] => []
  | '%' :: c :: d :: rest =>
    match Hex.digitValue c, Hex.digitValue d with
    | some hi, some lo => UInt8.ofNat (16 * hi + lo) :: decode rest
    | _, _ => UInt8.ofNat '%'.toNat :: decode (c :: d :: rest)
  | c :: rest => String.utf8EncodeChar c ++ decode rest

end Uplink.Url
