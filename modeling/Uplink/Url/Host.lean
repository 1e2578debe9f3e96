import Uplink.Text.Decimal
import Uplink.Url.Domain

namespace Uplink.Url

open Text

inductive UrlError where
  | emptyHost
  | invalidDomain
  | invalidDomainCharacter
  | invalidPort
  | invalidIpv4
  | invalidIpv6
  | relativeWithoutBase
  deriving DecidableEq, Repr

def UrlError.message : UrlError → String
  | .emptyHost => "empty host"
  | .invalidDomain => "invalid international domain name"
  | .invalidDomainCharacter => "invalid domain character"
  | .invalidPort => "invalid port number"
  | .invalidIpv4 => "invalid IPv4 address"
  | .invalidIpv6 => "invalid IPv6 address"
  | .relativeWithoutBase => "relative URL without a base"

inductive Host where
  | domain (text : List Char)
  | ipv4 (address : Nat)
  | ipv6 (pieces : List Nat)
  deriving DecidableEq, Repr

namespace Host

/-- A part of an address in decimal, octal behind a zero, or hexadecimal behind `0x`. -/
def readPart : List Char → Option Nat
  | [] => none
  | '0' :: 'x' :: rest | '0' :: 'X' :: rest =>
    if rest.all Hex.isDigit then
      some (rest.foldl (fun n c => 16 * n + (Hex.digitValue c).getD 0) 0)
    else none
  | '0' :: c :: rest =>
    if (c :: rest).all fun d => '0' ≤ d ∧ d ≤ '7' then
      some ((c :: rest).foldl (fun n d => 8 * n + (d.toNat - '0'.toNat)) 0)
    else none
  | cs => if cs.all Char.isDigit then some (Decimal.value cs) else none

/-- Labels of a name; an empty one at the end does not count. -/
def labels (cs : List Char) : List (List Char) :=
  let all := cs.splitOn '.'
  if all.getLast? = some [] then all.dropLast else all

/-- Whether a name has to be an address: its last label is a number. -/
def endsInNumber (cs : List Char) : Bool :=
  match (labels cs).getLast? with
  | none => false
  | some last => (!last.isEmpty && last.all Char.isDigit) || (readPart last).isSome

/-- An address of up to four parts; the last one fills what the others leave. -/
def readIpv4 (cs : List Char) : Except UrlError Host :=
  let parts := labels cs
  if 4 < parts.length then .error .invalidIpv4
  else
    match parts.mapM readPart with
    | none => .error .invalidIpv4
    | some numbers =>
      let front := numbers.dropLast
      let last := numbers.getLast?.getD 0
      if front.all (· ≤ 255) ∧ last < Nat.pow 256 (4 - front.length) then
        let high := (front.zipIdx).foldl (fun sum (n, i) => sum + n * Nat.pow 256 (3 - i)) 0
        .ok (.ipv4 (high + last))
      else .error .invalidIpv4

def renderIpv4 (n : Nat) : List Char :=
  ['.'].intercalate
    ([n / 256 / 256 / 256 % 256, n / 256 / 256 % 256, n / 256 % 256, n % 256].map Decimal.digits)

/-- The pieces read so far and where the gap stands among them. -/
structure Pieces where
  pieces : List Nat
  gap : Option Nat

/-- One of the four numbers at the end of an address: no leading zero, at most 255. -/
def readByte (cs : List Char) : Option Nat :=
  match cs with
  | [] => none
  | ['0'] => some 0
  | '0' :: _ => none
  | cs => if cs.all Char.isDigit ∧ Decimal.value cs ≤ 255 then some (Decimal.value cs) else none

/-- The last two pieces in the notation of version 4. -/
def readTail (cs : List Char) : Option (List Nat) := do
  match ← (cs.splitOn '.').mapM readByte with
  | [a, b, c, d] => some [256 * a + b, 256 * c + d]
  | _ => none

/-- Reads pieces; `fuel` bounds their number. At most eight pieces and gaps are taken. -/
def readPieces (p : Pieces) (cs : List Char) : Nat → Option Pieces
  | 0 => none
  | fuel + 1 =>
    -- a gap takes a place of its own
    let place := p.pieces.length + (if p.gap.isSome then 1 else 0)
    match cs with
    | [] => some p
    | ':' :: rest =>
      if place = 8 ∨ p.gap.isSome then none
      else readPieces { p with gap := some p.pieces.length } rest fuel
    | cs =>
      if place = 8 then none
      else
        let digits := (cs.take 4).takeWhile Hex.isDigit
        let value := digits.foldl (fun n c => 16 * n + (Hex.digitValue c).getD 0) 0
        match cs.drop digits.length with
        | [] => readPieces { p with pieces := p.pieces ++ [value] } [] fuel
        | '.' :: _ =>
          if digits.isEmpty ∨ 6 < place then none
          else (readTail cs).map fun tail => { p with pieces := p.pieces ++ tail }
        | ':' :: rest =>
          if rest.isEmpty then none
          else readPieces { p with pieces := p.pieces ++ [value] } rest fuel
        | _ => none

def Pieces.fill (p : Pieces) : Option (List Nat) :=
  let count := p.pieces.length
  match p.gap with
  | some at_ =>
    if count ≤ 8 then
      some (p.pieces.take at_ ++ List.replicate (8 - count) 0 ++ p.pieces.drop at_)
    else none
  | none => if count = 8 then some p.pieces else none

def readIpv6 (cs : List Char) : Except UrlError Host :=
  let start : Option (Pieces × List Char) := match cs with
    | ':' :: ':' :: rest => some (⟨[], some 0⟩, rest)
    | ':' :: _ | [] | [_] => none
    | cs => some (⟨[], none⟩, cs)
  match start.bind fun (p, rest) => (readPieces p rest 20).bind Pieces.fill with
  | some pieces => .ok (.ipv6 pieces)
  | none => .error .invalidIpv6

/-- How many zeros a list starts with. -/
def leadingZeros (pieces : List Nat) : Nat := (pieces.takeWhile (· = 0)).length

/-- Where the longest run of at least two zeros starts and how long it is, the first of several. -/
def longestRun (pieces : List Nat) : Option (Nat × Nat) :=
  (List.range 8).foldl (fun best i =>
    let length := leadingZeros (pieces.drop i)
    let beaten := (best.map (·.2)).getD 1
    if beaten < length then some (i, length) else best) none

def renderPieces (pieces : List Nat) : List Char := [':'].intercalate (pieces.map Hex.ofNat)

def renderIpv6 (pieces : List Nat) : List Char :=
  match longestRun pieces with
  | some (start, length) =>
    renderPieces (pieces.take start) ++ ':' :: ':' :: renderPieces (pieces.drop (start + length))
  | none => renderPieces pieces

def render : Host → List Char
  | domain text => text
  | ipv4 address => renderIpv4 address
  | ipv6 pieces => '[' :: renderIpv6 pieces ++ [']']

def readBracketed (inner : List Char) : Except UrlError Host :=
  if inner.getLast? = some ']' then readIpv6 inner.dropLast else .error .invalidIpv6

def read (cs : List Char) : Except UrlError Host :=
  match cs with
  | '[' :: inner => readBracketed inner
  | cs =>
    match (Utf8.decode? (decode cs)).bind fun s => Domain.normalize s.toList with
    | none => .error .invalidDomain
    | some [] => .error .emptyHost
    | some name => if endsInNumber name then readIpv4 name else .ok (.domain name)

/-- Characters no host holds, whatever the scheme. -/
def isForbidden (c : Char) : Bool := c == '\x00' || "\t\n\r #/:<>?@[\\]^|".toList.contains c

/-- Reads the host of a URL of a scheme of its own. -/
def readOpaque (cs : List Char) : Except UrlError Host :=
  match cs with
  | '[' :: inner => readBracketed inner
  | cs =>
    if cs.any isForbidden then .error .invalidDomainCharacter
    else .ok (.domain (encode isControl cs))

end Host

end Uplink.Url
