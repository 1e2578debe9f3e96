import Uplink.Number.Shortest
import Uplink.Number.Word

namespace Uplink.Number

inductive Kind where
  | finite
  | infinite
  | notNumber
  deriving DecidableEq, Repr

def kindOf (x : Float) : Kind :=
  if exponentOf x.toBits < exponentSize - 1 then .finite
  else if fractionOf x.toBits = 0 then .infinite
  else .notNumber

def infinity : Float := Float.ofBits 0x7FF0000000000000

def notANumber : Float := Float.ofBits 0x7FF8000000000000

/-- The digits of a decimal in plain notation, with a point only in front of a fraction. -/
def Decimal.plain (d : Decimal) : List Char :=
  let digits := Text.Decimal.digits d.digits
  if 0 ≤ d.exponent then
    if d.digits = 0 then ['0'] else digits ++ List.replicate d.exponent.toNat '0'
  else
    let places := (-d.exponent).toNat
    let padded := List.replicate (places + 1 - digits.length) '0' ++ digits
    padded.take (padded.length - places) ++ '.' :: padded.drop (padded.length - places)

def plain (x : Float) : List Char :=
  let signed (cs : List Char) : List Char := if signBit x then '-' :: cs else cs
  match kindOf x with
  | .finite => signed (shortest x).plain
  | .infinite => signed ['i', 'n', 'f']
  | .notNumber => ['N', 'a', 'N']

/-- The double nearest to `digits * 10 ^ exponent`. Beyond the range of doubles that is infinity or
zero. -/
def nearest (d : Decimal) : Float :=
  let size : Int := (Text.Decimal.digits d.digits).length + d.exponent
  if d.digits = 0 ∨ size < -400 then 0
  else if 400 < size then infinity
  else Float.ofScientific d.digits (d.exponent < 0) d.exponent.natAbs

/-- The decimal of digits before and behind a point and an exponent. -/
def Decimal.ofParts (whole fraction : List Char) (exponent : Int) : Decimal :=
  ⟨Text.Decimal.value (whole ++ fraction), exponent - fraction.length⟩

/-- An exponent behind its mark: a sign and at least one digit. -/
def readExponent (cs : List Char) : Option Int :=
  let (negative, digits) := match cs with
    | '-' :: rest => (true, rest)
    | '+' :: rest => (false, rest)
    | cs => (false, cs)
  if digits.isEmpty ∨ !digits.all Char.isDigit then none
  else
    -- an exponent of many digits is as good as a large one
    let size := (digits.dropWhile (· = '0')).length
    let n : Int := if 12 < size then 1000000000000 else Text.Decimal.value digits
    some (if negative then -n else n)

/-- A number without its sign: digits with a point anywhere among them or none, and an exponent. -/
def readMagnitude (cs : List Char) : Option Float :=
  let whole := cs.takeWhile Char.isDigit
  let (fraction, rest) := match cs.dropWhile Char.isDigit with
    | '.' :: behind => (behind.takeWhile Char.isDigit, behind.dropWhile Char.isDigit)
    | rest => ([], rest)
  if whole.isEmpty ∧ fraction.isEmpty then none
  else
    match rest with
    | [] => some (nearest (.ofParts whole fraction 0))
    | mark :: exponent =>
      if mark = 'e' ∨ mark = 'E' then
        (readExponent exponent).map fun e => nearest (.ofParts whole fraction e)
      else none

/-- Reads a double: a sign, and a number or a word for infinity or for what is no number. -/
def read (cs : List Char) : Option Float :=
  let (negative, rest) := match cs with
    | '-' :: rest => (true, rest)
    | '+' :: rest => (false, rest)
    | cs => (false, cs)
  let word := String.ofList (rest.map Char.toLower)
  let magnitude :=
    if word = "inf" ∨ word = "infinity" then some infinity
    else if word = "nan" then some notANumber
    else readMagnitude rest
  magnitude.map fun x => if negative then -x else x

/-- The whole number next to a double, a half away from zero, kept within the unsigned numbers of
64 bits. What is no number is zero. -/
def toWord (x : Float) : Nat :=
  match kindOf x with
  | .notNumber => 0
  | .infinite => if signBit x then 0 else wordMax
  | .finite =>
    if signBit x then 0
    else
      let b := Binary.ofBits x.toBits
      let (n, d) := power 2 b.exponent
      min wordMax ((2 * b.mantissa * n + d) / (2 * d))

end Uplink.Number
