namespace Uplink.Text.Decimal

def digitChar (d : Nat) : Char := Char.ofNat ('0'.toNat + d)

def digitValue (c : Char) : Option Nat :=
  if c.isDigit then some (c.toNat - '0'.toNat) else none

/-- The digits of a number, most significant first and without leading zeros. -/
def digits (n : Nat) : List Char :=
  if n < 10 then [digitChar n] else digits (n / 10) ++ [digitChar (n % 10)]
termination_by n
decreasing_by omega

/-- A whole number with a leading minus when it is negative. -/
def ofInt : Int → List Char
  | .ofNat n => digits n
  | .negSucc n => '-' :: digits (n + 1)

/-- The number a list of digits stands for; characters that are no digits count as zero. -/
def value (cs : List Char) : Nat :=
  cs.foldl (fun acc c => 10 * acc + (digitValue c).getD 0) 0

def padded (width : Nat) (n : Nat) : List Char :=
  List.replicate (width - (digits n).length) '0' ++ digits n

/-- Why a text is not a number of the wanted range. -/
inductive Fault where
  | empty
  | notDigit
  | tooLarge
  | tooSmall
  deriving DecidableEq, Repr

def Fault.message : Fault → String
  | .empty => "cannot parse integer from empty string"
  | .notDigit => "invalid digit found in string"
  | .tooLarge => "number too large to fit in target type"
  | .tooSmall => "number too small to fit in target type"

/-- Appends digits to a magnitude and stops at the first one that passes the limit. -/
def readMagnitude (limit : Nat) (beyond : Fault) (acc : Nat) : List Char → Except Fault Nat
  | [] => .ok acc
  | c :: rest =>
    match digitValue c with
    | none => .error .notDigit
    | some d =>
      if 10 * acc + d ≤ limit then readMagnitude limit beyond (10 * acc + d) rest
      else .error beyond

/-- Reads one or more digits as a number up to `limit`. -/
def readDigits (limit : Nat) (beyond : Fault) : List Char → Except Fault Nat
  | [] => .error .notDigit
  | c :: rest => readMagnitude limit beyond 0 (c :: rest)

/-- Reads an unsigned number up to `limit`; a plus may stand in front. -/
def readNat (limit : Nat) : List Char → Except Fault Nat
  | [] => .error .empty
  | '+' :: rest => readDigits limit .tooLarge rest
  | cs => readDigits limit .tooLarge cs

/-- Reads a signed number from `-(high + 1)` to `high`, the range of a two's complement word. -/
def readInt (high : Nat) : List Char → Except Fault Int
  | [] => .error .empty
  | '-' :: rest => (readDigits (high + 1) .tooSmall rest).map (fun n => -(n : Int))
  | '+' :: rest => (readDigits high .tooLarge rest).map (fun n => (n : Int))
  | cs => (readDigits high .tooLarge cs).map (fun n => (n : Int))

end Uplink.Text.Decimal
