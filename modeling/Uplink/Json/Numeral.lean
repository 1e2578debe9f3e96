import Uplink.Json.Fault
import Uplink.Json.Value
import Uplink.Number.Word
import Uplink.Text.Decimal

namespace Uplink.Json

structure Numeral where
  negative : Bool
  whole : List Nat
  fraction : List Nat
  /-- Whether the exponent is negative, and its digits. -/
  exponent : Option (Bool × List Nat)

namespace Numeral

def digitsOf (cs : List Char) : List Nat := cs.filterMap Text.Decimal.digitValue

/-- Splits a text that follows the grammar of numbers. -/
def ofChars (cs : List Char) : Numeral :=
  let (negative, cs) := match cs with
    | '-' :: rest => (true, rest)
    | cs => (false, cs)
  let whole := cs.takeWhile Char.isDigit
  let (fraction, cs) := match cs.dropWhile Char.isDigit with
    | '.' :: rest => (rest.takeWhile Char.isDigit, rest.dropWhile Char.isDigit)
    | cs => ([], cs)
  let exponent := match cs with
    | [] => none
    | _ :: '-' :: rest => some (true, digitsOf rest)
    | _ :: rest => some (false, digitsOf rest)
  ⟨negative, digitsOf whole, digitsOf fraction, exponent⟩

/-- The significand of the whole digits, and how many of them it leaves out: all from the first
one on that would pass the limit. -/
def takeWhole (s : Nat) : List Nat → Nat × Nat
  | [] => (s, 0)
  | d :: ds => if 10 * s + d ≤ Number.wordMax then takeWhole (10 * s + d) ds else (s, ds.length + 1)

/-- Goes on with the digits after the point, and counts those taken in. -/
def takeFraction (s taken : Nat) : List Nat → Nat × Nat
  | [] => (s, taken)
  | d :: ds =>
    if 10 * s + d ≤ Number.wordMax then takeFraction (10 * s + d) (taken + 1) ds else (s, taken)

def exponentMax : Nat := 2147483647

/-- The exponent's digits as a number, `none` when it is too large. -/
def takeExponent (e : Nat) : List Nat → Option Nat
  | [] => some e
  | d :: ds => if 10 * e + d ≤ exponentMax then takeExponent (10 * e + d) ds else none

def tenTo (k : Nat) : Float := Float.ofScientific 1 false k

/-- Divides by a power of ten, in steps the doubles can hold. -/
def divideByTenTo (x : Float) (k : Nat) : Float :=
  if k ≤ 308 then x / tenTo k
  else if x == 0 then x
  else divideByTenTo (x / tenTo 308) (k - 308)
termination_by k
decreasing_by omega

/-- `s * 10 ^ e` as a double, unless that is infinite. -/
def scale (s : Nat) (e : Int) : Except Malformed Float :=
  let x := (UInt64.ofNat s).toFloat
  if e < 0 then .ok (divideByTenTo x e.natAbs)
  else if e.natAbs ≤ 308 then
    let y := x * tenTo e.natAbs
    if y.isInf then .error .numberTooLarge else .ok y
  else if s = 0 then .ok x
  else .error .numberTooLarge

/-- The value of a number. Whole numbers of 64 bits, signed or not, are exact; `-0` and all others
are doubles. -/
def value (n : Numeral) : Except Malformed Number :=
  let signed (x : Float) : Number := .float (if n.negative then -x else x)
  let (s, dropped) := takeWhole 0 n.whole
  match n.fraction, n.exponent with
  | [], none =>
    if dropped = 0 then
      if !n.negative then .ok (.int s)
      else if 0 < s ∧ s ≤ Number.intMax + 1 then .ok (.int (-(s : Int)))
      else .ok (signed (UInt64.ofNat s).toFloat)
    else (scale s dropped).map signed
  | fraction, exponent =>
    let (s, taken) := takeFraction s 0 fraction
    let start : Int := (dropped : Int) - taken
    match exponent with
    | none => (scale s start).map signed
    | some (down, ds) =>
      match takeExponent 0 ds with
      | some e => (scale s (if down then start - e else start + e)).map signed
      | none => if s = 0 ∨ down then .ok (signed 0) else .error .numberTooLarge

end Numeral

end Uplink.Json
