import Uplink.Text.Decimal

namespace Uplink.Number

/-- A finite double without its sign: `mantissa * 2 ^ exponent`. The interval of reals that
round to it reaches half a unit up and, at the lower end of a binade, a quarter of one down. -/
structure Binary where
  mantissa : Nat
  exponent : Int
  /-- The gap below is half the gap above. -/
  narrow : Bool

/-- How many fractions there are: they have 52 bits. -/
def fractionSize : Nat := 4503599627370496

/-- How many exponents there are: they have 11 bits. -/
def exponentSize : Nat := 2048

def fractionOf (bits : UInt64) : Nat := bits.toNat % fractionSize

def exponentOf (bits : UInt64) : Nat := bits.toNat / fractionSize % exponentSize

def Binary.ofBits (bits : UInt64) : Binary :=
  let fraction := fractionOf bits
  let biased := exponentOf bits
  if biased = 0 then ⟨fraction, -1074, false⟩
  else ⟨fraction + fractionSize, (biased : Int) - 1075, fraction = 0 ∧ 1 < biased⟩

/-- A decimal `digits * 10 ^ exponent`. -/
structure Decimal where
  digits : Nat
  exponent : Int
  deriving DecidableEq, Repr

/-- A ratio of a power of the base by its exponent, as numerator and denominator. -/
def power (base : Nat) (e : Int) : Nat × Nat := (base.pow e.toNat, base.pow (-e).toNat)

namespace Binary

/-- The double in quarters of its unit, and the two ends of its interval. -/
def quarters (b : Binary) : Nat × Nat × Nat :=
  (4 * b.mantissa, 4 * b.mantissa - (if b.narrow then 1 else 2), 4 * b.mantissa + 2)

/-- Compares `c * 10 ^ s` with `v` quarters of the unit of `b`. -/
def compareWith (b : Binary) (c : Nat) (s : Int) (v : Nat) : Ordering :=
  let (tn, td) := power 10 s
  let (un, ud) := power 2 (b.exponent - 2)
  compare (c * tn * ud) (v * un * td)

/-- Whether the decimal rounds to the double: it lies strictly inside the interval, or on an end
when the mantissa is even. -/
def holds (b : Binary) (c : Nat) (s : Int) : Bool :=
  let (_, low, high) := b.quarters
  let lower := b.compareWith c s low
  let upper := b.compareWith c s high
  let even := b.mantissa % 2 = 0
  (lower == .gt || (lower == .eq && even)) && (upper == .lt || (upper == .eq && even))

/-- The largest `c` with `c * 10 ^ s` not above the double. -/
def floorAt (b : Binary) (s : Int) : Nat :=
  let (tn, td) := power 10 s
  let (un, ud) := power 2 b.exponent
  (b.mantissa * un * td) / (tn * ud)

/-- Whether `c + 1` is nearer to the double than `c`, the even one of the two on a tie. -/
def upperNearer (b : Binary) (c : Nat) (s : Int) : Bool :=
  -- the midpoint of the two is `(2c + 1) * 10 ^ s / 2`
  let (tn, td) := power 10 s
  let (un, ud) := power 2 b.exponent
  match compare ((2 * c + 1) * tn * ud) (2 * b.mantissa * un * td) with
  | .lt => true
  | .gt => false
  | .eq => c % 2 = 1

/-- How many digits stand before the point, or how many zeros follow it as a negative number. -/
def magnitude (b : Binary) : Int :=
  ((Text.Decimal.digits (b.floorAt (-400))).length : Int) - 400

/-- The better of the two neighbours of the double on the grid of multiples of `10 ^ s`. -/
def onGrid (b : Binary) (s : Int) : Option Nat :=
  let c := b.floorAt s
  match b.holds c s && c != 0, b.holds (c + 1) s with
  | true, true => some (if b.upperNearer c s then c + 1 else c)
  | true, false => some c
  | false, true => some (c + 1)
  | false, false => none

/-- Tries ever finer grids, `tries` of them at most. -/
def search (b : Binary) (s : Int) : Nat → Decimal
  | 0 => ⟨b.floorAt s, s⟩
  | tries + 1 =>
    match b.onGrid s with
    | some c => ⟨c, s⟩
    | none => search b (s - 1) tries

end Binary

/-- A decimal without zeros at the end of its digits; `steps` bounds how many are taken off. -/
def Decimal.trimmed (d : Decimal) : Nat → Decimal
  | 0 => d
  | steps + 1 =>
    if d.digits ≠ 0 ∧ d.digits % 10 = 0 then Decimal.trimmed ⟨d.digits / 10, d.exponent + 1⟩ steps
    else d

/-- The shortest decimal that rounds to a finite double, its sign left aside. Seventeen digits
are always enough. -/
def shortest (x : Float) : Decimal :=
  let b := Binary.ofBits x.toBits
  if b.mantissa = 0 then ⟨0, 0⟩
  else (b.search (b.magnitude - 1) 17).trimmed 20

def signBit (x : Float) : Bool := x.toBits.toNat / fractionSize / exponentSize = 1

end Uplink.Number
