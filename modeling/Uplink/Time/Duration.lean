import Uplink.Text.Decimal

namespace Uplink.Time

structure Duration where
  nanos : Nat
  deriving DecidableEq, Repr

namespace Duration

def nanosPerSecond : Nat := 1000000000

def ofMillis (n : Nat) : Duration := ⟨n * 1000000⟩

def ofSeconds (n : Nat) : Duration := ⟨n * nanosPerSecond⟩

def seconds (d : Duration) : Nat := d.nanos / nanosPerSecond

instance : LE Duration := ⟨fun a b => a.nanos ≤ b.nanos⟩

instance (a b : Duration) : Decidable (a ≤ b) := inferInstanceAs (Decidable (a.nanos ≤ b.nanos))

instance : Add Duration := ⟨fun a b => ⟨a.nanos + b.nanos⟩⟩

/-- A number of units of `10 ^ places` nanoseconds. -/
def inUnit (nanos places : Nat) : List Char :=
  let unit := Nat.pow 10 places
  let fraction := Text.Decimal.padded places (nanos % unit)
  let shown := (fraction.reverse.dropWhile (· = '0')).reverse
  Text.Decimal.digits (nanos / unit)
    ++ (if nanos % unit = 0 then [] else '.' :: shown)

def render (d : Duration) : String :=
  String.ofList <|
    if nanosPerSecond ≤ d.nanos then inUnit d.nanos 9 ++ ['s']
    else if 1000000 ≤ d.nanos then inUnit d.nanos 6 ++ ['m', 's']
    else if 1000 ≤ d.nanos then inUnit d.nanos 3 ++ ['µ', 's']
    else inUnit d.nanos 0 ++ ['n', 's']

end Duration

end Uplink.Time
