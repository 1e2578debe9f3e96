import Uplink.Text.Blank
import Uplink.Text.Decimal
import Uplink.Time.Calendar
import Uplink.Time.Duration

namespace Uplink.Time

open Uplink.Text (trimStart)

/-- A point in time in UTC: days since 1970, seconds of the day, and nanoseconds, which reach two
seconds during a leap second. -/
structure Timestamp where
  day : Int
  second : Nat
  nano : Nat
  deriving DecidableEq, Repr

namespace Timestamp

/-- The places after the seconds: none, three, six or nine. -/
def renderFraction (nano : Nat) : List Char :=
  if nano = 0 then []
  else if nano % 1000000 = 0 then '.' :: Text.Decimal.padded 3 (nano / 1000000)
  else if nano % 1000 = 0 then '.' :: Text.Decimal.padded 6 (nano / 1000)
  else '.' :: Text.Decimal.padded 9 nano

/-- A year of four digits, or with a sign when it has more or is negative. -/
def renderYear (year : Int) : List Char :=
  if 0 ≤ year ∧ year ≤ 9999 then Text.Decimal.padded 4 year.toNat
  else (if year < 0 then '-' else '+') :: Text.Decimal.padded 4 year.natAbs

def render (t : Timestamp) : String :=
  let date := Date.ofDays t.day
  let leap := Duration.nanosPerSecond ≤ t.nano
  let second := t.second % 60 + (if leap then 1 else 0)
  let nano := if leap then t.nano - Duration.nanosPerSecond else t.nano
  String.ofList (renderYear date.year ++ '-' :: Text.Decimal.padded 2 date.month
    ++ '-' :: Text.Decimal.padded 2 date.day
    ++ 'T' :: Text.Decimal.padded 2 (t.second / 3600)
    ++ ':' :: Text.Decimal.padded 2 (t.second / 60 % 60)
    ++ ':' :: Text.Decimal.padded 2 second ++ renderFraction nano ++ ['Z'])

inductive Fault where
  | tooShort
  | invalid
  | outOfRange
  | impossible
  | trailing
  deriving DecidableEq, Repr

def Fault.message : Fault → String
  | .tooShort => "premature end of input"
  | .invalid => "input contains invalid characters"
  | .outOfRange => "input is out of range"
  | .impossible => "no possible date and time matching input"
  | .trailing => "trailing input"

def readNumber (most : Nat) (cs : List Char) : Except Fault (Nat × List Char) :=
  match cs with
  | [] => .error .tooShort
  | cs =>
    let digits := (cs.take most).takeWhile Char.isDigit
    if digits.isEmpty then .error .invalid
    else .ok (Text.Decimal.value digits, cs.drop digits.length)

/-- A number of at most two digits behind blanks, within bounds. -/
def readPart (low high : Nat) (cs : List Char) : Except Fault (Nat × List Char) := do
  let (n, rest) ← readNumber 2 (trimStart cs)
  if low ≤ n ∧ n ≤ high then .ok (n, rest) else .error .outOfRange

/-- A sign of its own behind blanks. -/
def readMark (mark : Char) (cs : List Char) : Except Fault (List Char) :=
  match trimStart cs with
  | [] => .error .tooShort
  | c :: rest => if c = mark then .ok rest else .error .invalid

/-- A year: up to four digits, any number of them behind a sign. -/
def readYear (cs : List Char) : Except Fault (Int × List Char) := do
  let cs := trimStart cs
  let (year, rest) ← (match cs with
    | '-' :: digits => do
      let (n, rest) ← readNumber digits.length digits
      pure (-(n : Int), rest)
    | '+' :: digits => do
      let (n, rest) ← readNumber digits.length digits
      pure ((n : Int), rest)
    | cs => do
      let (n, rest) ← readNumber 4 cs
      pure ((n : Int), rest) : Except Fault (Int × List Char))
  if -2147483648 ≤ year ∧ year ≤ 2147483647 then .ok (year, rest) else .error .outOfRange

/-- Nanoseconds behind a point; places beyond the ninth are dropped. -/
def readFraction (cs : List Char) : Except Fault (Nat × List Char) :=
  match cs with
  | '.' :: cs => do
    let (n, rest) ← readNumber 9 cs
    let places := cs.length - rest.length
    .ok (n * Nat.pow 10 (9 - places), rest.dropWhile Char.isDigit)
  | cs => .ok (0, cs)

/-- Two digits that have to be there, the first of them below `tens`. -/
def readPair (tens : Nat) (cs : List Char) : Except Fault (Nat × List Char) :=
  match cs with
  | [] => .error .tooShort
  | [c] => .error (if c.utf8Size < 2 then .tooShort else .invalid)
  | c :: d :: rest =>
    match Text.Decimal.digitValue c, Text.Decimal.digitValue d with
    | some t, some u => if t < tens then .ok (10 * t + u, rest) else .error .outOfRange
    | _, _ => .error .invalid

def readOffset (cs : List Char) : Except Fault (Int × List Char) :=
  let signed (negative : Bool) (cs : List Char) : Except Fault (Int × List Char) := do
    let (hours, rest) ← readPair 10 cs
    let (minutes, rest) ← readPair 6 (rest.dropWhile fun c => c = ':' || Text.isBlank c)
    let seconds : Int := 3600 * hours + 60 * minutes
    .ok (if negative then -seconds else seconds, rest)
  match cs with
  | [] => .error .tooShort
  | 'Z' :: rest | 'z' :: rest => .ok (0, rest)
  | '+' :: rest => signed false rest
  | '-' :: rest | '\u2212' :: rest => signed true rest
  | _ :: _ => .error .invalid

/-- The letters `UTC` of either case, or an offset. -/
def readZone (cs : List Char) : Except Fault (Int × List Char) :=
  if (cs.take 3).map Char.toUpper = ['U', 'T', 'C'] then .ok (0, cs.drop 3) else readOffset cs

/-- The letter or blank between date and time. -/
def readSeparator : List Char → Except Fault (List Char)
  | [] => .error .tooShort
  | c :: rest => if c = 'T' ∨ c = 't' ∨ c = ' ' then .ok rest else .error .invalid

/-- Moves a local time to UTC. A leap second stays one. -/
def ofLocal (date : Date) (second nano : Nat) (offset : Int) : Except Fault Timestamp := do
  unless date.isValid ∧ Date.first.year ≤ date.year ∧ date.year ≤ Date.last.year do
    throw .outOfRange
  unless offset.natAbs < 86400 do throw .outOfRange
  let total : Int := second - offset
  let day := date.toDays + total / 86400
  if Date.first.toDays ≤ day ∧ day ≤ Date.last.toDays then
    .ok ⟨day, (total % 86400).toNat, nano⟩
  else .error .impossible

def read (cs : List Char) : Except Fault Timestamp := do
  let (year, cs) ← readYear cs
  let cs ← readMark '-' cs
  let (month, cs) ← readPart 1 12 cs
  let cs ← readMark '-' cs
  let (day, cs) ← readPart 1 31 cs
  let cs ← readSeparator cs
  let (hour, cs) ← readPart 0 23 cs
  let cs ← readMark ':' cs
  let (minute, cs) ← readPart 0 59 cs
  let cs ← readMark ':' cs
  let (second, cs) ← readPart 0 60 cs
  let (nano, cs) ← readFraction cs
  let (offset, cs) ← readZone (trimStart cs)
  unless trimStart cs = [] do throw .trailing
  let leap := second = 60
  ofLocal ⟨year, month, day⟩ (3600 * hour + 60 * minute + (if leap then 59 else second))
    (if leap then nano + Duration.nanosPerSecond else nano) offset

def parse (text : String) : Except Fault Timestamp := read text.toList

end Timestamp

end Uplink.Time
