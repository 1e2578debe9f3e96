namespace Uplink.Url.Punycode

/-- Digits are the letters and then the ten digits. -/
def digitChar (d : Nat) : Char :=
  if d < 26 then Char.ofNat ('a'.toNat + d) else Char.ofNat ('0'.toNat + (d - 26))

def digitValue (c : Char) : Option Nat :=
  if 'a' ≤ c ∧ c ≤ 'z' then some (c.toNat - 'a'.toNat)
  else if 'A' ≤ c ∧ c ≤ 'Z' then some (c.toNat - 'A'.toNat)
  else if c.isDigit then some (c.toNat - '0'.toNat + 26)
  else none

/-- The value from which on a digit at weight `k` is not the last one. -/
def threshold (k bias : Nat) : Nat :=
  if k ≤ bias then 1 else if bias + 26 ≤ k then 26 else k - bias

/-- Scales a distance down to one whose bias is tabulated. -/
def adaptLoop (delta k : Nat) : Nat :=
  if 455 < delta then adaptLoop (delta / 35) (k + 36) else k + 36 * delta / (delta + 38)
termination_by delta
decreasing_by omega

def adapt (delta count : Nat) (isFirst : Bool) : Nat :=
  let delta := if isFirst then delta / 700 else delta / 2
  adaptLoop (delta + delta / count) 0

/-- The digits of a distance; `fuel` bounds their number. -/
def writeNumber (bias q k : Nat) : Nat → List Char
  | 0 => []
  | fuel + 1 =>
    let t := threshold k bias
    if q < t then [digitChar q]
    else digitChar (t + (q - t) % (36 - t)) :: writeNumber bias ((q - t) / (36 - t)) (k + 36) fuel

/-- A writer: what is written in reverse, the distance so far, the bias and the number of
characters that are done. -/
structure Writer where
  out : List Char
  delta : Nat
  bias : Nat
  done : Nat

/-- Passes over one character of the label while `m` is being written. -/
def Writer.pass (m basic : Nat) (w : Writer) (c : Nat) : Writer :=
  if c < m then { w with delta := w.delta + 1 }
  else if c = m then
    { out := (writeNumber w.bias w.delta 36 40).reverse ++ w.out
      delta := 0
      bias := adapt w.delta (w.done + 1) (w.done == basic)
      done := w.done + 1 }
  else w

/-- The characters beyond ASCII in ascending order, each once. -/
def extended (label : List Nat) : List Nat :=
  ((label.filter (128 ≤ ·)).mergeSort (· ≤ ·)).eraseDups

/-- The form of a label in ASCII, without the mark in front. -/
def encode (label : List Nat) : List Char :=
  let basic := label.filter (· < 128)
  let start : List Char := basic.map Char.ofNat ++ (if basic.isEmpty then [] else ['-'])
  let (w, _) := (extended label).foldl
    (fun ((w, n) : Writer × Nat) (m : Nat) =>
      let w := { w with delta := w.delta + (m - n) * (w.done + 1) }
      let w := label.foldl (Writer.pass m basic.length) w
      ({ w with delta := w.delta + 1 }, m + 1))
    (⟨start.reverse, 0, 72, basic.length⟩, 128)
  w.out.reverse

/-- Reads one distance; gives it and the digits behind it. -/
def readNumber (bias : Nat) (i weight k : Nat) : List Char → Option (Nat × List Char)
  | [] => none
  | c :: rest => do
    let d ← digitValue c
    let i := i + d * weight
    let t := threshold k bias
    if d < t then some (i, rest) else readNumber bias i (weight * (36 - t)) (k + 36) rest

/-- Puts characters into a label as the distances say; `fuel` bounds their number. -/
def readLoop (out : List Nat) (n i bias : Nat) (cs : List Char) : Nat → Option (List Nat)
  | 0 => none
  | fuel + 1 =>
    if cs.isEmpty then some out
    else do
      let (j, rest) ← readNumber bias i 1 36 cs
      let count := out.length + 1
      let n := n + j / count
      if n < 0x110000 ∧ ¬(0xD800 ≤ n ∧ n < 0xE000) then
        let place := j % count
        readLoop (out.take place ++ n :: out.drop place) n (place + 1)
          (adapt (j - i) count (i == 0)) rest fuel
      else none

/-- The characters of a label in its form in ASCII, without the mark in front. -/
def decode (cs : List Char) : Option (List Nat) :=
  let basic := ((cs.reverse.dropWhile (· ≠ '-')).drop 1).reverse
  let digits := (cs.reverse.takeWhile (· ≠ '-')).reverse
  if basic.all (·.toNat < 128) then
    readLoop (basic.map Char.toNat) 128 0 72 digits (digits.length + 1)
  else none

end Uplink.Url.Punycode
