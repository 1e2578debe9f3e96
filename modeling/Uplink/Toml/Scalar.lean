import Uplink.Number.Plain
import Uplink.Text.Hex
import Uplink.Toml.Fault
import Uplink.Toml.Value

namespace Uplink.Toml

def isTomlBlank (c : Char) : Bool := c == ' ' || c == '\t'

/-- The characters of comments and literal texts: all but controls. -/
def isShown (c : Char) : Bool := c == '\t' || (0x20 ≤ c.toNat && c.toNat != 0x7F)

/-- A line end at the start of a text, and what follows it. -/
def lineEnd? : List Char → Option (List Char)
  | '\n' :: rest => some rest
  | '\r' :: '\n' :: rest => some rest
  | _ => none

/-- What the faults of an escape expect. -/
def escapeLetters : List String :=
  ["b", "f", "n", "r", "t", "u", "U", "\\", "\""].map fun s => "`" ++ s ++ "`"

/-- A character by its number in hexadecimal digits. -/
def readUnit (digits : Nat) (label : String) (cs : List Char) : Except Fault (Char × List Char) :=
  let seen := (cs.take digits).takeWhile Text.Hex.isDigit
  let n := seen.foldl (fun n c => 16 * n + (Text.Hex.digitValue c).getD 0) 0
  if seen.length < digits then failAt (cs.drop seen.length) (some label) []
  else if 0x10FFFF < n ∨ (0xD800 ≤ n ∧ n ≤ 0xDFFF) then
    .error ⟨cs.length, some label, [], some "value is out of range"⟩
  else .ok (Char.ofNat n, cs.drop digits)

/-- The character of an escape, behind the backslash. -/
def readEscape : List Char → Except Fault (Char × List Char)
  | 'b' :: rest => .ok ('\x08', rest)
  | 'f' :: rest => .ok ('\x0c', rest)
  | 'n' :: rest => .ok ('\n', rest)
  | 'r' :: rest => .ok ('\r', rest)
  | 't' :: rest => .ok ('\t', rest)
  | '\\' :: rest => .ok ('\\', rest)
  | '"' :: rest => .ok ('"', rest)
  | 'u' :: rest => readUnit 4 "unicode 4-digit hex code" rest
  | 'U' :: rest => readUnit 8 "unicode 8-digit hex code" rest
  | cs => failAt (cs.drop 1) (some "escape sequence") escapeLetters

/-- A text on one line between double quotes, behind the first one. `fuel` bounds its length. -/
def readBasic (done : List Char) : (fuel : Nat) → List Char → Except Fault (String × List Char)
  | 0, cs => failAt cs (some "basic string") []
  | fuel + 1, cs =>
    match cs with
    | '"' :: rest => .ok (String.ofList done.reverse, rest)
    | '\\' :: rest => do
      let (c, rest) ← readEscape rest
      readBasic (c :: done) fuel rest
    | c :: rest =>
      if isShown c then readBasic (c :: done) fuel rest else failAt cs (some "basic string") []
    | [] => failAt cs (some "basic string") []

/-- A text on one line between single quotes, behind the first one. -/
def readLiteral (cs : List Char) : Except Fault (String × List Char) :=
  let chars := cs.takeWhile fun c => isShown c && c != '\''
  match cs.drop chars.length with
  | '\'' :: rest => .ok (String.ofList chars, rest)
  | rest => failAt rest (some "literal string") []

/-- Blanks and line ends behind a backslash at the end of a line; `none` where the line does not
end there. -/
def skipFold (cs : List Char) : Option (List Char) :=
  match lineEnd? (cs.dropWhile isTomlBlank) with
  | some rest => some (rest.dropWhile fun c => isTomlBlank c || c == '\n' || c == '\r')
  | none => none

/-- What ends a text of several lines: three quotes, and up to two in front of them that belong to
the text. -/
def closing (quote : Char) (cs : List Char) : Option (List Char × List Char) :=
  let quotes := cs.takeWhile (· == quote)
  let own := min 2 (quotes.length - 3)
  if quotes.length < 3 then none else some (quotes.take own, cs.drop (own + 3))

/-- A text of several lines between triple quotes, behind the first ones. -/
def readLong (quote : Char) (label : String) (done : List Char) :
    (fuel : Nat) → List Char → Except Fault (String × List Char)
  | 0, cs => failAt cs (some label) []
  | fuel + 1, cs =>
    match closing quote cs with
    | some (own, rest) => .ok (String.ofList (done.reverse ++ own), rest)
    | none =>
      match lineEnd? cs with
      | some rest => readLong quote label ('\n' :: done) fuel rest
      | none =>
        match cs with
        | [] => failAt cs (some label) []
        | c :: rest =>
          if c = '\\' ∧ quote = '"' then
            match skipFold rest with
            | some rest => readLong quote label done fuel rest
            | none => do
              let (c, rest) ← readEscape rest
              readLong quote label (c :: done) fuel rest
          else if isShown c then readLong quote label (c :: done) fuel rest
          else failAt cs (some label) []

/-- A text of several lines; a line end right behind the quotes does not count. -/
def readLongFrom (quote : Char) (label : String) (cs : List Char) :
    Except Fault (String × List Char) :=
  let inside := (lineEnd? cs).getD cs
  readLong quote label [] (inside.length + 1) inside

/-- A text, in front of its first quote. -/
def readText : List Char → Except Fault (String × List Char)
  | '"' :: '"' :: '"' :: rest => readLongFrom '"' "multiline basic string" rest
  | '\'' :: '\'' :: '\'' :: rest => readLongFrom '\'' "multiline literal string" rest
  | '"' :: rest => readBasic [] (rest.length + 1) rest
  | '\'' :: rest => readLiteral rest
  | cs => failAt cs (some "string") ["`\"`", "`'`"]

/-- Digits of a base with underscores between them; `none` where there is no digit. -/
def readDigits (isDigit : Char → Bool) (cs : List Char) :
    Except Fault (Option (List Char × List Char)) :=
  let raw := cs.takeWhile fun c => isDigit c || c == '_'
  let rec broken : List Char → Option Nat
    | [] => none
    | ['_'] => some 0
    | '_' :: '_' :: rest => some (rest.length + 1)
    | _ :: rest => broken rest
  match raw with
  | [] => .ok none
  | '_' :: _ => .ok none
  | raw =>
    match broken raw with
    | some left => failAt (cs.drop (raw.length - left)) (some "integer") ["digit"]
    | none => .ok (some (raw.filter (· ≠ '_'), cs.drop raw.length))

/-- A whole number of a base behind its mark. -/
def readBased (base : Nat) (isDigit : Char → Bool) (label : String) (cs : List Char) :
    Except Fault (Value × List Char) := do
  match ← readDigits isDigit cs with
  | none => failAt cs (some label) []
  | some (digits, rest) =>
    let n := digits.foldl (fun n c => base * n + (Text.Hex.digitValue c).getD 0) 0
    if Number.intMax < n then refuse cs "number too large to fit in target type"
    else .ok (.int n, rest)

/-- Digits that may begin with zeros, behind the point or the exponent's mark of a number. -/
def readTail (cs : List Char) : Except Fault (List Char × List Char) := do
  match ← readDigits Char.isDigit cs with
  | some found => .ok found
  | none => failAt cs (some "floating-point number") ["digit"]

/-- The digits in front of a point: no zero in front of others. -/
def readWhole (cs : List Char) : Except Fault (List Char × List Char) := do
  match cs with
  | '0' :: rest => .ok (['0'], rest)
  | cs =>
    match ← readDigits Char.isDigit cs with
    | some found => .ok found
    | none => failAt cs (some "integer") []

/-- The exponent of a number, if it has one, as it is written without underscores. -/
def readMark (cs : List Char) : Except Fault (List Char × List Char) :=
  match cs with
  | c :: rest =>
    if c = 'e' ∨ c = 'E' then do
      let (sign, rest) := match rest with
        | '+' :: more => (['+'], more)
        | '-' :: more => (['-'], more)
        | more => ([], more)
      let (digits, rest) ← readTail rest
      .ok ('e' :: sign ++ digits, rest)
    else .ok ([], cs)
  | [] => .ok ([], cs)

/-- The part of a number behind its point, if it has one. -/
def readFraction : List Char → Except Fault (List Char × List Char)
  | '.' :: rest => do
    let (digits, rest) ← readTail rest
    .ok ('.' :: digits, rest)
  | cs => .ok ([], cs)

/-- The number that is written, unless it is too large. -/
def floatOf (start : List Char) (written : List Char) : Except Fault Value :=
  match Number.read written with
  | some x =>
    if Number.kindOf x = .finite then .ok (.float x)
    else failAt start (some "floating-point number") []
  | none => failAt start (some "floating-point number") []

/-- A number in base ten with its sign. -/
def readDecimal (start : List Char) : Except Fault (Value × List Char) := do
  let (sign, cs) := match start with
    | '-' :: rest => (['-'], rest)
    | '+' :: rest => ([], rest)
    | rest => ([], rest)
  match cs with
  | 'i' :: 'n' :: 'f' :: rest => .ok (.float (if sign.isEmpty then Number.infinity
      else -Number.infinity), rest)
  | 'n' :: 'a' :: 'n' :: rest => .ok (.float Number.notANumber, rest)
  | cs =>
    let (whole, rest) ← readWhole cs
    let (fraction, rest) ← readFraction rest
    let (mark, rest) ← readMark rest
    if fraction.isEmpty ∧ mark.isEmpty then
      match Text.Decimal.readInt Number.intMax (sign ++ whole) with
      | .ok n => .ok (.int n, rest)
      | .error e => refuse start e.message
    else
      let v ← floatOf start (sign ++ whole ++ fraction ++ mark)
      .ok (v, rest)

/-- A number of two digits within bounds. -/
def twoDigits (low high : Nat) : List Char → Option (Nat × List Char)
  | c :: d :: rest =>
    if c.isDigit ∧ d.isDigit then
      let n := Text.Decimal.value [c, d]
      if low ≤ n ∧ n ≤ high then some (n, rest) else none
    else none
  | _ => none

/-- A date: the characters of it, and what follows. -/
def date? (cs : List Char) : Option (List Char × List Char) := do
  let year := cs.take 4
  if year.length = 4 ∧ year.all Char.isDigit then
    let '-' :: rest := cs.drop 4 | none
    let (month, rest) ← twoDigits 1 12 rest
    let '-' :: rest := rest | none
    let (day, rest) ← twoDigits 1 31 rest
    let y := Text.Decimal.value year
    let leap := (y % 4 = 0 ∧ y % 100 ≠ 0) ∨ y % 400 = 0
    let days := if month = 2 then (if leap then 29 else 28)
      else if month = 4 ∨ month = 6 ∨ month = 9 ∨ month = 11 then 30 else 31
    if day ≤ days then some (cs.take 10, rest) else none
  else none

/-- A time of the day; places beyond the ninth and zeros at the end of the fraction are left out. -/
def time? (cs : List Char) : Option (List Char × List Char) := do
  let (_, rest) ← twoDigits 0 23 cs
  let ':' :: rest := rest | none
  let (_, rest) ← twoDigits 0 59 rest
  let ':' :: rest := rest | none
  let (_, rest) ← twoDigits 0 60 rest
  match rest with
  | '.' :: behind =>
    let digits := behind.takeWhile Char.isDigit
    if digits.isEmpty then some (cs.take 8, rest)
    else
      let shown := ((digits.take 9).reverse.dropWhile (· = '0')).reverse
      some (cs.take 8 ++ (if shown.isEmpty then [] else '.' :: shown), behind.drop digits.length)
  | rest => some (cs.take 8, rest)

/-- An offset from UTC, which may be missing. -/
def offset (cs : List Char) : List Char × List Char :=
  let signed (sign : Char) (rest : List Char) : Option (List Char × List Char) := do
    let (_, behind) ← twoDigits 0 23 rest
    let ':' :: behind := behind | none
    let (_, behind) ← twoDigits 0 59 behind
    some (sign :: rest.take 5, behind)
  match cs with
  | 'Z' :: rest => (['Z'], rest)
  | 'z' :: rest => (['Z'], rest)
  | '+' :: rest => (signed '+' rest).getD ([], cs)
  | '-' :: rest => (signed '-' rest).getD ([], cs)
  | cs => ([], cs)

def moment? (cs : List Char) : Option (Value × List Char) :=
  let written (cs : List Char) : Value := .moment (String.ofList cs)
  match date? cs with
  | some (date, rest) =>
    let timed : Option (List Char × List Char) := match rest with
      | c :: behind => if c = 'T' ∨ c = 't' ∨ c = ' ' then time? behind else none
      | [] => none
    match timed with
    | some (time, rest) =>
      let (zone, rest) := offset rest
      some (written (date ++ 'T' :: time ++ zone), rest)
    | none => some (written date, rest)
  | none => (time? cs).map fun (time, rest) => (written time, rest)

def readNumber (cs : List Char) : Except Fault (Value × List Char) :=
  match moment? cs with
  | some found => .ok found
  | none =>
    match cs with
    | '0' :: 'x' :: rest => readBased 16 Text.Hex.isDigit "hexadecimal integer" rest
    | '0' :: 'o' :: rest => readBased 8 (fun c => '0' ≤ c && c ≤ '7') "octal integer" rest
    | '0' :: 'b' :: rest => readBased 2 (fun c => c == '0' || c == '1') "binary integer" rest
    | cs => readDecimal cs

end Uplink.Toml
