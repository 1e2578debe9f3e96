import Uplink.Toml.Document
import Uplink.Toml.Scalar

namespace Uplink.Toml

def skipBlanks (cs : List Char) : List Char := cs.dropWhile isTomlBlank

def skipComment : List Char → List Char
  | '#' :: rest => rest.dropWhile isShown
  | cs => cs

/-- The rest of a line behind what was read: blanks, a comment, and its end. -/
def finishLine (cs : List Char) : Except Fault (List Char) :=
  let rest := skipComment (skipBlanks cs)
  match rest with
  | [] => .ok []
  | rest =>
    match lineEnd? rest with
    | some next => .ok next
    | none => failAt rest none ["newline", "`#`"]

def isBareChar (c : Char) : Bool := c.isAlphanum || c == '-' || c == '_'

/-- One part of a key with the blanks around it; `none` where there is none. -/
def readPart (cs : List Char) : Except Fault (Option (String × List Char)) :=
  match skipBlanks cs with
  | '"' :: rest => do
    let (name, rest) ← within "key" (readBasic [] (rest.length + 1) rest)
    .ok (some (name, skipBlanks rest))
  | '\'' :: rest => do
    let (name, rest) ← within "key" (readLiteral rest)
    .ok (some (name, skipBlanks rest))
  | cs =>
    let name := cs.takeWhile isBareChar
    if name.isEmpty then .ok none
    else .ok (some (String.ofList name, skipBlanks (cs.drop name.length)))

/-- The parts of a key behind its first one. A point with no part behind it is left. -/
def readParts : (fuel : Nat) → List Char → Except Fault (List String × List Char)
  | 0, cs => .ok ([], cs)
  | fuel + 1, cs =>
    match cs with
    | '.' :: rest => do
      match ← readPart rest with
      | none => .ok ([], cs)
      | some (name, rest) =>
        let (names, rest) ← readParts fuel rest
        .ok (name :: names, rest)
    | cs => .ok ([], cs)

/-- A key: the path in front of its last part, and that part. -/
def readKey (cs : List Char) : Except Fault ((List String × String) × List Char) := do
  match ← readPart cs with
  | none => failAt (skipBlanks cs) (some "key") []
  | some (name, rest) =>
    let (names, rest) ← readParts rest.length rest
    let parts := name :: names
    .ok ((parts.dropLast, parts.getLast?.getD name), rest)

def readEquals : List Char → Except Fault (List Char)
  | '=' :: rest => .ok rest
  | cs => failAt cs none ["`.`", "`=`"]

/-- Blanks, line ends and comments between the items of a list. -/
def skipLoose : (fuel : Nat) → List Char → List Char
  | 0, cs => cs
  | fuel + 1, cs =>
    match skipBlanks cs with
    | '\n' :: rest => skipLoose fuel rest
    | '\r' :: '\n' :: rest => skipLoose fuel rest
    | '#' :: rest =>
      match lineEnd? (rest.dropWhile isShown) with
      | some next => skipLoose fuel next
      | none => '#' :: rest
    | cs => cs

/-- How deep values may stand inside each other. -/
def depthMax : Nat := 80

mutual

/-- A value, with room for `room` levels inside it. -/
def readValue (room : Nat) : (fuel : Nat) → List Char → Except Fault (Value × List Char)
  | 0, cs => refuse cs "recursion limit exceeded"
  | fuel + 1, cs =>
    match cs with
    | '"' :: _ | '\'' :: _ => do
      let (s, rest) ← readText cs
      .ok (.text s, rest)
    | '[' :: rest =>
      if room = 0 then refuse cs "recursion limit exceeded"
      else readItems (room - 1) [] fuel rest
    | '\x7b' :: rest =>
      if room = 0 then refuse cs "recursion limit exceeded"
      else readInline (room - 1) [] true fuel rest
    | 't' :: 'r' :: 'u' :: 'e' :: rest => .ok (.bool true, rest)
    | 'f' :: 'a' :: 'l' :: 's' :: 'e' :: rest => .ok (.bool false, rest)
    | 'i' :: 'n' :: 'f' :: rest => .ok (.float Number.infinity, rest)
    | 'n' :: 'a' :: 'n' :: rest => .ok (.float Number.notANumber, rest)
    | c :: _ =>
      if c = '+' ∨ c = '-' ∨ c.isDigit then readNumber cs
      else if c = '_' then failAt cs (some "integer") ["leading digit"]
      else if c = '.' then failAt cs (some "floating-point number") ["leading digit"]
      else failAt cs (some "string") ["`\"`", "`'`"]
    | [] => failAt cs none []

/-- The items of a list that are left, and its end. -/
def readItems (room : Nat) (done : List Value) :
    (fuel : Nat) → List Char → Except Fault (Value × List Char)
  | 0, cs => refuse cs "recursion limit exceeded"
  | fuel + 1, cs =>
    let cs := skipLoose cs.length cs
    match cs with
    | ']' :: rest => .ok (.list done.reverse, rest)
    | [] => failAt cs (some "array") ["`]`"]
    | cs => do
      let (v, rest) ← readValue room fuel cs
      match skipLoose rest.length rest with
      | ',' :: rest => readItems room (v :: done) fuel rest
      | ']' :: rest => .ok (.list (v :: done).reverse, rest)
      | rest => failAt rest (some "array") ["`]`"]

/-- The members of a table on one line that are left, and its end. -/
def readInline (room : Nat) (done : Members) (first : Bool) :
    (fuel : Nat) → List Char → Except Fault (Value × List Char)
  | 0, cs => refuse cs "recursion limit exceeded"
  | fuel + 1, start =>
    match skipBlanks start with
    | '\x7d' :: rest =>
      if first then .ok (.table (Entry.membersToValue done), rest)
      else failAt (skipBlanks start) (some "inline table") ["`\x7d`"]
    | cs => do
      let ((path, name), rest) ← readKey cs
      let rest ← readEquals rest
      let (v, rest) ← readValue room fuel (skipBlanks rest)
      match assign [] path name v done with
      | .error e => refuse cs e.message
      | .ok members =>
        match skipBlanks rest with
        | ',' :: rest => readInline room members false fuel rest
        | '\x7d' :: rest => .ok (.table (Entry.membersToValue members), rest)
        | rest => failAt rest (some "inline table") ["`\x7d`"]

end

/-- A document so far: its tables, and the header that is open. -/
structure Progress where
  root : Members
  header : List String

/-- What a header or a key does to the document, when it may. -/
def settle (start : List Char) (header : List String) :
    Except Conflict Members → Except Fault Progress
  | .ok root => .ok ⟨root, header⟩
  | .error e => refuse start e.message

/-- A header, in front of its brackets. -/
def readHeader (p : Progress) (start : List Char) : Except Fault (Progress × List Char) :=
  within "table header" do
    match start with
    | '[' :: '[' :: rest =>
      let ((path, name), rest) ← readKey rest
      match rest with
      | ']' :: ']' :: rest =>
        let rest ← finishLine rest
        let p ← settle start (path ++ [name]) (openSeries path name p.root)
        .ok (p, rest)
      | rest => failAt rest none ["`.`", "`]]`"]
    | _ =>
      let ((path, name), rest) ← readKey (start.drop 1)
      match rest with
      | ']' :: rest =>
        let rest ← finishLine rest
        let p ← settle start (path ++ [name]) (openTable path name p.root)
        .ok (p, rest)
      | rest => failAt rest none ["`.`", "`]`"]

def readAssignment (p : Progress) (start : List Char) : Except Fault (Progress × List Char) := do
  let ((path, name), rest) ← readKey start
  let rest ← readEquals rest
  let value := skipBlanks rest
  let (v, rest) ← readValue depthMax (value.length + 1) value
  let rest ← finishLine rest
  let p ← settle start p.header (setKey p.header path name v p.root)
  .ok (p, rest)

def readLines (p : Progress) : (fuel : Nat) → List Char → Except Fault Members
  | 0, cs => refuse cs "recursion limit exceeded"
  | fuel + 1, cs =>
    let cs := skipBlanks cs
    match cs with
    | [] => .ok p.root
    | '#' :: _ => do readLines p fuel (← finishLine cs)
    | '[' :: _ => do
      let (p, rest) ← readHeader p cs
      readLines p fuel rest
    | cs =>
      match lineEnd? cs with
      | some rest => readLines p fuel rest
      | none => do
        let (p, rest) ← readAssignment p cs
        readLines p fuel rest

/-- Reads a TOML text. The functions above are bounded by a number of steps that no text can use up,
as each step takes a character. -/
def read (text : String) : Except Fault (List (String × Value)) :=
  let cs := text.toList
  (readLines ⟨[], []⟩ (cs.length + 1) cs).map Entry.membersToValue

end Uplink.Toml
