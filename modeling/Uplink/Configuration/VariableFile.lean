import Uplink.Configuration.Environment
import Uplink.Text.Blank

namespace Uplink.Configuration.VariableFile

/-- Whether a line goes on behind its last character. -/
inductive LinePlace where
  | plain
  | blank
  | escape
  /-- Between single quotes, and behind a backslash there. -/
  | single
  | singleEscape
  /-- Between double quotes, and behind a backslash there. -/
  | double
  | doubleEscape
  | comment
  deriving DecidableEq, Repr

def LinePlace.entering (c : Char) : LinePlace :=
  if c = '\\' then .escape else if c = '"' then .double else if c = '\'' then .single else .plain

def LinePlace.next (c : Char) : LinePlace → LinePlace
  | .blank => if c = '#' then .comment else .entering c
  | .escape => .plain
  | .plain => if Text.isBlank c ∧ c ≠ '\n' ∧ c ≠ '\r' then .blank else .entering c
  | .double => if c = '\\' then .doubleEscape else if c = '"' then .plain else .double
  | .doubleEscape => .double
  | .single => if c = '\\' then .singleEscape else if c = '\'' then .plain else .single
  | .singleEscape => .single
  | .comment => .comment

def physicalLines : List Char → List (List Char)
  | [] => []
  | '\n' :: rest => ['\n'] :: physicalLines rest
  | c :: rest =>
    match physicalLines rest with
    | [] => [[c]]
    | line :: others => (c :: line) :: others

def withoutEnd (line : List Char) : List Char :=
  match line.reverse with
  | '\n' :: '\r' :: rest => rest.reverse
  | '\n' :: rest => rest.reverse
  | _ => line

/-- Reads one line up to its comment: what counts of it, and where it ends. -/
def scanLine (place : LinePlace) : List Char → List Char × LinePlace
  | [] => ([], place)
  | c :: rest =>
    match place.next c with
    | .comment => ([], .comment)
    | next =>
      let (kept, last) := scanLine next rest
      (c :: kept, last)

/-- Joins the lines that go on; `none` stands for one that never ends. -/
def logicalLines (begun : List Char) (place : LinePlace) :
    List (List Char) → List (Option (List Char))
  | [] => if place = .plain then [] else [none]
  | line :: rest =>
    if (Text.trimStart (begun ++ line)).head? = some '#' then some [] :: logicalLines [] .plain rest
    else
      match scanLine place line with
      | (kept, .comment) => some (begun ++ kept) :: logicalLines [] .plain rest
      | (_, .plain) => some (withoutEnd (begun ++ line)) :: logicalLines [] .plain rest
      | (_, next) => logicalLines (begun ++ line) next rest

inductive TextPlace where
  | plain
  | single
  | escape
  /-- Inside the name of a variable behind a dollar sign, bare or in braces. -/
  | variable
  | braced
  /-- Behind the text. -/
  | ending
  | comment
  deriving DecidableEq, Repr

/-- A text being read; `quoted` says whether it is between double quotes. What was read of a name
and of the text stands in reverse. -/
structure TextScan where
  place : TextPlace
  quoted : Bool
  name : List Char
  chars : List Char

namespace TextScan

def start : TextScan := ⟨.plain, false, [], []⟩

def push (s : TextScan) (c : Char) : TextScan := { s with place := .plain, chars := c :: s.chars }

/-- Puts in the text of the variable whose name was read. -/
def substitute (lookup : String → String) (s : TextScan) : TextScan :=
  let text := lookup (String.ofList s.name.reverse)
  ⟨.plain, s.quoted, [], text.toList.reverse ++ s.chars⟩

def escaped (c : Char) : Option Char :=
  if c = 'n' then some '\n'
  else if c = '\\' ∨ c = '\'' ∨ c = '"' ∨ c = '$' ∨ c = ' ' then some c
  else none

/-- Takes one character; `none` where it may not stand. The character behind a bare name stands
for itself, a quote too. -/
def next (lookup : String → String) (s : TextScan) (c : Char) : Option TextScan :=
  match s.place with
  | .comment => some s
  | .ending =>
    if c = ' ' ∨ c = '\t' then some s
    else if c = '#' then some { s with place := .comment }
    else none
  | .escape => (escaped c).map s.push
  | .single => some (if c = '\'' then { s with place := .plain } else
      { s with chars := c :: s.chars })
  | .variable =>
    if c.isAlphanum then some { s with name := c :: s.name }
    else if c = '\x7b' ∧ s.name.isEmpty then some { s with place := .braced }
    else
      let s := s.substitute lookup
      some (if c = '$' then { s with place := .variable } else s.push c)
  | .braced =>
    some (if c = '\x7d' then s.substitute lookup else { s with name := c :: s.name })
  | .plain =>
    if c = '$' then some { s with place := .variable }
    else if c = '\\' then some { s with place := .escape }
    else if c = '"' then some { s with quoted := !s.quoted }
    else if s.quoted then some (s.push c)
    else if c = '\'' then some { s with place := .single }
    else if c = ' ' ∨ c = '\t' then some { s with place := .ending }
    else some (s.push c)

/-- The text, if it may end here. -/
def finish (lookup : String → String) (s : TextScan) : Option String :=
  if s.quoted ∨ s.place = .single ∨ s.place = .braced then none
  else some (String.ofList (s.substitute lookup).chars.reverse)

def read (lookup : String → String) (cs : List Char) : Option String :=
  (cs.foldl (fun s c => s.bind fun s => s.next lookup c) (some start)).bind (finish lookup)

end TextScan

def isNameStart (c : Char) : Bool := c.isAlpha || c == '_'

def isNameChar (c : Char) : Bool := c.isAlphanum || c == '_' || c == '.'

/-- A name and what stands behind it and the blanks that follow. -/
def readName (cs : List Char) : Option (String × List Char) :=
  match cs with
  | c :: _ =>
    if isNameStart c then
      some (String.ofList (cs.takeWhile isNameChar), Text.trimStart (cs.dropWhile isNameChar))
    else none
  | [] => none

def readEquals : List Char → Option (List Char)
  | '=' :: rest => some (Text.trimStart rest)
  | _ => none

/-- The name of a line and what stands behind its equals sign. The word `export` may stand in front
of the name. -/
def readAssignment (cs : List Char) : Option (String × List Char) := do
  let (name, rest) ← readName cs
  match readEquals rest with
  | some value => some (name, value)
  | none =>
    if name = "export" then
      let (name, rest) ← readName rest
      let value ← readEquals rest
      some (name, value)
    else none

/-- What a reference to a variable means; nothing where it is not set. -/
def meaning (e : Environment) (name : String) : String := (e.get? name).getD ""

def define (e : Environment) (name text : String) : Environment :=
  if (e.get? name).isSome then e else e ++ [(name, text)]

/-- Reads a line; `none` when that cannot be done. -/
def readLine (e : Environment) (line : List Char) : Option Environment :=
  let cs := Text.trim line
  if cs.head?.all (· = '#') then some e
  else do
    let (name, value) ← readAssignment cs
    if value.head?.all (· = '#') then some (define e name "")
    else
      let text ← TextScan.read (meaning e) value
      some (define e name text)

/-- Reads lines up to the first one that cannot be read. -/
def readLines (e : Environment) : List (Option (List Char)) → Environment
  | [] => e
  | line :: rest =>
    match line.bind (readLine e) with
    | some e => readLines e rest
    | none => e

/-- A text without the mark of its byte order. -/
def withoutMark : List Char → List Char
  | '\uFEFF' :: rest => rest
  | cs => cs

/-- The environment with the variables of a file. One that is set already keeps its text; the first
line that cannot be read ends the file, and what stands above it counts. -/
def load (e : Environment) (text : String) : Environment :=
  readLines e (logicalLines [] .plain (physicalLines (withoutMark text.toList)))

end Uplink.Configuration.VariableFile
