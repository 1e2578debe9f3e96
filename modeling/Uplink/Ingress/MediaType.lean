import Uplink.Webhook.Header

namespace Uplink.Ingress

open Webhook (isTokenChar)

/-- How far the parameters are read. -/
inductive ParameterPlace where
  /-- Blanks may stand here, and the text may end here. -/
  | before
  | name
  | valueStart
  | value
  | quotedStart
  | quoted
  | afterQuoted
  deriving DecidableEq, Repr

/-- The characters between quotes. There is no escape. -/
def isQuotedChar (c : Char) : Bool := 0x20 ≤ c.toNat && c.toNat != 0x7F

namespace ParameterPlace

/-- One more character; `none` where it may not stand. The first character between quotes is taken
as it is, a quote too. -/
def next (c : Char) : ParameterPlace → Option ParameterPlace
  | before => if c = ' ' then some before else if isTokenChar c then some name else none
  | name => if c = '=' then some valueStart else if isTokenChar c then some name else none
  | valueStart => if c = '"' then some quotedStart else if isTokenChar c then some value else none
  | value => if c = ';' then some before else if isTokenChar c then some value else none
  | quotedStart => if isQuotedChar c then some quoted else none
  | quoted => if c = '"' then some afterQuoted else if isQuotedChar c then some quoted else none
  | afterQuoted => if c = ';' then some before else if c = ' ' then some afterQuoted else none

def mayEnd : ParameterPlace → Bool
  | before | valueStart | value | afterQuoted => true
  | name | quotedStart | quoted => false

end ParameterPlace

/-- Whether parameters, without the semicolon in front of them, are well formed. -/
def parametersValid (cs : List Char) : Bool :=
  match cs.foldl (fun place c => place.bind (ParameterPlace.next c)) (some .before) with
  | some place => place.mayEnd
  | none => false

/-- A type without its parameters, in lower case. -/
structure MediaType where
  type : List Char
  /-- What stands in front of the last plus sign, or everything. -/
  subtype : List Char
  /-- What stands behind the last plus sign. -/
  suffix : Option (List Char)
  deriving DecidableEq, Repr

namespace MediaType

/-- Cuts at the last plus sign that is not the first character. -/
def cutSuffix (cs : List Char) : List Char × Option (List Char) :=
  let tail := (cs.reverse.takeWhile (· ≠ '+')).reverse
  let head := cs.take (cs.length - tail.length - 1)
  if head.isEmpty then (cs, none) else (head, some tail)

def ofChars (cs : List Char) : Option MediaType :=
  let cs := cs.map Char.toLower
  let type := cs.takeWhile isTokenChar
  match cs.dropWhile isTokenChar with
  | '/' :: behind =>
    let name := behind.takeWhile isTokenChar
    let valid := match behind.dropWhile isTokenChar with
      | [] => true
      | c :: parameters => c == ';' && !name.isEmpty && parametersValid parameters
    if type.isEmpty || !valid then none
    else
      let (subtype, suffix) := cutSuffix name
      some ⟨type, subtype, suffix⟩
  | _ => none

/-- Whether a type is JSON, or one that is written in JSON. -/
def isJson (t : MediaType) : Bool :=
  let json := "json".toList
  t.type == "application".toList && (t.subtype == json || t.suffix == some json)

end MediaType

end Uplink.Ingress
