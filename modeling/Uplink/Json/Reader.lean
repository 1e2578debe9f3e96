import Uplink.Json.Document
import Uplink.Json.Numeral
import Uplink.Text.Hex

namespace Uplink.Json

def isJsonBlank (c : Char) : Bool := c = ' ' ∨ c = '\n' ∨ c = '\t' ∨ c = '\r'

inductive TextPlace where
  | plain
  | escape
  /-- Inside the four digits of a numeric escape: bytes seen, value so far, digits so far only. -/
  | hex (seen value : Nat) (good : Bool)
  deriving DecidableEq, Repr

structure TextScan where
  place : TextPlace
  /-- A leading surrogate that waits for its other half. -/
  lead : Option Nat
  /-- The characters so far, last one first, or what makes the text unusable. -/
  chars : Except Malformed (List Char)

namespace TextScan

def start : TextScan := ⟨.plain, none, .ok []⟩

/-- Records a fault that only matters to those who need the text. -/
def spoil (s : TextScan) (m : Malformed) : TextScan :=
  match s.chars with
  | .ok _ => { s with lead := none, chars := .error m }
  | .error _ => { s with lead := none }

def push (s : TextScan) (c : Char) : TextScan :=
  { s with place := .plain, chars := s.chars.map (c :: ·) }

def token (s : TextScan) : Token String :=
  ⟨s.chars.map fun cs => String.ofList cs.reverse, none⟩

def brokenToken (s : TextScan) (m : Malformed) : Token String :=
  ⟨match s.chars with
    | .ok _ => .error m
    | .error earlier => .error earlier, some m⟩

inductive Next where
  | more (s : TextScan)
  | done (t : Token String)
  | cut (t : Token String) (m : Malformed)

def cutAt (s : TextScan) (m : Malformed) : Next := .cut (s.brokenToken m) m

/-- A leading surrogate has to be followed by another escape. -/
def expectPlain (s : TextScan) (c : Char) : TextScan :=
  if s.lead.isSome ∧ c ≠ '\\' then s.spoil .unpairedEscape else s

/-- A backslash behind a leading surrogate has to start a numeric escape. -/
def expectNumeric (s : TextScan) (c : Char) : TextScan :=
  if s.lead.isSome ∧ c ≠ 'u' then s.spoil .unpairedEscape else s

/-- Puts in the number of a numeric escape. Two surrogates make one character. -/
def pushUnit (s : TextScan) (n : Nat) : TextScan :=
  match s.lead with
  | some lead =>
    if 0xDC00 ≤ n ∧ n ≤ 0xDFFF then
      { s with lead := none }.push (Char.ofNat (0x10000 + (lead - 0xD800) * 0x400 + (n - 0xDC00)))
    else { s with place := .plain }.spoil .loneSurrogate
  | none =>
    if 0xDC00 ≤ n ∧ n ≤ 0xDFFF then { s with place := .plain }.spoil .loneSurrogate
    else if 0xD800 ≤ n ∧ n ≤ 0xDBFF then { s with place := .plain, lead := some n }
    else s.push (Char.ofNat n)

def escaped : Char → Option Char
  | '"' => some '"'
  | '\\' => some '\\'
  | '/' => some '/'
  | 'b' => some '\x08'
  | 'f' => some '\x0c'
  | 'n' => some '\n'
  | 'r' => some '\r'
  | 't' => some '\t'
  | _ => none

/-- Takes one character. The digits of a numeric escape are judged when four bytes are there. -/
def next (s : TextScan) (c : Char) : Next :=
  match s.place with
  | .plain =>
    let s := s.expectPlain c
    if c = '"' then .done s.token
    else if c = '\\' then .more { s with place := .escape }
    else if c.toNat < 0x20 then s.cutAt .controlCharacter
    else .more (s.push c)
  | .escape =>
    let s := s.expectNumeric c
    if c = 'u' then .more { s with place := .hex 0 0 true }
    else
      match escaped c with
      | some d => .more (s.push d)
      | none => s.cutAt .badEscape
  | .hex seen value good =>
    let seen := seen + c.utf8Size
    let good := good && Text.Hex.isDigit c
    let value := 16 * value + (Text.Hex.digitValue c).getD 0
    if seen < 4 then .more { s with place := .hex seen value good }
    else if good then .more (s.pushUnit value)
    else s.cutAt .badEscape

end TextScan

inductive NumberPlace where
  | sign
  | zero
  | whole
  | point
  | fraction
  | mark
  | markSign
  | exponent
  deriving DecidableEq, Repr

namespace NumberPlace

inductive Next where
  | more (p : NumberPlace)
  | ended
  | bad
  deriving DecidableEq, Repr

def next (p : NumberPlace) (c : Char) : Next :=
  match p with
  | .sign => if c = '0' then .more .zero else if c.isDigit then .more .whole else .bad
  | .zero =>
    if c.isDigit then .bad else if c = '.' then .more .point
    else if c = 'e' ∨ c = 'E' then .more .mark else .ended
  | .whole =>
    if c.isDigit then .more .whole else if c = '.' then .more .point
    else if c = 'e' ∨ c = 'E' then .more .mark else .ended
  | .point => if c.isDigit then .more .fraction else .bad
  | .fraction =>
    if c.isDigit then .more .fraction else if c = 'e' ∨ c = 'E' then .more .mark else .ended
  | .mark =>
    if c = '+' ∨ c = '-' then .more .markSign else if c.isDigit then .more .exponent else .bad
  | .markSign => if c.isDigit then .more .exponent else .bad
  | .exponent => if c.isDigit then .more .exponent else .ended

def complete : NumberPlace → Bool
  | .zero | .whole | .fraction | .exponent => true
  | .sign | .point | .mark | .markSign => false

end NumberPlace

/-- The token of a number, given its characters in reverse. -/
def numberToken (seen : List Char) : Token Number :=
  ⟨(Numeral.ofChars seen.reverse).value, none⟩

/-- A list or an object that is still open; the parts it has so far stand in reverse. -/
inductive Frame where
  | list (items : List Document)
  | object (members : List (Token String × Document))
  /-- An object whose last key waits for its value. -/
  | member (members : List (Token String × Document)) (key : Token String)

/-- Puts a document that breaks off into everything that is still open around it. -/
def closeBroken (m : Malformed) (doc : Document) : List Frame → Document
  | [] => doc
  | .list items :: rest =>
    closeBroken m (.list (doc :: items).reverse (.broken m)) rest
  | .object members :: rest =>
    closeBroken m (.object members.reverse (.broken m)) rest
  | .member members key :: rest =>
    closeBroken m (.object ((key, doc) :: members).reverse (.broken m)) rest

inductive Place where
  | value
  | firstItem
  | firstKey
  | nextItem
  | nextKey
  | colon (key : Token String)
  /-- Behind a value inside a list or an object. -/
  | after
  /-- Inside a word: what is left of it and what it means. -/
  | word (rest : List Char) (doc : Document)
  | number (place : NumberPlace) (seen : List Char)
  | text (scan : TextScan)
  | key (scan : TextScan)
  /-- Behind the whole value. -/
  | finished (doc : Document)
  /-- Something but a blank came behind the whole value. -/
  | trailing (doc : Document)
  /-- The value breaks off. -/
  | halted (doc : Document)

/-- A reader of documents that takes the characters one by one and keeps the lists and objects that
are still open. It needs neither lookahead nor a bound on the depth. -/
structure Reader where
  place : Place
  frames : List Frame

namespace Reader

def start : Reader := ⟨.value, []⟩

/-- A value is complete: it goes into the innermost open list or object. -/
def put (doc : Document) : List Frame → Reader
  | [] => ⟨.finished doc, []⟩
  | .list items :: rest => ⟨.after, .list (doc :: items) :: rest⟩
  | .member members key :: rest => ⟨.after, .object ((key, doc) :: members) :: rest⟩
  | .object members :: rest => ⟨.after, .object members :: rest⟩

def halt (m : Malformed) (doc : Document) (frames : List Frame) : Reader :=
  ⟨.halted (closeBroken m doc frames), []⟩

/-- The innermost list or object ends in a way that leaves nothing to read. -/
def haltOpen (stop : Stop) : List Frame → Reader
  | .list items :: rest =>
    halt (stop.inSkippedList.getD .expectedValue) (.list items.reverse stop) rest
  | .object members :: rest =>
    halt (stop.inSkippedObject.getD .expectedValue) (.object members.reverse stop) rest
  | frames => halt .expectedValue (.broken .expectedValue) frames

def close : List Frame → Reader
  | .list items :: rest => put (.list items.reverse .closed) rest
  | .object members :: rest => put (.object members.reverse .closed) rest
  | frames => halt .expectedValue (.broken .expectedValue) frames

def begin (c : Char) (frames : List Frame) : Reader :=
  match c with
  | 'n' => ⟨.word ['u', 'l', 'l'] .null, frames⟩
  | 't' => ⟨.word ['r', 'u', 'e'] (.bool true), frames⟩
  | 'f' => ⟨.word ['a', 'l', 's', 'e'] (.bool false), frames⟩
  | '"' => ⟨.text .start, frames⟩
  | '[' => ⟨.firstItem, .list [] :: frames⟩
  | '\x7b' => ⟨.firstKey, .object [] :: frames⟩
  | '-' => ⟨.number .sign [c], frames⟩
  | '0' => ⟨.number .zero [c], frames⟩
  | c =>
    if c.isDigit then ⟨.number .whole [c], frames⟩
    else halt .expectedValue (.broken .expectedValue) frames

def stepAfter (r : Reader) (c : Char) : Reader :=
  if isJsonBlank c then r
  else
    match r.place, r.frames with
    | .finished doc, _ => ⟨.trailing doc, []⟩
    | .after, .list items :: rest =>
      if c = ',' then ⟨.nextItem, .list items :: rest⟩
      else if c = ']' then close r.frames
      else haltOpen .stray r.frames
    | .after, .object members :: rest =>
      if c = ',' then ⟨.nextKey, .object members :: rest⟩
      else if c = '\x7d' then close r.frames
      else haltOpen .stray r.frames
    | _, _ => r

def putKey (key : Token String) : List Frame → Reader
  | .object members :: rest => ⟨.colon key, .object members :: rest⟩
  | frames => ⟨.colon key, frames⟩

/-- A key has no value: its member breaks off. -/
def haltMember (m : Malformed) (key : Token String) (doc : Document) : List Frame → Reader
  | .object members :: rest => halt m doc (.member members key :: rest)
  | frames => halt m doc frames

def step (r : Reader) (c : Char) : Reader :=
  match r.place with
  | .value => if isJsonBlank c then r else begin c r.frames
  | .firstItem =>
    if isJsonBlank c then r else if c = ']' then close r.frames else begin c r.frames
  | .nextItem =>
    if isJsonBlank c then r
    else if c = ']' then haltOpen .closedAfterComma r.frames else begin c r.frames
  | .firstKey =>
    if isJsonBlank c then r
    else if c = '"' then { r with place := .key .start }
    else if c = '\x7d' then close r.frames
    else haltOpen .badKey r.frames
  | .nextKey =>
    if isJsonBlank c then r
    else if c = '"' then { r with place := .key .start }
    else if c = '\x7d' then haltOpen .closedAfterComma r.frames
    else haltOpen .badKey r.frames
  | .colon key =>
    if isJsonBlank c then r
    else if c = ':' then
      match r.frames with
      | .object members :: rest => ⟨.value, .member members key :: rest⟩
      | frames => ⟨.value, frames⟩
    else haltMember .expectedColon key (.broken .expectedColon) r.frames
  | .after | .finished _ => r.stepAfter c
  | .word rest doc =>
    match rest with
    | d :: more =>
      if c = d then
        if more.isEmpty then put doc r.frames else { r with place := .word more doc }
      else halt .expectedWord (.broken .expectedWord) r.frames
    | [] => (put doc r.frames).stepAfter c
  | .number place seen =>
    match place.next c with
    | .more place => { r with place := .number place (c :: seen) }
    | .ended => (put (.number (numberToken seen)) r.frames).stepAfter c
    | .bad =>
      halt .badNumber (.number ⟨.error .badNumber, some .badNumber⟩) r.frames
  | .text scan =>
    match scan.next c with
    | .more scan => { r with place := .text scan }
    | .done token => put (.text token) r.frames
    | .cut token m => halt m (.text token) r.frames
  | .key scan =>
    match scan.next c with
    | .more scan => { r with place := .key scan }
    | .done token => putKey token r.frames
    | .cut token m => haltMember m token (.broken m) r.frames
  | .trailing _ | .halted _ => r

def finish (r : Reader) : Reading :=
  let broken (m : Malformed) (doc : Document) : Reading :=
    ⟨closeBroken m doc r.frames, false⟩
  let settled (s : Reader) : Reading :=
    match s.place with
    | .halted doc | .finished doc => ⟨doc, false⟩
    | .trailing doc => ⟨doc, true⟩
    | _ => ⟨.broken .endInValue, false⟩
  match r.place with
  | .value => broken .endInValue (.broken .endInValue)
  | .firstItem | .firstKey | .after => settled (haltOpen .ended r.frames)
  | .nextItem | .nextKey => settled (haltOpen .endedAfterComma r.frames)
  | .colon key => settled (haltMember .endInObject key (.broken .endInObject) r.frames)
  | .word _ _ => broken .endInValue (.broken .endInValue)
  | .number place seen =>
    if place.complete then
      match put (.number (numberToken seen)) r.frames with
      | ⟨.finished doc, _⟩ => ⟨doc, false⟩
      | s => settled (haltOpen .ended s.frames)
    else broken .badNumber (.number ⟨.error .endInValue, some .badNumber⟩)
  | .text scan => broken .endInText (.text (scan.brokenToken .endInText))
  | .key scan =>
    settled (haltMember .endInText (scan.brokenToken .endInText) (.broken .endInText) r.frames)
  | .finished doc | .halted doc => ⟨doc, false⟩
  | .trailing doc => ⟨doc, true⟩

end Reader

def Reading.ofText (cs : List Char) : Reading := (cs.foldl Reader.step Reader.start).finish

end Uplink.Json
