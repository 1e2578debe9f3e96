import Uplink.Json.Decode

namespace Uplink.Json

/-- A place in a text: a line, counted from one, and a number of bytes in it. -/
structure Position where
  line : Nat
  column : Nat
  deriving DecidableEq, Repr

namespace Position

def start : Position := ⟨1, 0⟩

def next (p : Position) (c : Char) : Position :=
  if c = '\n' then ⟨p.line + 1, 0⟩ else { p with column := p.column + c.utf8Size }

def render (p : Position) : String := s!" at line {p.line} column {p.column}"

end Position

namespace Reader

/-- Whether the value cannot become good any more. -/
def isSpoiled (r : Reader) : Bool :=
  match r.place with
  | .halted _ | .trailing _ => true
  | .text scan | .key scan => !scan.chars.toBool
  | _ => decide (Document.depthLimit < r.frames.length)

/-- Whether a number that cannot be represented ends here, when the next character is known. -/
def endsTooLarge (r : Reader) (next : Option Char) : Bool :=
  match r.place with
  | .number place seen =>
    let ended := match next with
      | some c => place.next c == .ended
      | none => place.complete
    ended && !(numberToken seen).value.toBool
  | _ => false

end Reader

/-- Goes on reading from a place to the one where the reading fails, or to the end. -/
def failureFrom (r : Reader) (p : Position) : List Char → Position
  | [] => p
  | c :: rest =>
    if r.endsTooLarge (some c) then p
    else
      let r := r.step c
      if r.isSpoiled then p.next c else failureFrom r (p.next c) rest

/-- Where the reading of a text fails, if it does. -/
def failurePosition (text : String) : Position := failureFrom .start .start text.toList

end Uplink.Json
