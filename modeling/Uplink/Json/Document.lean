import Uplink.Json.Fault
import Uplink.Json.Value

namespace Uplink.Json

/-- A number or a text as written. `value` is what it means; `skipped` is what keeps a reader that
does not need it from passing over it. -/
structure Token (α : Type) where
  value : Except Malformed α
  skipped : Option Malformed

inductive Stop where
  | closed
  /-- The parts did not come from a text, so there is nothing behind them. -/
  | whole
  /-- The text ended where a comma or the closing bracket could stand. -/
  | ended
  | endedAfterComma
  | closedAfterComma
  /-- Something else came where a key has to start. -/
  | badKey
  /-- Something else came where a comma or the closing bracket has to stand. -/
  | stray
  /-- The last part is itself broken; passing over it meets this fault. -/
  | broken (m : Malformed)
  deriving DecidableEq, Repr

namespace Stop

/-- The fault met at the end of a list when its items are wanted. -/
def inList : Stop → Option Malformed
  | .closed | .whole => none
  | .ended => some .endInList
  | .endedAfterComma => some .endInValue
  | .closedAfterComma => some .trailingComma
  | .badKey | .stray => some .expectedListNext
  | .broken m => some m

/-- The fault met at the end of a list that is passed over. -/
def inSkippedList : Stop → Option Malformed
  | .closedAfterComma => some .expectedValue
  | stop => stop.inList

/-- The fault met behind the last item that a list of fixed length can have. -/
def afterLast : Stop → Option Malformed
  | .closed | .whole => none
  | .ended => some .endInList
  | .closedAfterComma => some .trailingComma
  | _ => some .trailingCharacters

/-- The fault met at the end of an object when its members are wanted. -/
def inObject : Stop → Option Malformed
  | .closed | .whole => none
  | .ended => some .endInObject
  | .endedAfterComma => some .endInValue
  | .closedAfterComma => some .trailingComma
  | .badKey => some .keyNotText
  | .stray => some .expectedObjectNext
  | .broken m => some m

/-- The fault met at the end of an object that is passed over. -/
def inSkippedObject : Stop → Option Malformed
  | .endedAfterComma => some .endInObject
  | .closedAfterComma => some .keyNotText
  | stop => stop.inObject

end Stop

/-- What was found in a JSON text, faults included. Whoever needs a part of it decides whether what
is wrong there matters: a value that is only passed over has to follow the grammar, but its numbers
may be too large and its escapes unpaired. -/
inductive Document where
  /-- No value starts here, or a word breaks off. -/
  | broken (m : Malformed)
  | null
  | bool (b : Bool)
  | number (token : Token Number)
  | text (token : Token String)
  | list (items : List Document) (stop : Stop)
  | object (members : List (Token String × Document)) (stop : Stop)

namespace Document

instance : Inhabited Document := ⟨null⟩

/-- The fault met when the document is passed over. Whatever keeps a reader from going on is the
last thing it has seen, so a list or an object knows it from its end. -/
def skipped : Document → Option Malformed
  | broken m => some m
  | null | bool _ => none
  | number token => token.skipped
  | text token => token.skipped
  | list _ stop => stop.inSkippedList
  | object _ stop => stop.inSkippedObject

/-- What the document turns out to be when something else was wanted. Numbers and texts are read
to the end for that, lists and objects are not. -/
def found : Document → Except Malformed Found
  | broken m => .error m
  | null => .ok .null
  | bool b => .ok (.bool b)
  | number token => token.value.map fun
    | .int n => .int n
    | .float x => .float x
  | text token => token.value.map .text
  | list _ _ => .ok .list
  | object _ _ => .ok .object

mutual

/-- The document of a value, in which nothing is wrong. -/
def ofJson : Json → Document
  | .null => null
  | .bool b => bool b
  | .number n => number ⟨.ok n, none⟩
  | .text s => text ⟨.ok s, none⟩
  | .list items => list (ofItems items) .whole
  | .object members => object (ofMembers members) .whole

def ofItems : List Json → List Document
  | [] => []
  | v :: rest => ofJson v :: ofItems rest

def ofMembers : List (String × Json) → List (Token String × Document)
  | [] => []
  | (name, v) :: rest => (⟨.ok name, none⟩, ofJson v) :: ofMembers rest

end

end Document

/-- A document and whether anything but blanks follows it in the text. -/
structure Reading where
  document : Document
  trailing : Bool

end Uplink.Json
