import Uplink.Json.Fault
import Uplink.Json.Value
import Uplink.Text.Decimal
import Uplink.Text.Hex

namespace Uplink.Json

/-- How one character stands inside a text. -/
def escape (c : Char) : List Char :=
  match c with
  | '"' => ['\\', '"']
  | '\\' => ['\\', '\\']
  | '\x08' => ['\\', 'b']
  | '\x0c' => ['\\', 'f']
  | '\n' => ['\\', 'n']
  | '\r' => ['\\', 'r']
  | '\t' => ['\\', 't']
  | c =>
    if c.toNat < 0x20 then
      ['\\', 'u', '0', '0', Text.Hex.digitChar (c.toNat / 16), Text.Hex.digitChar (c.toNat % 16)]
    else [c]

def printText (s : String) : List Char := '"' :: s.toList.flatMap escape ++ ['"']

def printNumber : Number → List Char
  | .int n => Text.Decimal.ofInt n
  | .float x => (renderFloat x).toList

mutual

def print : Json → List Char
  | .null => ['n', 'u', 'l', 'l']
  | .bool true => ['t', 'r', 'u', 'e']
  | .bool false => ['f', 'a', 'l', 's', 'e']
  | .number n => printNumber n
  | .text s => printText s
  | .list [] => ['[', ']']
  | .list (v :: rest) => '[' :: print v ++ printItems rest
  | .object [] => ['\x7b', '\x7d']
  | .object ((name, v) :: rest) =>
    '\x7b' :: printText name ++ ':' :: print v ++ printMembers rest

/-- The items behind the first one, and the closing bracket. -/
def printItems : List Json → List Char
  | [] => [']']
  | v :: rest => ',' :: print v ++ printItems rest

/-- The members behind the first one, and the closing bracket. -/
def printMembers : List (String × Json) → List Char
  | [] => ['\x7d']
  | (name, v) :: rest => ',' :: printText name ++ ':' :: print v ++ printMembers rest

end

def compact (v : Json) : String := String.ofList (print v)

end Uplink.Json
