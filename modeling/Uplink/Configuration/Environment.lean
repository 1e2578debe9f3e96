import Uplink.Configuration.Node
import Uplink.Number.Plain
import Uplink.Text.Decimal

namespace Uplink.Configuration

abbrev Environment := List (String × String)

/-- The text of a variable, the one that was set first. -/
def Environment.get? (e : Environment) (name : String) : Option String := e.lookup name

/-- What names begin with, in lower case. -/
def mark : List Char := "lora_notify_".toList

/-- Two underscores in a row become a point, from left to right. -/
def pointed : List Char → List Char
  | '_' :: '_' :: rest => '.' :: pointed rest
  | c :: rest => c :: pointed rest
  | [] => []

/-- The path in the name of a variable, if the name has the mark. Case does not count. -/
def settingName (name : String) : Option String :=
  let lower := name.toList.map Char.toLower
  if mark.isPrefixOf lower then some (String.ofList (pointed (lower.drop mark.length))) else none

/-- The scalar a text looks like: a truth value in any case, a whole number, a number, or just a
text. -/
def Scalar.ofText (text : String) : Scalar :=
  let cs := text.toList
  let lower := String.ofList (cs.map Char.toLower)
  if lower = "true" then .bool true
  else if lower = "false" then .bool false
  else
    match Text.Decimal.readInt Number.intMax cs with
    | .ok n => .int n
    | .error _ =>
      match Number.read cs with
      | some x => .float x
      | none => .text text

/-- What errors call the environment. -/
def environmentName : String := "the environment"

def Environment.members (e : Environment) : List (String × Node) :=
  e.filterMap fun (name, text) =>
    (settingName name).map fun key => (key, .scalar (.ofText text) (some environmentName))

end Uplink.Configuration
