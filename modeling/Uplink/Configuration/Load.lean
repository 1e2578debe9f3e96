import Uplink.Configuration.Decode
import Uplink.Configuration.VariableFile
import Uplink.Json.Position
import Uplink.Toml.Reader

namespace Uplink.Configuration

abbrev Files := List (String × String)

mutual

/-- A JSON value as a part of a tree. Whole numbers of more than 63 bits become doubles. -/
def ofJson (origin : String) : Json → Node
  | .null => .scalar .nothing (some origin)
  | .bool b => .scalar (.bool b) (some origin)
  | .number (.int n) =>
    .scalar (if n ≤ Number.intMax then .int n else .float (Json.Document.intToFloat n)) (some origin)
  | .number (.float x) => .scalar (.float x) (some origin)
  | .text s => .scalar (.text s) (some origin)
  | .list items => .list (ofJsonItems origin items) (some origin)
  | .object members => .table (ofJsonMembers origin members) (some origin)

def ofJsonItems (origin : String) : List Json → List Node
  | [] => []
  | v :: rest => ofJson origin v :: ofJsonItems origin rest

def ofJsonMembers (origin : String) : List (String × Json) → List (String × Node)
  | [] => []
  | (name, v) :: rest => (name, ofJson origin v) :: ofJsonMembers origin rest

end

mutual

/-- A TOML value as a part of a tree. -/
def ofToml (origin : String) : Toml.Value → Node
  | .text s => .scalar (.text s) (some origin)
  | .int n => .scalar (.int n) (some origin)
  | .float x => .scalar (.float x) (some origin)
  | .bool b => .scalar (.bool b) (some origin)
  | .moment s => .scalar (.text s) (some origin)
  | .list items => .list (ofTomlItems origin items) (some origin)
  | .table members => .table (ofTomlMembers origin members) (some origin)

def ofTomlItems (origin : String) : List Toml.Value → List Node
  | [] => []
  | v :: rest => ofToml origin v :: ofTomlItems origin rest

def ofTomlMembers (origin : String) : List (String × Toml.Value) → List (String × Node)
  | [] => []
  | (name, v) :: rest => (name, ofToml origin v) :: ofTomlMembers origin rest

end

def inFile {α : Type} (file message : String) : Except Fault α :=
  .error (.other (message ++ " in " ++ file))

def readJson (file text : String) : Except Fault (List (String × Node)) :=
  match Json.parse text with
  | .error f => inFile file (f.message ++ (Json.failurePosition text).render)
  | .ok v =>
    match ofJson file v with
    | .table members _ => .ok members
    | n => inFile file (Fault.wrongType n.unexpected "a map" [] (some file)).message

def readToml (file text : String) : Except Fault (List (String × Node)) :=
  match Toml.read text with
  | .error f => inFile file (f.render text.toList)
  | .ok members => .ok (ofTomlMembers file members)

/-- A text without the mark of its byte order. -/
def unmarked (text : String) : String := String.ofList (VariableFile.withoutMark text.toList)

/-- The members of the file of a name, whichever format it has; none without such a file. -/
def readFile (files : Files) (name : String) : Except Fault (List (String × Node)) :=
  let toml := name ++ ".toml"
  let json := name ++ ".json"
  match files.lookup toml, files.lookup json with
  | some text, _ => readToml toml (unmarked text)
  | none, some text => readJson json (unmarked text)
  | none, none => .ok []

def runMode (e : Environment) : String := (e.get? "RUN_MODE").getD "development"

/-- The environment, once the file of variables is read. -/
def environment (files : Files) (e : Environment) : Environment :=
  match files.lookup ".env" with
  | some text => VariableFile.load e text
  | none => e

/-- What the sources set; each later one goes over the ones before it, and no file has to be there.
-/
def gather (files : Files) (e : Environment) : Except Fault Node := do
  let e := environment files e
  let general ← readFile files "config/default"
  let special ← readFile files ("config/" ++ runMode e)
  .ok (((Node.emptyTable.absorb general).absorb special).absorb e.members)

def load (files : Files) (e : Environment) : Except Fault Settings := do
  Settings.ofNode (← gather files e)

end Uplink.Configuration
