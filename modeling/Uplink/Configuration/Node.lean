import Uplink.Json.Value

namespace Uplink.Configuration

/-- Where a value came from, if it was not made on the way to another one. -/
abbrev Origin := Option String

inductive Scalar where
  | nothing
  | bool (b : Bool)
  /-- A whole number of 64 bits with a sign. -/
  | int (n : Int)
  | float (x : Float)
  | text (s : String)

/-- A part of the configuration that knows where it came from. -/
inductive Node where
  | scalar (s : Scalar) (origin : Origin)
  | list (items : List Node) (origin : Origin)
  | table (members : List (String × Node)) (origin : Origin)

/-- A step into a tree. An index below zero counts from the end. -/
inductive Step where
  | name (s : String)
  | index (i : Int)
  deriving DecidableEq, Repr

namespace Node

instance : Inhabited Node := ⟨.scalar .nothing none⟩

def nothing : Node := .scalar .nothing none

def emptyTable : Node := .table [] none

def member? (name : String) : Node → Option Node
  | .table members _ => members.lookup name
  | _ => none

/-- Puts a member in the place of the one of its name, or behind all others. -/
def replaceMember (name : String) (v : Node) : List (String × Node) → List (String × Node)
  | [] => [(name, v)]
  | (other, w) :: rest =>
    if other = name then (name, v) :: rest else (other, w) :: replaceMember name v rest

/-- A table with a member; what is no table becomes one. -/
def withMember (target : Node) (name : String) (v : Node) : Node :=
  match target with
  | .table members origin => .table (replaceMember name v members) origin
  | _ => .table [(name, v)] none

mutual

/-- Sets a member. A table is merged into what is there, member by member. -/
def assign (name : String) (v : Node) (target : Node) : Node :=
  match v with
  | .table members _ =>
    target.withMember name (assignAll members ((target.member? name).getD emptyTable))
  | v => target.withMember name v

def assignAll (members : List (String × Node)) (target : Node) : Node :=
  match members with
  | [] => target
  | (name, v) :: rest => assignAll rest (assign name v target)

end

/-- The items of a list; what is no list has none. -/
def items : Node → List Node
  | .list items _ => items
  | _ => []

/-- The position an index means in a list. -/
def position (i : Int) (length : Nat) : Nat := if i < 0 then length - i.natAbs else i.toNat

/-- A list in which one position is changed, as long as needed. What is no list becomes one. -/
def withItem (i : Int) (change : Node → Node) (n : Node) : Node :=
  let place := position i n.items.length
  let padded := n.items ++ List.replicate (place + 1 - n.items.length) nothing
  let origin := match n with
    | .list _ origin => origin
    | _ => none
  .list (padded.modify place change) origin

/-- Sets what stands at a path. -/
def set (target : Node) (path : List Step) (v : Node) : Node :=
  match path with
  | [] => target
  | [.name name] => assign name v target
  | [.index i] => target.withItem i fun _ => v
  | .name name :: rest =>
    target.withMember name (set ((target.member? name).getD nothing) rest v)
  | .index i :: rest => target.withItem i fun item => set item rest v

end Node

/-- The characters of a name in a path. -/
def isNameChar (c : Char) : Bool := c.isAlphanum || c == ' ' || c == '_' || c == '-'

/-- The number between the brackets of an index. Blanks around it do not count. -/
def readIndex (cs : List Char) : Option Int :=
  let trimmed := ((cs.dropWhile (· = ' ')).reverse.dropWhile (· = ' ')).reverse
  let (negative, digits) := match trimmed with
    | '-' :: rest => (true, rest)
    | cs => (false, cs)
  if digits.isEmpty ∨ !digits.all Char.isDigit then none
  else
    let n : Int := digits.foldl (fun n c => 10 * n + (c.toNat - '0'.toNat : Nat)) 0
    some (if negative then -n else n)

/-- The steps behind the first name; `fuel` bounds how many there are. -/
def readSteps : (fuel : Nat) → List Char → Option (List Step)
  | _, [] => some []
  | 0, _ => none
  | fuel + 1, '.' :: rest =>
    let name := rest.takeWhile isNameChar
    if name.isEmpty then none
    else (readSteps fuel (rest.drop name.length)).map (.name (String.ofList name) :: ·)
  | fuel + 1, '[' :: rest =>
    let inside := rest.takeWhile (· ≠ ']')
    match readIndex inside, rest.drop inside.length with
    | some i, ']' :: behind => (readSteps fuel behind).map (.index i :: ·)
    | _, _ => none
  | _, _ => none

/-- The path a text stands for: names joined by points, and indices in brackets. A text that is no
path is one name. -/
def readPath (text : String) : List Step :=
  let cs := text.toList
  let name := cs.takeWhile isNameChar
  match readSteps cs.length (cs.drop name.length) with
  | some steps => if name.isEmpty then [.name text] else .name (String.ofList name) :: steps
  | none => [.name text]

def renderPath : List Step → String
  | [] => ""
  | s :: rest =>
    let written : Step → String
      | .name name => name
      | .index i => s!"[{i}]"
    rest.foldl (fun text s =>
      match s with
      | .name name => text ++ "." ++ name
      | .index _ => text ++ written s) (written s)

/-- Puts the members of a source into a tree, each at the path its name stands for. -/
def Node.absorb (target : Node) (members : List (String × Node)) : Node :=
  members.foldl (fun tree (name, v) => tree.set (readPath name) v) target

end Uplink.Configuration
