namespace Uplink.Toml

/-- A fault: how many characters were left where it was met, what was being read, what could have
stood there instead, and any other reason. -/
structure Fault where
  left : Nat
  label : Option String
  expected : List String
  reason : Option String
  deriving DecidableEq, Repr

namespace Fault

def messageLines (f : Fault) : List String :=
  (f.label.map ("invalid " ++ ·)).toList
    ++ (if f.expected.isEmpty then [] else ["expected " ++ ", ".intercalate f.expected])
    ++ f.reason.toList

def message (f : Fault) : String := "\n".intercalate f.messageLines

/-- A fault met inside something that has a name, unless it is named already. -/
def named (label : String) (f : Fault) : Fault := { f with label := f.label <|> some label }

end Fault

/-- Fails in front of what is left. -/
def failAt {α : Type} (left : List Char) (label : Option String) (expected : List String) :
    Except Fault α :=
  .error ⟨left.length, label, expected, none⟩

def refuse {α : Type} (left : List Char) (reason : String) : Except Fault α :=
  .error ⟨left.length, none, [], some reason⟩

def within {α : Type} (label : String) : Except Fault α → Except Fault α
  | .ok a => .ok a
  | .error f => .error (f.named label)

/-- The line of a place and its column, both counted from zero. The end of a text counts as the
place behind its last character. -/
def place (text : List Char) (offset : Nat) : Nat × Nat :=
  let inside := min offset (text.length - 1)
  let before := text.take inside
  let line := before.count '\n'
  let column := (before.reverse.takeWhile (· ≠ '\n')).length
  (line, column + (offset - inside))

def splitLines : List Char → List (List Char)
  | [] => [[]]
  | '\n' :: rest => [] :: splitLines rest
  | c :: rest =>
    match splitLines rest with
    | [] => [[c]]
    | line :: others => (c :: line) :: others

/-- A fault of a text with the line it is met in. -/
def Fault.render (f : Fault) (text : List Char) : String :=
  let (line, column) := place text (text.length - f.left)
  let number := toString (line + 1)
  let gutter := String.ofList (List.replicate (number.length + 1) ' ')
  let content := String.ofList ((splitLines text).getD line [])
  s!"TOML parse error at line {number}, column {column + 1}\n"
    ++ gutter ++ "|\n"
    ++ number ++ " | " ++ content ++ "\n"
    ++ gutter ++ "|" ++ String.ofList (List.replicate (column + 1) ' ') ++ "^\n"
    ++ f.message ++ "\n"

end Uplink.Toml
