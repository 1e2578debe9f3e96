import Uplink.Configuration.Node
import Uplink.Configuration.Settings
import Uplink.Number.Plain
import Uplink.Text.Decimal
import Uplink.Text.Quoted

namespace Uplink.Configuration

/-- What a value is called that is something else than was wanted. -/
inductive Unexpected where
  | nothing
  | bool (b : Bool)
  | int (n : Int)
  | word (n : Nat)
  | float (x : Float)
  | text (s : String)
  | list
  | table

def Unexpected.message : Unexpected → String
  | .nothing => "unit value"
  | .bool b => s!"boolean `{b}`"
  | .int n => s!"64-bit integer `{n}`"
  | .word n => s!"64-bit unsigned integer `{n}`"
  | .float x => s!"floating point `{String.ofList (Number.plain x)}`"
  | .text s => "string " ++ Text.Quoted.quote s
  | .list => "sequence"
  | .table => "map"

def Node.unexpected : Node → Unexpected
  | .scalar .nothing _ => .nothing
  | .scalar (.bool b) _ => .bool b
  | .scalar (.int n) _ => .int n
  | .scalar (.float x) _ => .float x
  | .scalar (.text s) _ => .text s
  | .list _ _ => .list
  | .table _ _ => .table

inductive Fault where
  /-- A value at a path that cannot be taken for what is wanted there. -/
  | wrongType (found : Unexpected) (expected : String) (path : List Step) (origin : Origin)
  | other (message : String)

/-- The message of a fault. A place is only named where it is known. -/
def Fault.message : Fault → String
  | .wrongType found expected path origin =>
    "invalid type: " ++ found.message ++ ", expected " ++ expected
      ++ (if path.isEmpty then "" else " for key `" ++ renderPath path ++ "`")
      ++ (match origin with
        | some o => " in " ++ o
        | none => "")
  | .other message => message

/-- The fault as seen from one step further out. -/
def Fault.under (s : Step) : Fault → Fault
  | .wrongType found expected path origin => .wrongType found expected (s :: path) origin
  | .other message => .other message

def under {α : Type} (s : Step) : Except Fault α → Except Fault α
  | .ok a => .ok a
  | .error f => .error (f.under s)

def wrongType {α : Type} (found : Unexpected) (expected : String) (origin : Origin) :
    Except Fault α :=
  .error (.wrongType found expected [] origin)

def Scalar.text? : Scalar → Option String
  | .nothing => none
  | .bool b => some (if b then "true" else "false")
  | .int n => some (String.ofList (Text.Decimal.ofInt n))
  | .float x => some (String.ofList (Number.plain x))
  | .text s => some s

def Node.origin : Node → Origin
  | .scalar _ origin | .list _ origin | .table _ origin => origin

/-- A text, or the text of a scalar. -/
def Node.asText (n : Node) : Except Fault String :=
  let text? : Option String := match n with
    | .scalar s _ => s.text?
    | _ => none
  match text? with
  | some text => .ok text
  | none => wrongType n.unexpected "a string" n.origin

/-- The number a text stands for: one and zero for words of yes and no, or its digits. -/
def wordOfText (text : String) : Option Nat :=
  let lower := String.ofList (text.toList.map Char.toLower)
  if lower = "true" ∨ lower = "on" ∨ lower = "yes" then some 1
  else if lower = "false" ∨ lower = "off" ∨ lower = "no" then some 0
  else (Text.Decimal.readNat Number.wordMax text.toList).toOption

/-- The unsigned number of 64 bits that a scalar is taken for, if it can be. Numbers with a
fraction are rounded into that range. -/
def Scalar.word? : Scalar → Option Nat
  | .nothing => none
  | .bool b => some b.toNat
  | .int n => if 0 ≤ n then some n.toNat else none
  | .float x => some (Number.toWord x)
  | .text s => wordOfText s

/-- What is wanted in place of a value that is no unsigned number. -/
def Node.wantedWord : Node → String
  | .scalar (.int _) _ => "an unsigned 64 bit or less integer"
  | _ => "an integer"

/-- An unsigned number of 64 bits. -/
def Node.asWord (n : Node) : Except Fault Nat :=
  let word? : Option Nat := match n with
    | .scalar s _ => s.word?
    | _ => none
  match word? with
  | some word => .ok word
  | none => wrongType n.unexpected n.wantedWord n.origin

/-- An unsigned number of fewer bits. -/
def Node.asNarrow (bits : Nat) (n : Node) : Except Fault Nat := do
  let word ← n.asWord
  if word < Nat.pow 2 bits then .ok word
  else wrongType (.word word) s!"an unsigned {bits} bit integer" none

def LogFormat.all : List LogFormat := [.pretty, .json]

/-- The format of a name, in which case does not count. -/
def LogFormat.ofName (name : String) : Except Fault LogFormat :=
  let lower (s : String) : List Char := s.toList.map Char.toLower
  match LogFormat.all.find? fun f => lower f.name == lower name with
  | some f => .ok f
  | none => .error (.other ("enum LogFormat does not have variant constructor " ++ name))

/-- A format by its name, or by the only name in a table. -/
def Node.asLogFormat : Node → Except Fault LogFormat
  | .scalar (.text name) _ => LogFormat.ofName name
  | .table [(name, _)] _ => LogFormat.ofName name
  | _ => .error (.other ("value of enum LogFormat should be represented by either string or "
      ++ "table with exactly one key"))

/-- A setting of a section of type `σ`: its name, and how it gets in. -/
structure Field (σ : Type) where
  name : String
  read : Node → Except Fault (σ → σ)

/-- A setting whose value is put in by `set`. -/
def field {σ α : Type} (name : String) (read : Node → Except Fault α) (set : α → σ → σ) :
    Field σ :=
  ⟨name, fun n => (read n).map set⟩

/-- What a scalar is called where a section was wanted. -/
def Scalar.described : Scalar → String
  | .nothing => "unit value"
  | .bool b => s!"boolean `{b}`"
  | .int n => s!"integer `{n}`"
  | .float x =>
    let written := Number.plain x
    let pointed := written.contains '.' || Number.kindOf x != .finite
    let shown := String.ofList (if pointed then written else written ++ ['.', '0'])
    s!"floating point `{shown}`"
  | .text s => "string " ++ Text.Quoted.quote s

/-- Takes settings in the order of the table, each one there is from the members. -/
def readMembers {σ : Type} (members : List (String × Node)) (start : σ) (fields : List (Field σ)) :
    Except Fault σ :=
  fields.foldlM (fun a f =>
    match members.lookup f.name with
    | some n => (under (.name f.name) (f.read n)).map (· a)
    | none => .ok a) start

/-- Takes settings from the items of a list, in the order of the table, as far as both go. -/
def readItems {σ : Type} (i : Nat) (start : σ) : List (Field σ) → List Node → Except Fault σ
  | f :: fields, n :: items => do
    let set ← under (.index i) (f.read n)
    readItems (i + 1) (set start) fields items
  | _, _ => .ok start

/-- A section, from a table or from the list of its settings. -/
def readSection {σ : Type} (title : String) (fields : List (Field σ)) (start : σ) :
    Node → Except Fault σ
  | .table members _ => readMembers members start fields
  | .list items _ => readItems 0 start fields items
  | .scalar s _ =>
    .error (.other ("invalid type: " ++ s.described ++ ", expected struct " ++ title))

def ServerSettings.fields : List (Field ServerSettings) :=
  [field "host" Node.asText fun v s => { s with host := v },
    field "port" (Node.asNarrow 16) fun v s => { s with port := UInt16.ofNat v }]

def DatabaseSettings.fields : List (Field DatabaseSettings) :=
  [field "url" Node.asText fun v s => { s with url := v },
    field "pool_size" (Node.asNarrow 32) fun v s => { s with poolSize := UInt32.ofNat v },
    field "connect_timeout_seconds" (Node.asNarrow 32) fun v s =>
      { s with connectTimeoutSeconds := UInt32.ofNat v },
    field "idle_timeout_seconds" (Node.asNarrow 32) fun v s =>
      { s with idleTimeoutSeconds := UInt32.ofNat v }]

def BrokerSettings.fields : List (Field BrokerSettings) :=
  [field "server" Node.asText fun v s => { s with server := v },
    field "username" Node.asText fun v s => { s with username := v },
    field "password" Node.asText fun v s => { s with password := v },
    field "client_id" Node.asText fun v s => { s with clientId := v },
    field "qos" (Node.asNarrow 8) fun v s => { s with qos := UInt8.ofNat v },
    field "keep_alive_seconds" Node.asWord fun v s =>
      { s with keepAliveSeconds := UInt64.ofNat v },
    field "publish_timeout_ms" Node.asWord fun v s =>
      { s with publishTimeoutMillis := UInt64.ofNat v },
    field "disconnect_timeout_ms" Node.asWord fun v s =>
      { s with disconnectTimeoutMillis := UInt64.ofNat v }]

def IntegrationSettings.fields : List (Field IntegrationSettings) :=
  [field "cache_ttl_seconds" Node.asWord fun v s => { s with cacheTtlSeconds := UInt64.ofNat v },
    field "http_timeout_seconds" Node.asWord fun v s =>
      { s with httpTimeoutSeconds := UInt64.ofNat v }]

def LoggingSettings.fields : List (Field LoggingSettings) :=
  [field "format" Node.asLogFormat fun v s => { s with format := v }]

namespace Settings

def fields : List (Field Settings) :=
  [field "server" (readSection "ServerConfig" ServerSettings.fields standard.server)
      fun v s => { s with server := v },
    field "database" (readSection "DatabaseConfig" DatabaseSettings.fields standard.database)
      fun v s => { s with database := v },
    field "mqtt" (readSection "MqttConfig" BrokerSettings.fields standard.broker)
      fun v s => { s with broker := v },
    field "integrations"
      (readSection "IntegrationsConfig" IntegrationSettings.fields standard.integrations)
      fun v s => { s with integrations := v },
    field "logging" (readSection "LoggingConfig" LoggingSettings.fields standard.logging)
      fun v s => { s with logging := v }]

/-- The settings of a tree; what it does not set is as it is without it. -/
def ofNode : Node → Except Fault Settings := readSection "Settings" fields standard

end Settings

end Uplink.Configuration
