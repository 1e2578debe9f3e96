namespace Uplink.Webhook

/-- The characters of a name: letters, digits and some signs. -/
def isTokenChar (c : Char) : Bool := c.isAlphanum || "!#$%&'*+-.^_`|~".toList.contains c

def nameMax : Nat := 65535

/-- The name of a header field in lower case, `none` for a text that is no name. -/
def headerName? (s : String) : Option String :=
  if s ≠ "" ∧ s.utf8ByteSize ≤ nameMax ∧ s.toList.all isTokenChar then
    some (String.ofList (s.toList.map Char.toLower))
  else none

/-- Values hold no controls but the tab. -/
def isValueChar (c : Char) : Bool := c == '\t' || (0x20 ≤ c.toNat && c.toNat != 0x7F)

def isHeaderValue (s : String) : Bool := s.toList.all isValueChar

/-- Header fields in order; a name may come more than once. -/
abbrev Headers := List (String × String)

def Headers.set (name value : String) (h : Headers) : Headers :=
  if h.any (·.1 == name) then
    h.map fun field => if field.1 = name then (name, value) else field
  else h ++ [(name, value)]

end Uplink.Webhook
