import Uplink.Webhook.Endpoints

namespace Uplink.Webhook

/-- What the settings of a webhook are taken in with: the reading of URLs, and the table in which
the header fields are kept for the requests. Where the table has no room, the program breaks off. -/
structure Client where
  parse : String → Except Url.UrlError Url.Target
  parse_other : ∀ {text scheme}, parse text = .ok (.other scheme) →
    ¬(scheme = "http" ∨ scheme = "https")
  /-- A table can be made for so many fields. -/
  opens : Nat → Bool
  /-- A table made for so many fields takes a name behind those that were put into it before. -/
  takes : Nat → List String → String → Bool

namespace Client

/-- Checks header fields one by one and keeps them in a table made for `room` of them; `taken` are
the names that were put into it. There is no result where it does not take the next one. -/
def keepFields (c : Client) (room : Nat) (taken : List String) (done : Headers) :
    List (String × String) → Option (Except EndpointError Headers)
  | [] => some (.ok done)
  | (name, value) :: rest =>
    match headerName? name with
    | none => some (.error (.badHeaderName name))
    | some lower =>
      if isHeaderValue value then
        if c.takes room taken lower then
          keepFields c room (taken ++ [lower]) (done.set lower value) rest
        else none
      else some (.error (.badHeaderValue name))

/-- Where settings lead, if the program does not break off. The table is made first, for all fields
of the settings at once. -/
def endpoints? (c : Client) (s : Settings) : Option (Except EndpointError Endpoints) :=
  if c.opens s.headers.length then
    (c.keepFields s.headers.length [] [] s.headers).map fun kept =>
      kept >>= Endpoints.withUrls c.parse s
  else none

/-- The places of a table, of which it fills three in four. -/
def places : Nat := 32768

/-- A client whose table takes whatever it is made for. -/
def usual : Client where
  parse := Url.parse
  parse_other := Url.parse_other
  opens fields := fields + fields / 3 ≤ places
  takes _ _ _ := true

end Client

end Uplink.Webhook
