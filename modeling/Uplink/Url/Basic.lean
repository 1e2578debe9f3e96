import Uplink.Url.Host

namespace Uplink

/-- A URL with a host. The text before the at sign is empty when nothing stands there, and the port
is left out when it is the usual one. -/
structure Url where
  scheme : String
  username : List Char
  password : List Char
  host : Url.Host
  port : Option Nat
  path : List Char
  query : Option (List Char)
  fragment : Option (List Char)
  deriving DecidableEq, Repr

namespace Url

/-- What stands before the at sign, and the sign. -/
def userinfo (u : Url) : List Char :=
  if u.username = [] ∧ u.password = [] then []
  else u.username ++ (if u.password = [] then [] else ':' :: u.password) ++ ['@']

def render (u : Url) : String :=
  String.ofList (u.scheme.toList ++ ':' :: '/' :: '/' :: u.userinfo ++ u.host.render
    ++ (u.port.elim [] fun n => ':' :: Text.Decimal.digits n) ++ u.path
    ++ (u.query.elim [] fun q => '?' :: q) ++ (u.fragment.elim [] fun f => '#' :: f))

def anonymous (u : Url) : Url := { u with username := [], password := [] }

/-- The port of a scheme when none is given. -/
def usualPort (scheme : String) : Option Nat :=
  if scheme = "http" ∨ scheme = "ws" then some 80
  else if scheme = "https" ∨ scheme = "wss" then some 443
  else if scheme = "ftp" then some 21
  else none

end Url

end Uplink
