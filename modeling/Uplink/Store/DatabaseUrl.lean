namespace Uplink.Store

def mask : List Char := ['*', '*', '*']

/-- The text up to the last colon, the colon included, when there is one. -/
def upToLastColon (cs : List Char) : List Char :=
  (cs.reverse.dropWhile (· ≠ ':')).reverse

/-- Whether the mark that ends the name of a scheme stands in a text. -/
def hasScheme : List Char → Bool
  | ':' :: '/' :: '/' :: _ => true
  | _ :: rest => hasScheme rest
  | [] => false

/-- Masks what stands between the first at sign and the last colon before it, provided that colon
is not the one of the scheme. -/
def maskPassword (url : String) : String :=
  let cs := url.toList
  let before := cs.takeWhile (· ≠ '@')
  let behind := cs.dropWhile (· ≠ '@')
  let kept := upToLastColon before
  if behind ≠ [] ∧ hasScheme kept.dropLast then String.ofList (kept ++ mask ++ behind) else url

end Uplink.Store
