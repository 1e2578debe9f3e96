import Uplink.Url.Reader

namespace Uplink.Url

def withSuffix (u : Url) (cs : List Char) : Url :=
  match cs with
  | '?' :: rest =>
    let fragment := match rest.dropWhile (· ≠ '#') with
      | '#' :: more => some (encode inFragment more)
      | _ => none
    { u with query := some (encode inQuery (rest.takeWhile (· ≠ '#'))), fragment }
  | '#' :: rest => { u with query := none, fragment := some (encode inFragment rest) }
  | _ => { u with query := none, fragment := none }

/-- The URL a reference in the document of a URL leads to. -/
def join (base : Url) (text : String) : Except UrlError Target := do
  let cs := cleaned text.toList
  if (readScheme cs).isSome then parse text
  else
    let pathText := cs.takeWhile fun c => c ≠ '?' ∧ c ≠ '#'
    let suffix := cs.drop pathText.length
    match cs with
    | c :: d :: _ =>
      if isSlash true c ∧ isSlash true d then return .web (← readWeb base.scheme cs)
    | _ => pure ()
    match pathText with
    | [] =>
      match suffix with
      | '#' :: rest => .ok (.web { base with fragment := some (encode inFragment rest) })
      | [] => .ok (.web { base with fragment := none })
      | _ => .ok (.web (base.withSuffix suffix))
    | c :: _ =>
      if isSlash true c then .ok (.web ({ base with path := readPath pathText }.withSuffix suffix))
      else
        let folder := base.path.reverse.dropWhile (· ≠ '/')
        let path := (addSegments folder pathText (pathText.length + 1)).reverse
        .ok (.web ({ base with path }.withSuffix suffix))

end Uplink.Url
