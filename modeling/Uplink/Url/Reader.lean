import Uplink.Url.Basic

namespace Uplink.Url

open Text

/-- The five schemes that always have a host. -/
def isWeb (scheme : String) : Bool := (usualPort scheme).isSome

/-- Characters that are dropped wherever they stand. -/
def isDropped (c : Char) : Bool := c = '\t' ∨ c = '\n' ∨ c = '\r'

/-- Controls and spaces, which are taken off the two ends. -/
def isEdge (c : Char) : Bool := c.toNat ≤ 0x20

def cleaned (text : List Char) : List Char :=
  let inner := ((text.dropWhile isEdge).reverse.dropWhile isEdge).reverse
  inner.filter (!isDropped ·)

def isSchemeChar (c : Char) : Bool := c.isAlphanum || c == '+' || c == '-' || c == '.'

/-- The scheme in lower case, and what follows its colon. -/
def readScheme (cs : List Char) : Option (String × List Char) :=
  if (cs.head?.map Char.isAlpha).getD false then
    match cs.dropWhile isSchemeChar with
    | ':' :: rest => some (String.ofList ((cs.takeWhile isSchemeChar).map Char.toLower), rest)
    | _ => none
  else none

/-- A slash, or a backslash where one counts as a slash. -/
def isSlash (web : Bool) (c : Char) : Bool := c = '/' ∨ (web ∧ c = '\\')

/-- Where the part with the host ends. -/
def endsAuthority (web : Bool) (c : Char) : Bool := isSlash web c || c == '?' || c == '#'

/-- What stands before the last at sign and behind it. -/
def splitLastAt (cs : List Char) : Option (List Char × List Char) :=
  let behind := (cs.reverse.takeWhile (· ≠ '@')).reverse
  match cs.reverse.dropWhile (· ≠ '@') with
  | [] => none
  | _ :: front => some (front.reverse, behind)

/-- The host as it is written: up to a colon outside brackets. -/
def takeHost (inBrackets : Bool) : List Char → List Char
  | [] => []
  | c :: rest =>
    if c = ':' ∧ !inBrackets then []
    else c :: takeHost (if c = '[' then true else if c = ']' then false else inBrackets) rest

def readPort (n : Nat) (seen : Bool) : List Char → Except UrlError (Option Nat)
  | [] => .ok (if seen then some n else none)
  | c :: rest =>
    match Decimal.digitValue c with
    | some d =>
      if 10 * n + d ≤ 65535 then readPort (10 * n + d) true rest else .error .invalidPort
    | none => .error .invalidPort

structure Authority where
  username : List Char
  password : List Char
  host : Host
  port : Option Nat

/-- Reads what stands between the two slashes and the path. -/
def readAuthority (scheme : String) (web : Bool) (cs : List Char) : Except UrlError Authority := do
  let (user, rest) := match splitLastAt cs with
    | some (user, rest) => (some user, rest)
    | none => (none, cs)
  let given := user.getD []
  let username := encode inUserinfo (given.takeWhile (· ≠ ':'))
  let password := encode inUserinfo ((given.dropWhile (· ≠ ':')).drop 1)
  let hostText := takeHost false rest
  let behind := rest.drop hostText.length
  if hostText.isEmpty then
    if web then throw .emptyHost
    if username ≠ [] ∨ password ≠ [] then throw .emptyHost
    if behind ≠ [] then throw .emptyHost
  let host ← if web then Host.read hostText else Host.readOpaque hostText
  let port ← readPort 0 false (behind.drop 1)
  .ok ⟨username, password, host, if port = usualPort scheme then none else port⟩

/-- A letter and a colon or bar, which paths do not lose. -/
def isDrive : List Char → Bool
  | [c, d] => c.isAlpha && (d == ':' || d == '|')
  | _ => false

/-- A single dot, written plainly or as its byte. -/
def isDot (cs : List Char) : Bool :=
  let low := cs.map Char.toLower
  low = ['.'] ∨ low = ['%', '2', 'e']

/-- Two dots, each written plainly or as its byte. -/
def isDotDot (cs : List Char) : Bool :=
  let low := cs.map Char.toLower
  low = ['.', '.'] ∨ low = ['%', '2', 'e', '.'] ∨ low = ['.', '%', '2', 'e']
    ∨ low = ['%', '2', 'e', '%', '2', 'e']

/-- The last segment of a reversed path that ends in a slash. -/
def lastSegment (path : List Char) : List Char := ((path.drop 1).takeWhile (· ≠ '/')).reverse

/-- Goes up from a reversed path that ends in a slash. The root stays, and so does a drive. -/
def goUp (path : List Char) : List Char :=
  if (path.drop 1).isEmpty ∨ isDrive (lastSegment path) then path
  else (path.drop 1).dropWhile (· ≠ '/')

/-- Adds segments to a reversed path that ends in a slash; `fuel` bounds their number. -/
def addSegments (path : List Char) (cs : List Char) : Nat → List Char
  | 0 => path
  | fuel + 1 =>
    let segment := encode inPath (cs.takeWhile fun c => !isSlash true c)
    match cs.dropWhile fun c => !isSlash true c with
    | [] =>
      if isDotDot segment then goUp path
      else if isDot segment then path
      else segment.reverse ++ path
    | _ :: rest =>
      let path :=
        if isDotDot segment then goUp path
        else if isDot segment then path
        else '/' :: segment.reverse ++ path
      addSegments path rest fuel

/-- The path of a URL of the web. It starts with a slash. -/
def readPath (cs : List Char) : List Char :=
  let cs := if (cs.head?.map (isSlash true)).getD false then cs.drop 1 else cs
  (addSegments ['/'] cs (cs.length + 1)).reverse

inductive Target where
  | web (url : Url)
  /-- A URL of another scheme, of which only that is known. -/
  | other (scheme : String)
  deriving DecidableEq, Repr

def Target.schemeName : Target → String
  | .web url => url.scheme
  | .other scheme => scheme

def readWeb (scheme : String) (cs : List Char) : Except UrlError Url := do
  let cs := cs.dropWhile (isSlash true)
  let authorityText := cs.takeWhile fun c => !endsAuthority true c
  let rest := cs.drop authorityText.length
  let a ← readAuthority scheme true authorityText
  let pathText := rest.takeWhile fun c => c ≠ '?' ∧ c ≠ '#'
  let rest := rest.drop pathText.length
  let (query, rest) := match rest with
    | '?' :: rest =>
      (some (encode inQuery (rest.takeWhile (· ≠ '#'))), rest.dropWhile (· ≠ '#'))
    | rest => (none, rest)
  let fragment := match rest with
    | '#' :: rest => some (encode inFragment rest)
    | _ => none
  .ok ⟨scheme, a.username, a.password, a.host, a.port, readPath pathText, query, fragment⟩

/-- A file may have a host, which has to be a good one. -/
def checkFile (cs : List Char) : Except UrlError Unit :=
  match cs with
  | c :: d :: rest =>
    if isSlash true c ∧ isSlash true d then
      let host := rest.takeWhile fun c => !endsAuthority true c
      if host.isEmpty ∨ isDrive host then .ok () else (Host.read host).map fun _ => ()
    else .ok ()
  | _ => .ok ()

/-- A URL of a scheme of its own may have a host, too. -/
def checkOther (scheme : String) (cs : List Char) : Except UrlError Unit :=
  match cs with
  | '/' :: '/' :: rest => do
    let text := rest.takeWhile fun c => !endsAuthority false c
    let follows := rest.drop text.length
    if text.getLast? = some '@' ∧ text.length = 1 ∧ follows ≠ [] then throw .emptyHost
    let _ ← readAuthority scheme false text
    .ok ()
  | _ => .ok ()

/-- Reads a URL. Names of hosts beyond ASCII are mapped as far as `Domain.normalize` goes: letters of
the European scripts to lower case, wide forms to ASCII. Characters are not composed, other forms of
a character are not replaced by it, and unassigned ones are not refused. -/
def parse (text : String) : Except UrlError Target := do
  match readScheme (cleaned text.toList) with
  | none => throw .relativeWithoutBase
  | some (scheme, rest) =>
    if isWeb scheme then .ok (.web (← readWeb scheme rest))
    else if scheme = "file" then
      checkFile rest
      .ok (.other scheme)
    else
      checkOther scheme rest
      .ok (.other scheme)

theorem isWeb_of_http {scheme : String} (h : scheme = "http" ∨ scheme = "https") :
    isWeb scheme = true := by
  rcases h with rfl | rfl <;> decide

/-- The URLs that are not read in full have other schemes. -/
theorem parse_other {text scheme : String} (h : parse text = .ok (.other scheme)) :
    ¬(scheme = "http" ∨ scheme = "https") := by
  intro hs
  rw [parse] at h
  cases hr : readScheme (cleaned text.toList) with
  | none =>
    rw [hr] at h
    cases h
  | some found =>
    obtain ⟨name, rest⟩ := found
    rw [hr] at h
    simp only at h
    split at h
    · cases hw : readWeb name rest with
      | error y =>
        rw [hw] at h
        cases h
      | ok url =>
        rw [hw] at h
        cases h
    · rename_i hweb
      have hname : name = scheme := by
        split at h
        · cases hc : checkFile rest with
          | error y =>
            rw [hc] at h
            cases h
          | ok _ =>
            rw [hc] at h
            cases h
            rfl
        · cases hc : checkOther name rest with
          | error y =>
            rw [hc] at h
            cases h
          | ok _ =>
            rw [hc] at h
            cases h
            rfl
      exact hweb (isWeb_of_http (hname ▸ hs))

end Uplink.Url
