import MarkdownIndex.Decimal.Integer
import MarkdownIndex.Http.Percent
import MarkdownIndex.Text.Blank

/-!
# Addresses

An address is brought into the form in which it is sent: the host in lower case, the usual port left
out, dot segments resolved, and every byte that may not stand in a path or a query written in its
percent form.

* `Url` — scheme, host, port, path and query.
* `Url.parse?` — the address that a text stands for.
* `pathSegments` — the segments of a path without dot segments.
* `Url.target`, `Url.toString` — what the request line asks for, and the whole address.
-/

namespace MarkdownIndex.Http

open Text

/-! ## Addresses -/

/-- An address of the web. -/
structure Url where
  /-- the traffic is encrypted -/
  secure : Bool
  /-- name and password in front of the host, with the sign that ends them -/
  user : List Char := []
  /-- the host, in lower case -/
  host : List Char
  /-- the port, unless it is the usual one -/
  port : Option Nat
  /-- the path, from its first slash on -/
  path : List Char
  /-- the query, if there is one -/
  query : Option (List Char)
  /-- what follows a `#`; it is not sent -/
  fragment : Option (List Char) := none
deriving DecidableEq, Repr

namespace Url

/-! ## Bytes in percent form -/

/-- A byte of a text may not stand in an address as it is. -/
def alwaysEncoded (b : UInt8) : Bool :=
  b ≤ 32 || 127 ≤ b || b = 34 || b = 60 || b = 62

/-- A byte may not stand in a path: blanks, quotes, angles, braces, a number sign, a question mark,
a caret and a back quote. -/
def encodedInPath (b : UInt8) : Bool :=
  alwaysEncoded b || b = 35 || b = 63 || b = 94 || b = 96 || b = 123 || b = 125

/-- A byte may not stand in a query: blanks, quotes, angles and a number sign. -/
def encodedInQuery (b : UInt8) : Bool :=
  alwaysEncoded b || b = 35 || b = 39

/-- A byte may not stand in a fragment: blanks, quotes, angles and a back quote. -/
def encodedInFragment (b : UInt8) : Bool :=
  alwaysEncoded b || b = 96

/-- The characters of a text with the bytes of a class in percent form. -/
def percentEncode (encoded : UInt8 → Bool) (cs : List Char) : List Char :=
  (encode cs).flatMap fun b => if encoded b then percentByte b else [charOfByte b]

/-! ## Paths -/

/-- A segment stands for the directory it is in. -/
def isDot (s : List Char) : Bool :=
  let s := s.map Char.toLower
  s == ['.'] || s == "%2e".toList

/-- A segment stands for the directory above. -/
def isTwoDots (s : List Char) : Bool :=
  let s := s.map Char.toLower
  s == "..".toList || s == ".%2e".toList || s == "%2e.".toList || s == "%2e%2e".toList

/-- Segments without dot segments, the latest first, given those before them. A dot segment at the
end leaves an empty one. -/
def resolveSegments (done : List (List Char)) : List (List Char) → List (List Char)
  | [] => done
  | [s] =>
    if isTwoDots s then [] :: done.drop 1
    else if isDot s then [] :: done
    else percentEncode encodedInPath s :: done
  | s :: rest =>
    if isTwoDots s then resolveSegments (done.drop 1) rest
    else if isDot s then resolveSegments done rest
    else resolveSegments (percentEncode encodedInPath s :: done) rest

/-- The segments of a path that follow its first slash. A backslash counts as a slash. -/
def pathSegments (cs : List Char) : List (List Char) :=
  (resolveSegments [] (splitAtClass (fun c => c == '/' || c == '\\') cs)).reverse

/-- A path: each segment behind a slash. -/
def joinPath (segments : List (List Char)) : List Char :=
  segments.flatMap ('/' :: ·)

/-! ## Hosts -/

/-- A character may not stand in a host. -/
def forbiddenInHost (c : Char) : Bool :=
  c.toNat ≤ 32 || c.toNat = 127 || "#/:<>?@[\\]^|%".toList.contains c

/-- A host in lower case; none if it is empty or has a character that no host has. Hosts beyond
ASCII are not read. -/
def host? (cs : List Char) : Option (List Char) :=
  match cs with
  | [] => none
  | '[' :: rest =>
    if rest.getLast? = some ']' ∧
        rest.dropLast.all (fun c => (hexValue? c).isSome || c = ':' || c = '.') then
      some (cs.map Char.toLower)
    else none
  | cs =>
    if cs.any fun c => forbiddenInHost c || 127 < c.toNat then none
    else some (cs.map Char.toLower)

/-- The port of an address: digits, or nothing for the usual one. -/
def port? (secure : Bool) (cs : List Char) : Option (Option Nat) :=
  if cs.all Char.isDigit then
    let n := Decimal.ofDigits 0 cs
    if cs.isEmpty then some none
    else if 65535 < n then none
    else if n = (if secure then 443 else 80) then some none
    else some (some n)
  else none

/-- Host and port, split at the colon that follows the host. -/
def splitPort (cs : List Char) : List Char × List Char :=
  let behind := (cs.reverse.takeWhile fun c => c != ':' && c != ']').reverse
  match (cs.take (cs.length - behind.length)).getLast? with
  | some ':' => (cs.take (cs.length - behind.length - 1), behind)
  | _ => (cs, [])

/-! ## Reading -/

/-- A blank or control character. -/
def isControl (c : Char) : Bool := c.toNat ≤ 32

/-- A text without blanks around it and without line breaks and tabs inside. -/
def tidy (cs : List Char) : List Char :=
  let cs := cs.dropWhile isControl
  let cs := (cs.reverse.dropWhile isControl).reverse
  cs.filter fun c => c != '\t' && c != '\n' && c != '\r'

/-- The scheme of an address and what follows it. -/
def scheme? (cs : List Char) : Option (Bool × List Char) :=
  let name := (cs.takeWhile (· != ':')).map Char.toLower
  let rest := (cs.dropWhile (· != ':')).drop 1
  if cs.contains ':' then
    if name = "http".toList then some (false, rest)
    else if name = "https".toList then some (true, rest)
    else none
  else none

/-- The address that a text stands for. -/
def parse? (s : String) : Option Url := do
  let (secure, rest) ← scheme? (tidy s.toList)
  let rest := rest.dropWhile fun c => c == '/' || c == '\\'
  let authority := rest.takeWhile fun c => !"/\\?#".toList.contains c
  let rest := rest.drop authority.length
  let hostPort := (authority.reverse.takeWhile (· != '@')).reverse
  let user := authority.take (authority.length - hostPort.length)
  let (name, number) := splitPort hostPort
  let host ← host? name
  let port ← port? secure number
  let body := rest.takeWhile (· != '#')
  let fragment := (rest.drop body.length).drop 1
  let path := body.takeWhile (· != '?')
  let query := (body.drop path.length).drop 1
  return {
    secure, user, host, port
    path := joinPath (pathSegments (path.drop 1))
    query := if body.length = path.length then none else some (percentEncode encodedInQuery query)
    fragment := if rest.length = body.length then none
      else some (percentEncode encodedInFragment fragment) }

/-! ## Writing -/

/-- What the request line asks for. -/
def target (u : Url) : String :=
  String.ofList (u.path ++ match u.query with
    | some q => '?' :: q
    | none => [])

/-- The whole address. -/
def toString (u : Url) : String :=
  let port := match u.port with
    | some n => ":" ++ ToString.toString n
    | none => ""
  let fragment := match u.fragment with
    | some f => "#" ++ String.ofList f
    | none => ""
  (if u.secure then "https://" else "http://") ++ String.ofList (u.user ++ u.host) ++ port ++
    u.target ++ fragment

end Url

end MarkdownIndex.Http
