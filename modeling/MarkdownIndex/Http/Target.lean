import MarkdownIndex.Text.Blank

/-!
# Targets: what a request line asks for

* `Target` — a path and a query.
* `Target.read?` — the target of a request line: a path with a query, a whole address, a host alone,
  or a star. What follows a `#` is dropped.
-/

namespace MarkdownIndex.Http

/-- What a request is about. -/
structure Target where
  /-- the path as it is spelled -/
  path : String
  /-- the query, if there is one -/
  query : Option String
deriving DecidableEq, Repr

namespace Target

/-- A character may stand in a path. -/
def inPath (c : Char) : Bool :=
  let n := c.toNat
  n = 0x21 || n = 0x22 || (0x24 ≤ n && n ≤ 0x3B) || n = 0x3D || (0x40 ≤ n && n ≤ 0x5F) ||
    (0x61 ≤ n && n ≤ 0x7E) || 0x7F ≤ n

/-- A character may stand in a query. -/
def inQuery (c : Char) : Bool :=
  let n := c.toNat
  n = 0x21 || (0x24 ≤ n && n ≤ 0x3B) || n = 0x3D || 0x3F ≤ n

/-- A character may stand in a host with its port. -/
def inAuthority (c : Char) : Bool :=
  c.isAlphanum || "-._~!$&'()*+,;=:@%[]".toList.contains c

/-- The target of a text that begins with its path. -/
def ofPath? (cs : List Char) : Option Target :=
  let path := cs.takeWhile fun c => c != '?' && c != '#'
  let rest := cs.dropWhile fun c => c != '?' && c != '#'
  if path.all inPath then
    match rest with
    | '?' :: q =>
      let query := q.takeWhile (· != '#')
      if query.all inQuery then some ⟨String.ofList path, some (String.ofList query)⟩ else none
    | _ => some ⟨String.ofList path, none⟩
  else none

/-- What follows the scheme of a whole address. -/
def afterScheme? (cs : List Char) : Option (List Char) :=
  let scheme := cs.takeWhile (· != ':')
  match cs.dropWhile (· != ':') with
  | ':' :: '/' :: '/' :: rest =>
    if !scheme.isEmpty && scheme.all fun c => c.isAlphanum || "+-.".toList.contains c then
      some rest
    else none
  | _ => none

/-- A host is named, and nothing else. -/
def isAuthority (cs : List Char) : Bool :=
  !cs.isEmpty && cs.all inAuthority

/-- The target of a text. -/
def read? (s : String) : Option Target :=
  match s.toList with
  | [] => none
  | ['*'] => some ⟨"*", none⟩
  | '/' :: cs => ofPath? ('/' :: cs)
  | cs =>
    match afterScheme? cs with
    | some rest =>
      let host := rest.takeWhile fun c => c != '/' && c != '?' && c != '#'
      let tail := rest.drop host.length
      if isAuthority host then
        (ofPath? tail).map fun t => { t with path := if t.path = "" then "/" else t.path }
      else none
    | none => if isAuthority cs then some ⟨"", none⟩ else none

end Target

end MarkdownIndex.Http
