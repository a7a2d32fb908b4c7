import MarkdownIndex.Text.Blank

/-!
# Media types

* `MediaType` — a type, a subtype and the suffix of the subtype behind its last plus sign.
* `MediaType.read?` — the media type of a header; its parameters have to be well formed.
* `MediaType.isJson` — the body is JSON.
-/

namespace MarkdownIndex.Http

/-- What kind of data a body holds. -/
structure MediaType where
  /-- the type, in lower case -/
  kind : List Char
  /-- the subtype, in lower case -/
  subtype : List Char
  /-- what follows the last plus sign of the subtype, if it has one that does not come first -/
  suffix : Option (List Char)
deriving DecidableEq, Repr

namespace MediaType

/-- A character may stand in a name. -/
def inName (c : Char) : Bool :=
  c.isAlphanum || "!#$%&'*+-.^_|~".toList.contains c || c = '\x60'

/-- What follows the last plus sign, if there is one that does not come first. -/
def suffixOf (cs : List Char) : Option (List Char) :=
  match cs.drop 1 with
  | tail =>
    if tail.contains '+' then some (tail.reverse.takeWhile (· != '+')).reverse else none

/-- The rest of a quoted value, behind its closing quote. -/
def afterQuoted? : List Char → Option (List Char)
  | [] => none
  | '\"' :: cs => some cs
  | c :: cs => if c.toNat < 32 ∨ c.toNat = 127 then none else afterQuoted? cs

/-- The text after a semicolon is a list of parameters. -/
def wellFormed : (fuel : Nat) → List Char → Bool
  | 0, _ => false
  | fuel + 1, cs =>
    let cs := cs.dropWhile (· == ' ')
    if cs.isEmpty then true
    else
      let name := cs.takeWhile inName
      match cs.drop name.length with
      | '=' :: '\"' :: rest =>
        !name.isEmpty && match afterQuoted? rest with
          | some [] => true
          | some (';' :: rest) => wellFormed fuel rest
          | _ => false
      | '=' :: rest =>
        let value := rest.takeWhile inName
        !name.isEmpty && !value.isEmpty && match rest.drop value.length with
          | [] => true
          | ';' :: rest => wellFormed fuel rest
          | _ => false
      | _ => false

/-- The media type of a header. -/
def read? (s : String) : Option MediaType :=
  let cs := s.toList
  let kind := cs.takeWhile inName
  match cs.drop kind.length with
  | '/' :: rest =>
    let subtype := rest.takeWhile inName
    let tail := rest.drop subtype.length
    let good := match tail with
      | [] => true
      | ';' :: parameters => wellFormed (parameters.length + 1) parameters
      | _ => false
    if !kind.isEmpty && !subtype.isEmpty && good then
      let subtype := subtype.map Char.toLower
      some ⟨kind.map Char.toLower, subtype, suffixOf subtype⟩
    else none
  | _ => none

/-- The body is JSON: the subtype or its suffix says so. -/
def isJson (m : MediaType) : Bool :=
  m.kind == "application".toList &&
    (m.subtype == "json".toList || m.suffix == some "json".toList)

end MediaType

end MarkdownIndex.Http
