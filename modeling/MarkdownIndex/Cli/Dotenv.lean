import MarkdownIndex.Config
import MarkdownIndex.Text.Alphanumeric
import MarkdownIndex.Text.Utf8

/-!
# Variables from a file

A file may give values to variables that the environment does not set. A line holds a name, an
equals sign and a value; quotes may span lines, a comment follows a blank and a number sign, and a
dollar sign stands before the name of a variable whose value is put in.

* `logicalLines` — lines, those joined that a quote spans.
* `parseValue` — a value, with its quotes, escapes and variables resolved.
* `parseLine` — a name and its value; blank lines and comments have none.
* `load` — an environment with the variables of a file; the first line that cannot be read ends it.
-/

namespace MarkdownIndex.Dotenv

open Text

/-! ## Lines -/

/-- What the end of a piece of text is inside of. -/
inductive LineState where
  /-- nothing -/
  | plain
  /-- a blank -/
  | blank
  /-- a character behind a backslash -/
  | escaped
  /-- double quotes -/
  | weak
  /-- a character behind a backslash in double quotes -/
  | weakEscaped
  /-- single quotes -/
  | strong
  /-- a character behind a backslash in single quotes -/
  | strongEscaped
deriving DecidableEq, Repr

/-- The state behind a character that stands outside quotes. -/
def LineState.outside (c : Char) : LineState :=
  if c = '\\' then .escaped
  else if c = '\"' then .weak
  else if c = '\'' then .strong
  else .plain

/-- The state behind a character; none where a comment begins. -/
def LineState.next? (s : LineState) (c : Char) : Option LineState :=
  match s with
  | .blank => if c = '#' then none else some (.outside c)
  | .escaped => some .plain
  | .plain =>
    if isBlank c ∧ c ≠ '\n' ∧ c ≠ '\r' then some .blank else some (.outside c)
  | .weak =>
    if c = '\\' then some .weakEscaped else if c = '\"' then some .plain else some .weak
  | .weakEscaped => some .weak
  | .strong =>
    if c = '\\' then some .strongEscaped else if c = '\'' then some .plain else some .strong
  | .strongEscaped => some .strong

/-- The part of a line before its comment, and the state at its end; none in a comment. -/
def scanLine (s : LineState) : List Char → List Char × Option LineState
  | [] => ([], some s)
  | c :: cs =>
    match s.next? c with
    | none => ([], none)
    | some s =>
      let (kept, state) := scanLine s cs
      (c :: kept, state)

/-- Lines with their line ends. -/
def rawLines : List Char → List (List Char)
  | [] => []
  | c :: cs =>
    if c = '\n' then ['\n'] :: rawLines cs
    else match rawLines cs with
      | l :: ls => (c :: l) :: ls
      | [] => [[c]]

/-- A line without its line end. -/
def chomp (l : List Char) : List Char :=
  match l.reverse with
  | '\n' :: '\r' :: r => r.reverse
  | '\n' :: r => r.reverse
  | _ => l

/-- Lines, those joined that quotes span; none stands for a text that ends inside of something. -/
def logicalLines (begun : List Char) (s : LineState) : List (List Char) → List (Option (List Char))
  | [] => if s = .plain then [] else [none]
  | l :: ls =>
    if ((begun ++ l).dropWhile isBlank).head? = some '#' then
      some [] :: logicalLines [] .plain ls
    else match scanLine s l with
      | (kept, none) => some (begun ++ kept) :: logicalLines [] .plain ls
      | (_, some .plain) => some (chomp (begun ++ l)) :: logicalLines [] .plain ls
      | (_, some s) => logicalLines (begun ++ l) s ls

/-! ## Values -/

/-- The name of a variable that is being read. -/
inductive Substitution where
  /-- none -/
  | none
  /-- a name behind a dollar sign -/
  | bare (name : List Char)
  /-- a name in braces -/
  | braced (name : List Char)
deriving DecidableEq, Repr

/-- A value that is being read. -/
structure ValueState where
  /-- the value so far, its last character first -/
  output : List Char := []
  /-- inside single quotes -/
  strong : Bool := false
  /-- inside double quotes -/
  weak : Bool := false
  /-- behind a backslash -/
  escaped : Bool := false
  /-- behind the value, where only a comment may come -/
  ended : Bool := false
  /-- the name of a variable that is being read -/
  substitution : Substitution := .none

namespace ValueState

/-- The value with a character added. -/
def push (v : ValueState) (c : Char) : ValueState := { v with output := c :: v.output }

/-- The value with that of a variable added. -/
def pushVariable (env : Environment) (v : ValueState) (name : List Char) : ValueState :=
  { v with output := ((env (String.ofList name)).getD "").toList.reverse ++ v.output
           substitution := .none }

/-- The value behind a character that is not part of a name. -/
def plain (v : ValueState) (c : Char) : ValueState :=
  if c = '$' then { v with substitution := .bare [] }
  else if v.weak then
    if c = '\"' then { v with weak := false }
    else if c = '\\' then { v with escaped := true }
    else v.push c
  else if c = '\'' then { v with strong := true }
  else if c = '\"' then { v with weak := true }
  else if c = '\\' then { v with escaped := true }
  else if c = ' ' ∨ c = '\t' then { v with ended := true }
  else v.push c

/-- The value behind a character that ends a name; it is taken as it is. -/
def afterName (env : Environment) (v : ValueState) (name : List Char) (c : Char) : ValueState :=
  let v := v.pushVariable env name
  if c = '$' then { v with substitution := .bare [] } else v.push c

/-- The value behind a character; none if the character may not stand there. -/
def next? (env : Environment) (v : ValueState) (c : Char) : Option ValueState :=
  if v.escaped then
    if c = '\\' ∨ c = '\'' ∨ c = '\"' ∨ c = '$' ∨ c = ' ' then
      some { v.push c with escaped := false }
    else if c = 'n' then some { v.push '\n' with escaped := false }
    else none
  else if v.strong then
    if c = '\'' then some { v with strong := false } else some (v.push c)
  else match v.substitution with
    | .bare name =>
      if isAlphanumeric c then some { v with substitution := .bare (name ++ [c]) }
      else if c = '\x7b' ∧ name.isEmpty then some { v with substitution := .braced [] }
      else some (v.afterName env name c)
    | .braced name =>
      if c = '\x7d' then some (v.pushVariable env name)
      else some { v with substitution := .braced (name ++ [c]) }
    | .none => some (v.plain c)

/-- The value at the end of its text; none inside quotes or braces. -/
def finish? (env : Environment) (v : ValueState) : Option String :=
  match v.strong || v.weak, v.substitution with
  | true, _ => none
  | false, .braced _ => none
  | false, .bare name => some (String.ofList (v.pushVariable env name).output.reverse)
  | false, .none => some (String.ofList v.output.reverse)

end ValueState

/-- A value from a state on. Behind the value only blanks and a comment may come. -/
def parseValueFrom (env : Environment) (v : ValueState) : List Char → Option String
  | [] => v.finish? env
  | c :: cs =>
    if v.ended then
      if c = ' ' ∨ c = '\t' then parseValueFrom env v cs
      else if c = '#' then v.finish? env
      else none
    else (v.next? env c).bind fun v => parseValueFrom env v cs

/-- The value that a text stands for. -/
def parseValue (env : Environment) (cs : List Char) : Option String :=
  parseValueFrom env {} cs

/-! ## Variables -/

/-- A name and what follows it. -/
def parseName (cs : List Char) : Option (List Char × List Char) :=
  match cs with
  | [] => none
  | c :: _ =>
    if c.isAlpha ∨ c = '_' then
      let name := cs.takeWhile fun c => c.isAlphanum || c = '_' || c = '.'
      some (name, cs.drop name.length)
    else none

/-- What follows an equals sign. -/
def afterEquals : List Char → Option (List Char)
  | '=' :: cs => some cs
  | _ => none

/-- A name and the text of its value. The word `export` may come first. -/
def splitLine (cs : List Char) : Option (List Char × List Char) := do
  let (name, rest) ← parseName cs
  let rest := rest.dropWhile isBlank
  if name = "export".toList then
    match afterEquals rest with
    | some value => return (name, value)
    | none =>
      let (name, rest) ← parseName rest
      return (name, ← afterEquals (rest.dropWhile isBlank))
  else return (name, ← afterEquals rest)

/-- What a line says: nothing, or a name with a value. -/
def parseLine (env : Environment) (line : List Char) : Option (Option (String × String)) :=
  let cs := line.dropWhile isBlank
  if cs.isEmpty ∨ cs.head? = some '#' then some none
  else do
    let (name, value) ← splitLine cs
    let value := value.dropWhile isBlank
    if value.isEmpty ∨ value.head? = some '#' then return some (String.ofList name, "")
    else return some (String.ofList name, ← parseValue env value)

/-- An environment with a variable that counts only if it is not set. -/
def addVariable (env : Environment) (name value : String) : Environment := fun n =>
  (env n).or (if n = name then some value else none)

/-- The values that are put in: those that are set, else the latest in the file. -/
def lookupIn (env : Environment) (seen : List (String × String)) : Environment := fun n =>
  (env n).or (seen.lookup n)

/-- An environment with the variables of lines, given those of the lines before. -/
def loadLines (env : Environment) (seen : List (String × String)) :
    List (Option (List Char)) → Environment
  | [] => env
  | none :: _ => env
  | some l :: ls =>
    match parseLine (lookupIn env seen) l with
    | none => env
    | some none => loadLines env seen ls
    | some (some (name, value)) =>
      loadLines (addVariable env name value) ((name, value) :: seen) ls

/-- A text without the mark that may come first. -/
def withoutMark : List Char → List Char
  | '\uFEFF' :: cs => cs
  | cs => cs

/-- An environment with the variables of a file. -/
def load (env : Environment) (content : String) : Environment :=
  loadLines env [] (logicalLines [] .plain (rawLines (withoutMark content.toList)))

end MarkdownIndex.Dotenv
