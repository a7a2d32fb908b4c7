import MarkdownIndex.Json.Number
import MarkdownIndex.Decimal.Layout
import MarkdownIndex.Text.Hex

/-!
# JSON values and their text

* `Json` — a value; the members of an object keep their order.
* `quote` — a string in quotes.
* `Json.compact` — the text without white space.
* `Json.pretty` — the text with one item a line and two spaces of indentation a level.
-/

namespace MarkdownIndex

/-! ## Values -/

/-- A JSON value. -/
inductive Json where
  /-- `null` -/
  | null
  /-- `true` or `false` -/
  | bool (b : Bool)
  /-- a number -/
  | number (n : Json.Number)
  /-- a string -/
  | string (s : String)
  /-- an array -/
  | array (items : List Json)
  /-- an object, its members in order -/
  | object (members : List (String × Json))
deriving Inhabited

namespace Json

open Decimal

/-- A natural number as a value. -/
def nat (n : Nat) : Json := .number (.int n)

/-- An integer as a value. -/
def int (n : Int) : Json := .number (.int n)

/-- A float as a value. -/
def float (x : Float) : Json := .number (.float x)

/-- A value or `null`. -/
def ofOption (f : α → Json) : Option α → Json
  | none => .null
  | some a => f a

/-- The member with a given name. -/
def get? (key : String) : Json → Option Json
  | .object members => members.lookup key
  | _ => none

/-! ## Text -/

/-- Floats show their shortest decimal: positional from `0.00001` to below `10^16`, with `.0` after
a whole number, else with a signed exponent; what is not finite is `null`. -/
def floatLayout : Layout where
  positionalRange := some (-5, 15)
  whole := ['.', '0']
  exponentPlus := ['+']
  notNumber := "null"
  infinity := "null"

/-- The text of a float. -/
def floatText (x : Float) : String :=
  if x.isFinite then floatLayout.write (double.read x.toBits.toNat) else "null"

/-- The text of a number. -/
def Number.text : Number → String
  | .int n => toString n
  | .float x => floatText x

/-- A character inside a string. -/
def escape (c : Char) : List Char :=
  if c = '\"' then ['\\', '\"']
  else if c = '\\' then ['\\', '\\']
  else if c = '\n' then ['\\', 'n']
  else if c = '\r' then ['\\', 'r']
  else if c = '\t' then ['\\', 't']
  else if c.toNat = 8 then ['\\', 'b']
  else if c.toNat = 12 then ['\\', 'f']
  else if c.toNat < 32 then
    ['\\', 'u', '0', '0', Text.hexDigit (c.toNat / 16), Text.hexDigit (c.toNat % 16)]
  else [c]

/-- A string in quotes. -/
def quote (s : String) : List Char :=
  '\"' :: s.toList.flatMap escape ++ ['\"']

mutual

/-- The characters of a value without white space. -/
def compactChars : Json → List Char
  | .null => "null".toList
  | .bool b => (if b then "true" else "false").toList
  | .number n => n.text.toList
  | .string s => quote s
  | .array items => '[' :: compactItems items
  | .object members => '\x7b' :: compactMembers members

/-- The items of an array and its closing bracket. -/
def compactItems : List Json → List Char
  | [] => [']']
  | [v] => compactChars v ++ [']']
  | v :: vs => compactChars v ++ ',' :: compactItems vs

/-- The members of an object and its closing brace. -/
def compactMembers : List (String × Json) → List Char
  | [] => ['\x7d']
  | [(k, v)] => quote k ++ ':' :: compactChars v ++ ['\x7d']
  | (k, v) :: ms => quote k ++ ':' :: compactChars v ++ ',' :: compactMembers ms

end

/-- The text of a value without white space. -/
def compact (v : Json) : String :=
  String.ofList v.compactChars

/-- A line end and the indentation of a level. -/
def newLine (level : Nat) : List Char :=
  '\n' :: List.replicate (2 * level) ' '

mutual

/-- The characters of a value at a level of indentation, spread over lines. -/
def prettyChars (level : Nat) : Json → List Char
  | .null => "null".toList
  | .bool b => (if b then "true" else "false").toList
  | .number n => n.text.toList
  | .string s => quote s
  | .array [] => ['[', ']']
  | .array (v :: vs) => '[' :: prettyItems level (v :: vs)
  | .object [] => ['\x7b', '\x7d']
  | .object (m :: ms) => '\x7b' :: prettyMembers level (m :: ms)

/-- The items of an array, each on its own line, and its closing bracket. -/
def prettyItems (level : Nat) : List Json → List Char
  | [] => newLine level ++ [']']
  | [v] => newLine (level + 1) ++ prettyChars (level + 1) v ++ prettyItems level []
  | v :: vs => newLine (level + 1) ++ prettyChars (level + 1) v ++ ',' :: prettyItems level vs

/-- The members of an object, each on its own line, and its closing brace. -/
def prettyMembers (level : Nat) : List (String × Json) → List Char
  | [] => newLine level ++ ['\x7d']
  | [(k, v)] =>
    newLine (level + 1) ++ quote k ++ ':' :: ' ' :: prettyChars (level + 1) v ++
      prettyMembers level []
  | (k, v) :: ms =>
    newLine (level + 1) ++ quote k ++ ':' :: ' ' :: prettyChars (level + 1) v ++
      ',' :: prettyMembers level ms

end

/-- The text of a value, spread over lines. -/
def pretty (v : Json) : String :=
  String.ofList (v.prettyChars 0)

end Json

end MarkdownIndex
