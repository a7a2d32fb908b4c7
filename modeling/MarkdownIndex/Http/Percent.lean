import MarkdownIndex.Text.Hex
import MarkdownIndex.Text.Utf8

/-!
# Percent encoding

A byte may be written as a percent sign and two hexadecimal digits.

* `percentDecode` — the bytes of a text; a percent sign without two digits stands for itself.
* `percentByte` — a byte in that form.
* `formPairs` — names and values of a query: pairs stand between ampersands, a name ends at the
  first equals sign, and a plus sign is a space.
-/

namespace MarkdownIndex.Http

open Text

/-! ## Bytes -/

/-- The character of an ASCII byte. -/
def charOfByte (b : UInt8) : Char := Char.ofNat b.toNat

/-- The number that two hexadecimal digits stand for. -/
def hexPair? (h l : UInt8) : Option UInt8 := do
  let high ← hexValue? (charOfByte h)
  let low ← hexValue? (charOfByte l)
  return (high * 16 + low).toUInt8

/-- Bytes with their percent forms resolved. -/
def percentDecode : List UInt8 → List UInt8
  | 37 :: h :: l :: rest =>
    match hexPair? h l with
    | some b => b :: percentDecode rest
    | none => 37 :: percentDecode (h :: l :: rest)
  | b :: rest => b :: percentDecode rest
  | [] => []

/-- A byte as a percent sign and two digits in upper case. -/
def percentByte (b : UInt8) : List Char :=
  ['%', (hexDigit (b.toNat / 16)).toUpper, (hexDigit (b.toNat % 16)).toUpper]

/-! ## Queries -/

/-- Bytes with spaces in place of plus signs. -/
def plusToSpace (bs : List UInt8) : List UInt8 :=
  bs.map fun b => if b = 43 then 32 else b

/-- The text of a name or a value; what is not UTF-8 is replaced. -/
def formText (bs : List UInt8) : String :=
  String.ofList (decodeLossy (percentDecode (plusToSpace bs)))

/-- The pieces of a list between occurrences of an element. -/
def splitAt (sep : UInt8) : List UInt8 → List (List UInt8)
  | [] => [[]]
  | b :: bs =>
    if b = sep then [] :: splitAt sep bs
    else match splitAt sep bs with
      | p :: ps => (b :: p) :: ps
      | [] => [[b]]

/-- A pair of a query. -/
def formPair (piece : List UInt8) : String × String :=
  (formText (piece.takeWhile (· != 61)), formText ((piece.dropWhile (· != 61)).drop 1))

/-- The pairs of a query, in order; empty pieces are none. -/
def formPairs (query : String) : List (String × String) :=
  ((splitAt 38 (encode query.toList)).filter (!·.isEmpty)).map formPair

end MarkdownIndex.Http
