import MarkdownIndex.Decimal.Layout

/-!
# Embedding vectors: similarity, length and text

A text is embedded as a vector of 32-bit floats. Sums run in index order, one rounding an
operation.

* `Embedding` — a vector.
* `cosine` — the cosine of the angle between two vectors; zero if it is not defined.
* `normalize` — a vector scaled to length one; a vector too short for that is left alone.
* `literal` — the text of a vector as the database reads it.
-/

namespace MarkdownIndex

open Decimal

/-- A vector that stands for a text. -/
abbrev Embedding := List Float32

namespace Embedding

/-- The distance from one to the next 32-bit float. -/
def epsilon : Float32 := Float32.ofBits 0x34000000

/-- The sums that a cosine is made of: the inner product and the two squared lengths. -/
structure Sums where
  /-- inner product -/
  dot : Float32 := 0
  /-- squared length of the first vector -/
  first : Float32 := 0
  /-- squared length of the second vector -/
  second : Float32 := 0

/-- The sums with one more pair of coordinates. -/
def Sums.add (s : Sums) (x y : Float32) : Sums :=
  ⟨s.dot + x * y, s.first + x * x, s.second + y * y⟩

/-- The cosine of the angle between two vectors: zero for vectors of different or no dimension and
for a product of lengths that is close to zero. -/
def cosine (a b : Embedding) : Float32 :=
  if a.length ≠ b.length ∨ a.isEmpty then 0
  else
    let s : Sums := (a.zip b).foldl (fun (s : Sums) (x, y) => s.add x y) {}
    let lengths := s.first.sqrt * s.second.sqrt
    if lengths < epsilon then 0 else s.dot / lengths

/-- The length of a vector. -/
def norm (v : Embedding) : Float32 :=
  (v.foldl (fun s x => s + x * x) 0).sqrt

/-- A vector scaled to length one, unless its length is close to zero. -/
def normalize (v : Embedding) : Embedding :=
  if epsilon < v.norm then v.map (· / v.norm) else v

/-! ## Text -/

/-- A coordinate shows its shortest decimal, always positional, a whole number without a point. -/
def coordinateLayout : Layout where
  positionalRange := none
  whole := []
  exponentPlus := []
  notNumber := "NaN"
  infinity := "inf"

/-- The text of a coordinate. -/
def coordinateText (x : Float32) : String :=
  coordinateLayout.write (single.read x.toBits.toNat)

/-- The text of a vector: coordinates in brackets with commas between them. -/
def literal (v : Embedding) : String :=
  "[" ++ String.intercalate "," (v.map coordinateText) ++ "]"

end Embedding

end MarkdownIndex
