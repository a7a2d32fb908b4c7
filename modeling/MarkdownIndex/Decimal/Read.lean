import MarkdownIndex.Decimal.Shortest

/-!
# Reading decimals: the float nearest to a spelled number
-/

namespace MarkdownIndex.Decimal

/-- The 64-bit float nearest to a decimal. Decimals far beyond the floats and far below them are
told by their number of digits alone. -/
def Scientific.toFloat (d : Scientific) : Float :=
  let magnitude : Int := digitCount d.coefficient + d.exponent
  if d.coefficient = 0 ∨ magnitude < -330 then 0
  else if 310 < magnitude then 1 / 0
  else Float.ofScientific d.coefficient (d.exponent < 0) d.exponent.natAbs

end MarkdownIndex.Decimal
