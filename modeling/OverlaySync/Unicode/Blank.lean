import OverlaySync.Unicode.Ranges

/-! # White space

The characters that separate tokens and that are trimmed from the ends of texts: the Unicode
property `White_Space`. -/

namespace OverlaySync.Unicode

/-- The characters with the Unicode 17.0 property `White_Space`. -/
def blankRanges : Ranges :=
  [(0x0009, 0x000D), (0x0020, 0x0020), (0x0085, 0x0085), (0x00A0, 0x00A0), (0x1680, 0x1680),
   (0x2000, 0x200A), (0x2028, 0x2029), (0x202F, 0x202F), (0x205F, 0x205F), (0x3000, 0x3000)]

/-- Whether a character has the property `White_Space`. -/
def isBlank (c : Char) : Bool :=
  blankRanges.covers c.toNat

/-- The table of blanks is in order, as the search through it needs. -/
theorem blankRanges_isAscending : blankRanges.isAscending = true := by
  decide

/-- The text without the white space at its end. -/
def trimEnd (cs : List Char) : List Char :=
  (cs.reverse.dropWhile isBlank).reverse

/-- The text without the white space at both ends. -/
def trim (cs : List Char) : List Char :=
  trimEnd (cs.dropWhile isBlank)

end OverlaySync.Unicode
