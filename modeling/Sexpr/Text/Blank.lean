import Sexpr.Text.CodeRange

/-!
# Blank characters

The characters with the Unicode property `White_Space`. They separate the words of a text when
it is cut without a separator.
-/

namespace Sexpr.Text

/-- The ranges of the property `White_Space`. -/
def blankRanges : List CodeRange :=
  [⟨0x0009, 0x000D⟩, ⟨0x0020, 0x0020⟩, ⟨0x0085, 0x0085⟩, ⟨0x00A0, 0x00A0⟩, ⟨0x1680, 0x1680⟩,
   ⟨0x2000, 0x200A⟩, ⟨0x2028, 0x2029⟩, ⟨0x202F, 0x202F⟩, ⟨0x205F, 0x205F⟩, ⟨0x3000, 0x3000⟩]

/-- Whether `c` separates words. -/
def isBlank (c : Char) : Bool := CodeRange.cover blankRanges c.toNat

end Sexpr.Text
