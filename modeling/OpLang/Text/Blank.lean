import OpLang.Text.Ranges

/-! # Blanks

A blank is a character with the Unicode property `White_Space`. Blanks separate the items of a source
and carry no meaning of their own.
-/

namespace OpLang.Text

/-- The code points with the property `White_Space`, as ascending inclusive ranges. -/
def blankRanges : List (Nat × Nat) :=
  [(0x9, 0xD), (0x20, 0x20), (0x85, 0x85), (0xA0, 0xA0), (0x1680, 0x1680), (0x2000, 0x200A),
   (0x2028, 0x2029), (0x202F, 0x202F), (0x205F, 0x205F), (0x3000, 0x3000)]

/-- Blanks count Unicode spaces and line separators, not only those of ASCII. -/
def isBlank (c : Char) : Bool := inRanges blankRanges c.toNat

end OpLang.Text
