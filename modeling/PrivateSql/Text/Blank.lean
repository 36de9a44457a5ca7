import PrivateSql.Text.Ranges
/-!
# White space

The characters with the `White_Space` property of Unicode 17.0.
-/

namespace PrivateSql.Text

/-- The ranges of the `White_Space` property. -/
def blankRanges : List (Nat × Nat) := [
    (0x9, 0xD), (0x20, 0x20), (0x85, 0x85), (0xA0, 0xA0), (0x1680, 0x1680), (0x2000, 0x200A),
    (0x2028, 0x2029), (0x202F, 0x202F), (0x205F, 0x205F), (0x3000, 0x3000)]

/-- Is the character white space? -/
def isBlank (c : Char) : Bool := inRanges blankRanges c

end PrivateSql.Text
