import Zmtp.Text.CodeRange

/-!
Characters that are not shown at all where they have no effect: fillers, joiners, marks of direction
and selectors of variants. The property values are those of Unicode 17.
-/

namespace Zmtp

/-- The code points with the property Default_Ignorable_Code_Point, assigned or not. -/
def ignorableRanges : CodeRanges :=
  [(0xad, 0xad), (0x34f, 0x34f), (0x61c, 0x61c), (0x115f, 0x1160), (0x17b4, 0x17b5),
   (0x180b, 0x180f), (0x200b, 0x200f), (0x202a, 0x202e), (0x2060, 0x206f), (0x3164, 0x3164),
   (0xfe00, 0xfe0f), (0xfeff, 0xfeff), (0xffa0, 0xffa0), (0xfff0, 0xfff8), (0x1bca0, 0x1bca3),
   (0x1d173, 0x1d17a), (0xe0000, 0xe0fff)]

/-- Whether a character is not shown by default. -/
def isIgnorable (c : Char) : Bool :=
  ignorableRanges.covers c.toNat

end Zmtp
