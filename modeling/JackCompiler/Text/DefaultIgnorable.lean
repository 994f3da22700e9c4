import JackCompiler.Text.CodePointRanges

/-!
# Characters that may be drawn as nothing

The code points with the property `Default_Ignorable_Code_Point`: those that a font that does not
know them leaves out. Some of them are letters, such as the fillers of Hangul syllables.

## Main definitions

* `defaultIgnorableRanges` — the code points, as ascending ranges
* `isDefaultIgnorable` — membership
-/

namespace JackCompiler

/-- The code points with the property, as ascending ranges with both ends included. -/
def defaultIgnorableRanges : CodePointRanges :=
  [(0xad, 0xad), (0x34f, 0x34f), (0x61c, 0x61c), (0x115f, 0x1160), (0x17b4, 0x17b5),
    (0x180b, 0x180f), (0x200b, 0x200f), (0x202a, 0x202e), (0x2060, 0x206f), (0x3164, 0x3164),
    (0xfe00, 0xfe0f), (0xfeff, 0xfeff), (0xffa0, 0xffa0), (0xfff0, 0xfff8), (0x1bca0, 0x1bca3),
    (0x1d173, 0x1d17a), (0xe0000, 0xe0fff)]

theorem ascending_defaultIgnorableRanges : defaultIgnorableRanges.ascending = true := by
  decide +kernel

/-- A character that is left out where it has no shape. -/
def isDefaultIgnorable (c : Char) : Bool :=
  defaultIgnorableRanges.contains c

end JackCompiler
