/-!
# Characters that are shown as nothing

The code points with the `Default_Ignorable_Code_Point` property. Text that is displayed passes
over them, so that a reader cannot tell that they are there. Among them are letters: the fillers
that hold the place of a missing part of a Hangul syllable.

## Main definitions

* `Text.ignorableRanges` — the ranges of code points, in ascending order.
* `Text.isIgnorable` — membership in the class.
-/

namespace ContractML.Text

/-- Inclusive ranges of the code points with the `Default_Ignorable_Code_Point` property. -/
def ignorableRanges : List (Nat × Nat) := [
  (0xAD, 0xAD), (0x34F, 0x34F), (0x61C, 0x61C), (0x115F, 0x1160), (0x17B4, 0x17B5),
  (0x180B, 0x180F), (0x200B, 0x200F), (0x202A, 0x202E), (0x2060, 0x206F), (0x3164, 0x3164),
  (0xFE00, 0xFE0F), (0xFEFF, 0xFEFF), (0xFFA0, 0xFFA0), (0xFFF0, 0xFFF8), (0x1BCA0, 0x1BCA3),
  (0x1D173, 0x1D17A), (0xE0000, 0xE0FFF)]

/-- A character that is shown as nothing. The first such character is U+00AD. -/
def isIgnorable (c : Char) : Bool :=
  if c.toNat < 0xAD then false
  else ignorableRanges.any fun r => r.1 ≤ c.toNat && c.toNat ≤ r.2

end ContractML.Text
