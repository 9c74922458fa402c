import StackMachine.Text.Blank
import StackMachine.Text.Extender
import StackMachine.Text.Unassigned

/-!
# Visible characters

A character is visible if a reader sees it and sees where it stands. These are not: control and
format characters, blanks other than the space, characters that are drawn onto the one before them,
characters that a display may ignore, and code points that stand for no character.

* `isVisible_iff_of_ascii`: among the characters of ASCII just those from the space to the tilde are
  visible.
-/

namespace StackMachine.Text

/-- The runs of format characters, as of Unicode 17.0. -/
def formatRanges : List (Nat × Nat) :=
  [(0xad, 0xad), (0x600, 0x605), (0x61c, 0x61c), (0x6dd, 0x6dd), (0x70f, 0x70f), (0x890, 0x891),
    (0x8e2, 0x8e2), (0x180e, 0x180e), (0x200b, 0x200f), (0x202a, 0x202e), (0x2060, 0x2064),
    (0x2066, 0x206f), (0xfeff, 0xfeff), (0xfff9, 0xfffb), (0x110bd, 0x110bd), (0x110cd, 0x110cd),
    (0x13430, 0x1343f), (0x1bca0, 0x1bca3), (0x1d173, 0x1d17a), (0xe0001, 0xe0001),
    (0xe0020, 0xe007f)]

/-- The runs of characters with the Default_Ignorable_Code_Point property, as of Unicode 17.0. -/
def ignorableRanges : List (Nat × Nat) :=
  [(0xad, 0xad), (0x34f, 0x34f), (0x61c, 0x61c), (0x115f, 0x1160), (0x17b4, 0x17b5),
    (0x180b, 0x180f), (0x200b, 0x200f), (0x202a, 0x202e), (0x2060, 0x206f), (0x3164, 0x3164),
    (0xfe00, 0xfe0f), (0xfeff, 0xfeff), (0xffa0, 0xffa0), (0xfff0, 0xfff8), (0x1bca0, 0x1bca3),
    (0x1d173, 0x1d17a), (0xe0000, 0xe0fff)]

theorem isAscending_formatRanges : isAscending formatRanges = true := by
  decide

theorem isAscending_ignorableRanges : isAscending ignorableRanges = true := by
  decide

/-- Whether a character is one of the two halfwidth sound marks, which extend the character before
them but take a place of their own. -/
def isHalfwidthMark (c : Char) : Bool :=
  0xff9e ≤ c.toNat && c.toNat ≤ 0xff9f

/-- Whether a character is drawn onto the one before it. -/
def isDrawnOn (c : Char) : Bool :=
  covers extenderRanges c.toNat && !isHalfwidthMark c

/-- Whether a character beyond ASCII is hidden. -/
def isHidden (c : Char) : Bool :=
  c.toNat < 0xa0 || isBlank c || covers formatRanges c.toNat || covers ignorableRanges c.toNat ||
    isDrawnOn c || covers unassignedRanges c.toNat

/-- Whether a character is seen where it stands. -/
def isVisible (c : Char) : Bool :=
  if c.toNat < 0x80 then 0x20 ≤ c.toNat && c.toNat ≤ 0x7e else !isHidden c

theorem isVisible_iff_of_ascii {c : Char} (h : c.toNat < 0x80) :
    isVisible c = true ↔ 0x20 ≤ c.toNat ∧ c.toNat ≤ 0x7e := by
  simp [isVisible, h]

end StackMachine.Text
