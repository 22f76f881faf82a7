import ScriptHost.Text.GraphemeExtend

/-! Which characters show when they are written by themselves. -/
namespace ScriptHost

/-- Controls, format characters, private use, and separators other than the space, as of
Unicode 17. -/
def invisible : CodePoints where
  ranges :=
    [(0x00, 0x1F), (0x7F, 0xA0), (0xAD, 0xAD), (0x0600, 0x0605), (0x061C, 0x061C), (0x06DD, 0x06DD),
      (0x070F, 0x070F), (0x0890, 0x0891), (0x08E2, 0x08E2), (0x1680, 0x1680), (0x180E, 0x180E),
      (0x2000, 0x200F), (0x2028, 0x202F), (0x205F, 0x2064), (0x2066, 0x206F), (0x3000, 0x3000),
      (0xE000, 0xF8FF), (0xFEFF, 0xFEFF), (0xFFF9, 0xFFFB), (0x110BD, 0x110BD), (0x110CD, 0x110CD),
      (0x13430, 0x1343F), (0x1BCA0, 0x1BCA3), (0x1D173, 0x1D17A), (0xE0001, 0xE0001),
      (0xE0020, 0xE007F), (0xF0000, 0xFFFFD), (0x100000, 0x10FFFD)]

/-- The halfwidth sound marks of Katakana. They extend the letter in front of them in a column of
their own. -/
def halfwidthSoundMarks : CodePoints where
  ranges := [(0xFF9E, 0xFF9F)]

/-- Neither invisible nor drawn upon the character in front. -/
def isVisible (c : Char) : Bool :=
  !invisible.contains c && (!graphemeExtend.contains c || halfwidthSoundMarks.contains c)

end ScriptHost
