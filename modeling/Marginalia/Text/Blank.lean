import Marginalia.Text.Chars

/-! # Blank characters

Two notions of blank are in use: the blanks of the character standard, for prose, and the six ASCII
blanks, for the bytes of program text.
-/
namespace Marginalia.Text

/-- The ASCII blanks: space, tab, the line ends and the two feeds. -/
def isAsciiBlank (c : Char) : Bool :=
  c = ' ' || (0x09 ≤ c.toNat && c.toNat ≤ 0x0d)

/-- The blanks of the character standard, with the four separator controls. -/
def isBlank (c : Char) : Bool :=
  isAsciiBlank c || (0x1c ≤ c.toNat && c.toNat ≤ 0x1f) || c.toNat = 0x85 || c.toNat = 0xa0 ||
  c.toNat = 0x1680 || (0x2000 ≤ c.toNat && c.toNat ≤ 0x200a) || c.toNat = 0x2028 ||
  c.toNat = 0x2029 || c.toNat = 0x202f || c.toNat = 0x205f || c.toNat = 0x3000

theorem isBlank_of_isAsciiBlank {c : Char} (h : isAsciiBlank c = true) : isBlank c = true := by
  simp [isBlank, h]

/-- The text without the blanks at its end. -/
def trimEnd (s : List Char) : List Char :=
  dropEndWhile isBlank s

/-- The text without the blanks at its start. -/
def trimStart (s : List Char) : List Char :=
  s.dropWhile isBlank

/-- The text without the blanks at both ends. -/
def strip (s : List Char) : List Char :=
  trim isBlank s

/-- Whether the text has no other characters than blanks. -/
def allBlank (s : List Char) : Bool :=
  s.all isBlank

end Marginalia.Text
