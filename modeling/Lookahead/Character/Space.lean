import Lookahead.Character.Basic
import Lookahead.Character.Range

/-!
# The property White_Space of Unicode

`isSpace` holds every character that Unicode counts as white space.  It has all blanks of
`isBlank` but the byte-order mark, which Unicode counts as a format character.
-/

namespace Lookahead.Character

/-- the characters with the property White_Space -/
def whiteSpace : Ranges :=
  [(0x9, 0xD), (0x20, 0x20), (0x85, 0x85), (0xA0, 0xA0), (0x1680, 0x1680), (0x2000, 0x200A),
    (0x2028, 0x2029), (0x202F, 0x202F), (0x205F, 0x205F), (0x3000, 0x3000)]

/-- the character is white space anywhere in Unicode -/
def isSpace (c : Char) : Bool := whiteSpace.contains c

theorem isSpace_of_isBlank {c : Char} (h : c ≠ byteOrderMark)
    (hb : isBlank c = true) : isSpace c = true := by
  simp only [isBlank, Bool.or_eq_true, beq_iff_eq] at hb
  rcases hb with (((rfl | rfl) | rfl) | rfl) | rfl
  · decide
  · decide
  · decide
  · decide
  · exact absurd rfl h

end Lookahead.Character
