/-!
# Character classes

The classes that the default lexical rules are made of.  All of them but `isBlank` hold ASCII
characters only; `isBlank` also holds the byte-order mark, so that a mark at the start of a text is
skipped like a blank.
-/

namespace Lookahead.Character

/-- the mark that a text decoded from a file often begins with -/
def byteOrderMark : Char := '\uFEFF'

def isDigit (c : Char) : Bool := c.isDigit

/-- a letter, an underscore or a hyphen: what a name may begin with -/
def isNameStart (c : Char) : Bool := c.isAlpha || c == '_' || c == '-'

/-- what a name may go on with -/
def isNameChar (c : Char) : Bool := isNameStart c || isDigit c

/-- space, line ends, tab and the byte-order mark -/
def isBlank (c : Char) : Bool :=
  c == ' ' || c == '\n' || c == '\r' || c == '\t' || c == byteOrderMark

def isLineEnd (c : Char) : Bool := c == '\n' || c == '\r'

/-! ## how the classes lie to each other -/

theorem isNameChar_of_isNameStart {c : Char} (h : isNameStart c = true) : isNameChar c = true := by
  simp [isNameChar, h]

theorem isNameStart_of_isDigit {c : Char} (h : isDigit c = true) : isNameStart c = false := by
  refine Bool.eq_false_iff.2 fun hstart => ?_
  simp only [isNameStart, Bool.or_eq_true, beq_iff_eq] at hstart
  obtain (hletter | rfl) | rfl := hstart
  · -- letters and digits lie in different ranges of code points
    have hnine : '9'.val.toNat = 57 := rfl
    have hupper : 'A'.val.toNat = 65 := rfl
    have hlower : 'a'.val.toNat = 97 := rfl
    have hdigit : (decide (c.val ≥ '0'.val) && decide (c.val ≤ '9'.val)) = true := h
    have halpha : (decide (c.val ≥ 'A'.val ∧ c.val ≤ 'Z'.val) ||
        (decide (c.val ≥ 'a'.val) && decide (c.val ≤ 'z'.val))) = true := hletter
    simp only [Bool.or_eq_true, Bool.and_eq_true, decide_eq_true_eq, ge_iff_le,
      UInt32.le_iff_toNat_le] at hdigit halpha
    omega
  · cases h
  · cases h

theorem isBlank_of_isLineEnd {c : Char} (h : isLineEnd c = true) : isBlank c = true := by
  simp only [isLineEnd, Bool.or_eq_true] at h
  rcases h with h | h <;> simp [isBlank, h]

end Lookahead.Character
