import Lookahead.Character.Basic

/-!
# Lexical rules

The rules say which characters a reader skips as blanks, which ones go on with a name, which ones
end a line, and how a comment begins.  A comment runs up to the end of its line.  Each rule has a
default, so that a grammar names only the rules in which it differs.
-/

namespace Lookahead

structure Rules where
  /-- skipped between tokens -/
  isBlank : Char → Bool := Character.isBlank
  /-- goes on with a name, so that a word does not end before it -/
  isNameChar : Char → Bool := Character.isNameChar
  /-- ends a line, and a comment with it -/
  isLineEnd : Char → Bool := Character.isLineEnd
  /-- begins a comment; where it is empty there are no comments -/
  commentStart : List Char := ['#']

namespace Rules

def standard : Rules := {}

theorem commentStart_standard : standard.commentStart = ['#'] := rfl

end Rules

end Lookahead
