import Lookahead.Character.Printable

/-!
# Quoted text

A text is shown between double quotes on one line.  A quote and a backslash get a backslash before
them; null, tab and the line ends have letters of their own; every other character that does not
show on its own is given by its number.
-/

namespace Lookahead.Quoted

def hex (c : Char) : List Char := Nat.toDigits 16 c.toNat

/-- how a character is written inside a quoted text -/
def escape (c : Char) : List Char :=
  if c = '\x00' then ['\\', '0']
  else if c = '\t' then ['\\', 't']
  else if c = '\r' then ['\\', 'r']
  else if c = '\n' then ['\\', 'n']
  else if c = '\\' then ['\\', '\\']
  else if c = '"' then ['\\', '"']
  else if Character.isPrintable c then [c]
  else ['\\', 'u', '\x7b'] ++ hex c ++ ['\x7d']

/-- the text between quotes -/
def encode (cs : List Char) : List Char := ['"'] ++ cs.flatMap escape ++ ['"']

end Lookahead.Quoted
