import Lookahead.Reader.Basic

/-!
# Matching what comes next

The tests look at the characters to come and leave them where they are.  Each test has a partner
that reads what it has found.  A text is compared character by character, and the next one is looked
at only when those before it were the same: a text that is longer than the buffer fails only where
the input begins like it.
-/

namespace Lookahead.Reader

variable {σ ε : Type} [Source σ ε]

/-! ## tests -/

def atNth (n : Nat) (c : Char) : Step σ ε Bool := return (← peekNth n) == some c

def atChar (c : Char) : Step σ ε Bool := atNth 0 c

def atEnd : Step σ ε Bool := return (← peek).isNone

/-- the characters from the `n`-th one ahead on spell a text -/
def spells (n : Nat) : List Char → Step σ ε Bool
  | [] => pure true
  | c :: cs => do
    if ← atNth n c then spells (n + 1) cs else pure false

/-- the next characters spell a text; of the empty text, that there is a next character -/
def atText (s : List Char) : Step σ ε Bool :=
  if s.isEmpty then return (← peek).isSome else spells 0 s

section
variable (rules : Rules)

/-- the next characters spell a word, and no name goes on after it -/
def atWord (w : List Char) : Step σ ε Bool := do
  if !(← atText w) then return false
  match ← peekNth w.length with
  | none => return true
  | some c => return !rules.isNameChar c

def atComment : Step σ ε Bool :=
  if rules.commentStart.isEmpty then pure false else atText rules.commentStart

/-- the line, or the input, ends here -/
def atLineEnd : Step σ ε Bool := do
  match ← peek with
  | none => return true
  | some c => return rules.isLineEnd c

def atBlank : Step σ ε Bool := do
  match ← peek with
  | none => return false
  | some c => return rules.isBlank c

end

/-! ## reading what was found -/

/-- reads the `n` characters that a test has found, if it has; else reads nothing -/
def accepting (test : Step σ ε Bool) (n : Nat) : Step σ ε Bool := do
  if !(← test) then return false
  onBuffer (Buffer.advance n)
  return true

def acceptChar (c : Char) : Step σ ε Bool := accepting (atChar c) 1

def acceptText (s : List Char) : Step σ ε Bool := accepting (atText s) s.length

section
variable (rules : Rules)

def acceptWord (w : List Char) : Step σ ε Bool := accepting (atWord rules w) w.length

def acceptBlank : Step σ ε Bool := accepting (atBlank rules) 1

def acceptCommentStart : Step σ ε Bool :=
  accepting (atComment rules) rules.commentStart.length

end

end Lookahead.Reader
