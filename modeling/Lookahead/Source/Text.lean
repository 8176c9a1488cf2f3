import Lookahead.Source.Basic

/-!
# Text as a source

A text never fails.  It skips in one step, and it is ready as long as characters remain.
-/

namespace Lookahead

/-- a text, of which these characters are still to be read -/
structure Text where
  rest : List Char
  deriving DecidableEq

namespace Text

def ofString (s : String) : Text := ⟨s.toList⟩

def readChar : EStateM Empty Text (Option Char) := fun t =>
  match t.rest with
  | [] => .ok none t
  | c :: cs => .ok (some c) ⟨cs⟩

def skip (n : Nat) : EStateM Empty Text Nat := fun t => .ok (min n t.rest.length) ⟨t.rest.drop n⟩

def ready : EStateM Empty Text Bool := fun t => .ok (!t.rest.isEmpty) t

instance : Source Text Empty where
  readChar := readChar
  skip := skip
  ready := ready

instance : Exhaustible Text where
  remaining t := t.rest.length
  remaining_char s t c h := by
    simp only [Source.readChar, readChar] at h
    split at h
    · simp at h
    · next hs =>
      simp only [EStateM.Result.ok.injEq] at h
      simp [← h.2, hs]
  remaining_error s t e h := nomatch e

/-- the skip of a text drops what single reads would have given -/
theorem skip_eq_discard (n : Nat) (t : Text) : skip n t = discard readChar n t := by
  induction n generalizing t with
  | zero => simp [skip, discard]
  | succ n ih =>
    obtain ⟨cs⟩ := t
    cases cs with
    | nil => simp [skip, discard, readChar]
    | cons c cs =>
      simp only [discard, readChar, EStateM.map, ← ih]
      simp [skip]

end Text

end Lookahead
