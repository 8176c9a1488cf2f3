import Lookahead.Source.Basic

/-!
# Scripts as sources

A script lists what the reads of a source will meet: a character, a failure, or an end that later
items may follow.  After its last item a script is at its end for good.  A script that holds
characters only is the source over a plain sequence of characters.
-/

namespace Lookahead

/-- what one read meets -/
inductive Item (ε : Type) where
  | char (c : Char)
  | failure (e : ε)
  /-- the end of the input is reported once -/
  | stop

/-- a source given by what its reads meet -/
structure Script (ε : Type) where
  items : List (Item ε)

namespace Script
variable {ε : Type}

def ofList (cs : List Char) : Script ε := ⟨cs.map .char⟩

def readChar : EStateM ε (Script ε) (Option Char) := fun s =>
  match s.items with
  | [] => .ok none s
  | .char c :: is => .ok (some c) ⟨is⟩
  | .failure e :: is => .error e ⟨is⟩
  | .stop :: is => .ok none ⟨is⟩

instance : Source (Script ε) ε where
  readChar := readChar

theorem length_readChar {s t : Script ε}
    (h : (∃ c, readChar s = .ok (some c) t) ∨ ∃ e, readChar s = .error e t) :
    t.items.length < s.items.length := by
  obtain ⟨is⟩ := s
  match is with
  | [] => simp [readChar] at h
  | .char c :: is =>
    have : (⟨is⟩ : Script ε) = t := by simpa [readChar] using h
    simp [← this]
  | .failure e :: is =>
    have : (⟨is⟩ : Script ε) = t := by
      rcases h with ⟨c, h⟩ | ⟨d, h⟩
      · simp [readChar] at h
      · simp only [readChar, EStateM.Result.error.injEq] at h
        exact h.2
    simp [← this]
  | .stop :: is => simp [readChar] at h

instance : Exhaustible (Script ε) where
  remaining s := s.items.length
  remaining_char _ _ c h := length_readChar (.inl ⟨c, h⟩)
  remaining_error _ _ e h := length_readChar (.inr ⟨e, h⟩)

end Script

end Lookahead
