import Lookahead.Rules

/-!
# Trivia

What stands between tokens, as a matter of lists of characters: blanks, and comments up to the end
of their line.  A comment does not take the line end with it, which may or may not be a blank.

* `Rules.dropTrivia`          what is left of a text after the trivia at its front;
* `length_dropComment?_lt`    a comment has at least one character, so that there is an end to it.
-/

namespace Lookahead.Rules

def dropBlanks (r : Rules) (cs : List Char) : List Char := cs.dropWhile r.isBlank

/-- what is left from the end of the line on -/
def dropLine (r : Rules) (cs : List Char) : List Char := cs.dropWhile fun c => !r.isLineEnd c

def beginsComment (r : Rules) (cs : List Char) : Bool :=
  !r.commentStart.isEmpty && r.commentStart.isPrefixOf cs

theorem beginsComment_iff {r : Rules} {cs : List Char} :
    r.beginsComment cs = true ↔ r.commentStart ≠ [] ∧ r.commentStart <+: cs := by
  simp only [beginsComment, Bool.and_eq_true, Bool.not_eq_true', List.isEmpty_eq_false_iff,
    List.isPrefixOf_iff_prefix, ne_eq]

/-- what is left after the comment at the front, if one begins there -/
def dropComment? (r : Rules) (cs : List Char) : Option (List Char) :=
  if r.beginsComment cs then some (r.dropLine (cs.drop r.commentStart.length)) else none

theorem length_dropWhile_le {α : Type} (p : α → Bool) (l : List α) :
    (l.dropWhile p).length ≤ l.length :=
  (List.dropWhile_sublist p).length_le

theorem length_dropBlanks_le (r : Rules) (cs : List Char) :
    (r.dropBlanks cs).length ≤ cs.length := length_dropWhile_le _ cs

theorem length_dropComment?_lt {r : Rules} {cs ds : List Char} (h : r.dropComment? cs = some ds) :
    ds.length < cs.length := by
  unfold dropComment? at h
  split at h
  · next hb =>
    obtain ⟨hne, hprefix⟩ := beginsComment_iff.1 hb
    have hpos := List.length_pos_iff.2 hne
    have hle := hprefix.length_le
    have := length_dropWhile_le (fun c => !r.isLineEnd c) (cs.drop r.commentStart.length)
    rw [← Option.some.inj h]
    simp only [List.length_drop] at this
    simp only [dropLine]
    omega
  · cases h

/-- what is left after the blanks and comments at the front -/
def dropTrivia (r : Rules) (cs : List Char) : List Char :=
  match _h : r.dropComment? (r.dropBlanks cs) with
  | none => r.dropBlanks cs
  | some ds => r.dropTrivia ds
termination_by cs.length
decreasing_by
  exact Nat.lt_of_lt_of_le (length_dropComment?_lt _h) (length_dropBlanks_le r cs)

theorem dropTrivia_of_none {r : Rules} {cs : List Char}
    (h : r.dropComment? (r.dropBlanks cs) = none) : r.dropTrivia cs = r.dropBlanks cs := by
  rw [dropTrivia]
  split
  · rfl
  · next hs => rw [h] at hs; cases hs

theorem dropTrivia_of_some {r : Rules} {cs ds : List Char}
    (h : r.dropComment? (r.dropBlanks cs) = some ds) : r.dropTrivia cs = r.dropTrivia ds := by
  rw [dropTrivia]
  split
  · next hs => rw [h] at hs; cases hs
  · next es hs =>
    rw [h] at hs
    cases hs
    rfl

theorem length_dropTrivia_le (r : Rules) (cs : List Char) :
    (r.dropTrivia cs).length ≤ cs.length := by
  fun_induction r.dropTrivia cs with
  | case1 cs h => exact length_dropBlanks_le r cs
  | case2 cs ds h ih =>
    have := length_dropComment?_lt h
    have := length_dropBlanks_le r cs
    omega

end Lookahead.Rules
