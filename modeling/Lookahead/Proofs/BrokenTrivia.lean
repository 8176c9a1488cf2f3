import Lookahead.Trivia
import Lookahead.Proofs.Source.Calls

/-!
# Trivia among failures

What is still to be read of a source that fails are characters with failures between them.  A caller
that skips trivia and begins again after each failure does not notice a failure between blanks, nor
one in what begins a comment.  A failure inside a comment ends the comment, as if its line ended
there, so that what is left of the line is no longer skipped with it.

* `characters`, `failures`        what is to be read, taken apart;
* `Rules.dropBrokenTrivia`        what is left when failures end comments;
* `Rules.Unbroken`                no failure comes inside a comment;
* `dropBrokenTrivia_eq`           then it is what is left after the trivia.
-/

namespace Lookahead

variable {ε : Type}

/-! ## characters and failures -/

def characters (is : List (Except ε Char)) : List Char := is.filterMap Except.toOption

def failures (is : List (Except ε Char)) : List ε := is.filterMap failure?

theorem characters_append (is js : List (Except ε Char)) :
    characters (is ++ js) = characters is ++ characters js := List.filterMap_append

theorem failures_append (is js : List (Except ε Char)) :
    failures (is ++ js) = failures is ++ failures js := List.filterMap_append

@[simp] theorem characters_map_ok (cs : List Char) :
    characters (cs.map (.ok : Char → Except ε Char)) = cs := by
  induction cs with
  | nil => rfl
  | cons c cs ih => exact congrArg (c :: ·) ih

@[simp] theorem failures_map_ok (cs : List Char) :
    failures (cs.map (.ok : Char → Except ε Char)) = [] := by
  induction cs with
  | nil => rfl
  | cons c cs ih => exact ih

/-- what is left after so many characters and the failures before and between them -/
def afterChars : Nat → List (Except ε Char) → List (Except ε Char)
  | 0, is => is
  | _ + 1, [] => []
  | n + 1, .ok _ :: is => afterChars n is
  | n + 1, .error _ :: is => afterChars (n + 1) is

theorem afterChars_zero (is : List (Except ε Char)) : afterChars 0 is = is := by
  cases is <;> rfl

theorem characters_afterChars (n : Nat) (is : List (Except ε Char)) :
    characters (afterChars n is) = (characters is).drop n := by
  fun_induction afterChars n is with
  | case1 is => rfl
  | case2 n => rfl
  | case3 n c is ih => exact ih
  | case4 n e is ih => exact ih

theorem length_afterChars_le (n : Nat) (is : List (Except ε Char)) :
    (afterChars n is).length ≤ is.length - n := by
  fun_induction afterChars n is with
  | case1 is => exact Nat.le_refl _
  | case2 n => exact Nat.zero_le _
  | case3 n c is ih =>
    rw [List.length_cons]
    omega
  | case4 n e is ih =>
    rw [List.length_cons]
    omega

theorem afterChars_map_ok (cs : List Char) (is : List (Except ε Char)) :
    afterChars cs.length (cs.map .ok ++ is) = is := by
  induction cs with
  | nil => exact afterChars_zero is
  | cons c cs ih => exact ih

theorem afterChars_sublist (n : Nat) (is : List (Except ε Char)) :
    (afterChars n is).Sublist is := by
  fun_induction afterChars n is with
  | case1 is => exact List.Sublist.refl is
  | case2 n => exact List.Sublist.refl []
  | case3 n c is ih => exact ih.cons _
  | case4 n e is ih => exact ih.cons _

theorem afterChars_of_lt {cs : List Char} {n : Nat} (h : cs.length < n) (e : ε)
    (is : List (Except ε Char)) :
    afterChars n (cs.map .ok ++ .error e :: is) = afterChars n (cs.map .ok ++ is) := by
  induction cs generalizing n with
  | nil =>
    obtain ⟨n, rfl⟩ := Nat.exists_eq_add_one_of_ne_zero (Nat.ne_of_gt h)
    rfl
  | cons c cs ih =>
    obtain ⟨n, rfl⟩ := Nat.exists_eq_add_one_of_ne_zero (Nat.ne_of_gt (Nat.zero_lt_of_lt h))
    exact ih (Nat.lt_of_succ_lt_succ h)

namespace Rules

/-! ## dropping trivia -/

/-- skipped between comments: a blank, and a failure, after which the caller begins again -/
def skipsOver (r : Rules) : Except ε Char → Bool
  | .ok c => r.isBlank c
  | .error _ => true

/-- goes on with a comment, which a failure does not -/
def goesOn (r : Rules) : Except ε Char → Bool
  | .ok c => !r.isLineEnd c
  | .error _ => false

/-- what is left from the end of the comment on, if a comment begins here -/
def dropBrokenComment? (r : Rules) (is : List (Except ε Char)) : Option (List (Except ε Char)) :=
  if r.beginsComment (characters is) then
    some ((afterChars r.commentStart.length is).dropWhile r.goesOn)
  else none

variable {r : Rules} {is js : List (Except ε Char)} {cs : List Char} {e : ε}

theorem length_dropBrokenComment?_lt (h : r.dropBrokenComment? is = some js) :
    js.length < is.length := by
  unfold dropBrokenComment? at h
  split at h
  · next hb =>
    cases h
    obtain ⟨hne, hprefix⟩ := beginsComment_iff.1 hb
    have hpos := List.length_pos_iff.2 hne
    have hle : r.commentStart.length ≤ is.length :=
      Nat.le_trans hprefix.length_le (List.length_filterMap_le _ _)
    have hrest := length_dropWhile_le r.goesOn (afterChars r.commentStart.length is)
    have hafter := length_afterChars_le r.commentStart.length is
    omega
  · cases h

/-- what is left after the blanks and comments at the front, when a failure ends the comment it comes
in and is passed over anywhere else -/
def dropBrokenTrivia (r : Rules) (is : List (Except ε Char)) : List Char :=
  match _h : r.dropBrokenComment? (is.dropWhile r.skipsOver) with
  | none => characters (is.dropWhile r.skipsOver)
  | some js => r.dropBrokenTrivia js
termination_by is.length
decreasing_by
  exact Nat.lt_of_lt_of_le (length_dropBrokenComment?_lt _h) (length_dropWhile_le _ is)

theorem dropBrokenTrivia_of_none (h : r.dropBrokenComment? (is.dropWhile r.skipsOver) = none) :
    r.dropBrokenTrivia is = characters (is.dropWhile r.skipsOver) := by
  rw [dropBrokenTrivia]
  split
  · rfl
  · next hs => rw [h] at hs; cases hs

theorem dropBrokenTrivia_of_some (h : r.dropBrokenComment? (is.dropWhile r.skipsOver) = some js) :
    r.dropBrokenTrivia is = r.dropBrokenTrivia js := by
  rw [dropBrokenTrivia]
  split
  · next hs => rw [h] at hs; cases hs
  · next ks hs =>
    rw [h] at hs
    cases hs
    rfl

/-! ## where failures make no difference -/

theorem dropBrokenTrivia_cons {i : Except ε Char} (h : r.skipsOver i = true) :
    r.dropBrokenTrivia (i :: is) = r.dropBrokenTrivia is := by
  have hskip : (i :: is).dropWhile r.skipsOver = is.dropWhile r.skipsOver :=
    List.dropWhile_cons_of_pos h
  cases hc : r.dropBrokenComment? (is.dropWhile r.skipsOver) with
  | none => rw [dropBrokenTrivia_of_none hc, dropBrokenTrivia_of_none (hskip ▸ hc), hskip]
  | some js => rw [dropBrokenTrivia_of_some hc, dropBrokenTrivia_of_some (hskip ▸ hc)]

theorem dropBrokenTrivia_front (h : is.dropWhile r.skipsOver = is) :
    r.dropBrokenTrivia is =
      match r.dropBrokenComment? is with
      | none => characters is
      | some js => r.dropBrokenTrivia js := by
  cases hc : r.dropBrokenComment? is with
  | none => rw [dropBrokenTrivia_of_none (h.symm ▸ hc), h]
  | some js => rw [dropBrokenTrivia_of_some (h.symm ▸ hc)]

theorem characters_error (cs : List Char) (e : ε) (is : List (Except ε Char)) :
    characters (cs.map .ok ++ .error e :: is) = characters (cs.map .ok ++ is) := by
  rw [characters_append, characters_append]
  rfl

theorem dropBrokenComment?_of_lt (h : cs.length < r.commentStart.length) (e : ε)
    (is : List (Except ε Char)) :
    r.dropBrokenComment? (cs.map .ok ++ .error e :: is) =
      r.dropBrokenComment? (cs.map .ok ++ is) := by
  unfold dropBrokenComment?
  rw [characters_error, afterChars_of_lt h]

/-- a failure where a comment may still begin is passed over -/
theorem dropBrokenTrivia_of_lt (h : cs.length < r.commentStart.length) (e : ε)
    (is : List (Except ε Char)) :
    r.dropBrokenTrivia (cs.map .ok ++ .error e :: is) = r.dropBrokenTrivia (cs.map .ok ++ is) := by
  induction cs with
  | nil => exact dropBrokenTrivia_cons rfl
  | cons c cs ih =>
    have hsame := dropBrokenComment?_of_lt h e is
    have hchars := characters_error (c :: cs) e is
    rw [List.map_cons, List.cons_append, List.cons_append] at hsame hchars ⊢
    by_cases hc : r.isBlank c = true
    · have hskip : r.skipsOver (.ok c : Except ε Char) = true := hc
      rw [dropBrokenTrivia_cons hskip, dropBrokenTrivia_cons hskip]
      exact ih (Nat.lt_of_succ_lt h)
    · have hstop : ∀ js : List (Except ε Char), (.ok c :: js).dropWhile r.skipsOver = .ok c :: js :=
        fun js => List.dropWhile_cons_of_neg hc
      rw [dropBrokenTrivia_front (hstop _), dropBrokenTrivia_front (hstop _), hsame, hchars]

/-! ## comments that are whole -/

/-- no failure comes inside a comment -/
inductive Unbroken (r : Rules) : List (Except ε Char) → Prop where
  | solid {is : List (Except ε Char)}
      (none : r.dropBrokenComment? (is.dropWhile r.skipsOver) = none) : Unbroken r is
  | comment {is js : List (Except ε Char)}
      (found : r.dropBrokenComment? (is.dropWhile r.skipsOver) = some js)
      (whole : ∀ e, js.head? ≠ some (.error e)) (more : Unbroken r js) : Unbroken r is

theorem characters_skipsOver (r : Rules) (is : List (Except ε Char)) :
    characters (is.dropWhile r.skipsOver) = r.dropBlanks (characters is) := by
  induction is with
  | nil => rfl
  | cons i is ih =>
    cases i with
    | error e => exact ih
    | ok c =>
      by_cases hc : r.isBlank c = true
      · rw [List.dropWhile_cons_of_pos (show r.skipsOver (.ok c : Except ε Char) = true from hc), ih]
        exact (List.dropWhile_cons_of_pos hc).symm
      · rw [List.dropWhile_cons_of_neg (show ¬ r.skipsOver (.ok c : Except ε Char) = true from hc)]
        exact (List.dropWhile_cons_of_neg hc).symm

theorem characters_goesOn (h : ∀ e, (is.dropWhile r.goesOn).head? ≠ some (.error e)) :
    characters (is.dropWhile r.goesOn) = r.dropLine (characters is) := by
  induction is with
  | nil => rfl
  | cons i is ih =>
    cases i with
    | error e => exact absurd rfl (h e)
    | ok c =>
      by_cases hc : (!r.isLineEnd c) = true
      · have hpos : (.ok c :: is).dropWhile r.goesOn = is.dropWhile r.goesOn :=
          List.dropWhile_cons_of_pos hc
        rw [hpos] at h ⊢
        rw [ih h]
        exact (List.dropWhile_cons_of_pos (p := fun c => !r.isLineEnd c) hc).symm
      · rw [List.dropWhile_cons_of_neg (show ¬ r.goesOn (.ok c : Except ε Char) = true from hc)]
        exact (List.dropWhile_cons_of_neg (p := fun c => !r.isLineEnd c) hc).symm

theorem failures_goesOn (is : List (Except ε Char)) :
    failures (is.dropWhile r.goesOn) = failures is := by
  induction is with
  | nil => rfl
  | cons i is ih =>
    by_cases hi : r.goesOn i = true
    · rw [List.dropWhile_cons_of_pos hi, ih]
      cases i with
      | ok c => rfl
      | error e => cases hi
    · rw [List.dropWhile_cons_of_neg hi]

theorem dropComment?_of_unbroken (h : r.dropBrokenComment? is = some js)
    (hwhole : ∀ e, js.head? ≠ some (.error e)) :
    r.dropComment? (characters is) = some (characters js) := by
  unfold dropBrokenComment? at h
  unfold dropComment?
  split at h
  · next hb =>
    cases h
    rw [if_pos hb, characters_goesOn hwhole, characters_afterChars]
  · cases h

/-- when no failure comes inside a comment, failures make no difference -/
theorem dropBrokenTrivia_eq (h : r.Unbroken is) :
    r.dropBrokenTrivia is = r.dropTrivia (characters is) := by
  induction h with
  | @solid is hnone =>
    have hchars : r.dropComment? (r.dropBlanks (characters is)) = none := by
      rw [← characters_skipsOver]
      unfold dropBrokenComment? at hnone
      unfold dropComment?
      split at hnone
      · cases hnone
      · next hb => rw [if_neg hb]
    rw [dropBrokenTrivia_of_none hnone, dropTrivia_of_none hchars, characters_skipsOver]
  | @comment is js hfound hwhole _ ih =>
    have hchars : r.dropComment? (r.dropBlanks (characters is)) = some (characters js) := by
      rw [← characters_skipsOver]
      exact dropComment?_of_unbroken hfound hwhole
    rw [dropBrokenTrivia_of_some hfound, dropTrivia_of_some hchars, ih]

theorem dropBrokenComment?_sublist (h : r.dropBrokenComment? is = some js) : js.Sublist is := by
  unfold dropBrokenComment? at h
  split at h
  · cases h
    exact (List.dropWhile_sublist _).trans (afterChars_sublist _ is)
  · cases h

theorem unbroken_of_sound (h : ∀ e, .error e ∉ is) : r.Unbroken is := by
  fun_induction r.dropBrokenTrivia is with
  | case1 is hnone => exact .solid hnone
  | case2 is js hfound ih =>
    have hmore : ∀ e, .error e ∉ js := fun e he =>
      h e ((List.dropWhile_sublist _).mem ((dropBrokenComment?_sublist hfound).mem he))
    exact .comment hfound (fun e he => hmore e (List.mem_of_head? he)) (ih hmore)

theorem dropBrokenTrivia_map_ok (cs : List Char) :
    r.dropBrokenTrivia (cs.map (.ok : Char → Except ε Char)) = r.dropTrivia cs := by
  have hsound : ∀ e : ε, .error e ∉ cs.map (.ok : Char → Except ε Char) := fun e he => by
    obtain ⟨c, -, hc⟩ := List.mem_map.1 he
    cases hc
  rw [dropBrokenTrivia_eq (unbroken_of_sound hsound), characters_map_ok]

end Rules

end Lookahead
