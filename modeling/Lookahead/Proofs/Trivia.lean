import Lookahead.Trivia

/-!
# What is trivia and what is not

Under the default rules, trivia are blanks, and comments from `#` up to the end of their line or of
the text.  A text begins with trivia, possibly none, and what follows begins with neither a blank nor
a `#`.  There is one way to take it apart so, and dropping trivia is it.

* `Longest`              a run of characters that does not go on;
* `Trivia`, `Solid`      what is skipped, and what is not;
* `dropTrivia_eq_iff`    what is left of a text after its trivia.
-/

namespace Lookahead

/-! ## runs of characters -/

/-- all of the run has the property, and what comes after the run does not begin with more of it -/
structure Longest (p : Char → Bool) (run rest : List Char) : Prop where
  all : ∀ c ∈ run, p c = true
  stops : ∀ c, rest.head? = some c → p c = false

section
variable {p : Char → Bool} {run rest cs : List Char}

theorem longest_takeWhile (p : Char → Bool) (cs : List Char) :
    Longest p (cs.takeWhile p) (cs.dropWhile p) where
  all := List.all_eq_true.1 List.all_takeWhile
  stops c hc := by
    have hhead := List.head?_dropWhile_not p cs
    rwa [hc] at hhead

theorem dropWhile_of_stops (h : ∀ c, rest.head? = some c → p c = false) :
    rest.dropWhile p = rest := by
  cases rest with
  | nil => rfl
  | cons c cs => exact List.dropWhile_cons_of_neg (by rw [h c rfl]; exact nofun)

theorem takeWhile_of_stops (h : ∀ c, rest.head? = some c → p c = false) :
    rest.takeWhile p = [] := by
  cases rest with
  | nil => rfl
  | cons c cs => exact List.takeWhile_cons_of_neg (by rw [h c rfl]; exact nofun)

theorem longest_cons {c : Char} (h : p c = true) (cs : List Char) :
    Longest p (c :: cs.takeWhile p) (cs.dropWhile p) where
  all := List.forall_mem_cons.2 ⟨h, (longest_takeWhile p cs).all⟩
  stops := (longest_takeWhile p cs).stops

theorem Longest.tail {c : Char} (h : Longest p (c :: run) rest) : Longest p run rest where
  all d hd := h.all d (List.mem_cons_of_mem c hd)
  stops := h.stops

theorem Longest.takeWhile (h : Longest p run rest) : (run ++ rest).takeWhile p = run := by
  rw [List.takeWhile_append_of_pos h.all, takeWhile_of_stops h.stops, List.append_nil]

theorem Longest.dropWhile (h : Longest p run rest) : (run ++ rest).dropWhile p = rest := by
  rw [List.dropWhile_append_of_pos h.all, dropWhile_of_stops h.stops]

end

/-! ## trivia -/

/-- goes on with a comment -/
def insideLine (c : Char) : Bool := !Character.isLineEnd c

/-- these characters are skipped where `rest` follows them -/
inductive Trivia (rest : List Char) : List Char → Prop where
  | none : Trivia rest []
  | blank {c : Char} {cs : List Char} (blank : Character.isBlank c = true) (more : Trivia rest cs) :
      Trivia rest (c :: cs)
  | comment {line cs : List Char} (whole : Longest insideLine line (cs ++ rest))
      (more : Trivia rest cs) : Trivia rest ('#' :: (line ++ cs))

/-- no trivia begin here -/
def Solid (cs : List Char) : Prop := ∀ c, cs.head? = some c → Character.isBlank c = false ∧ c ≠ '#'

section
variable {c : Char} {cs ds rest skipped : List Char}

theorem Trivia.blanks (h : ∀ c ∈ cs, Character.isBlank c = true) (more : Trivia rest ds) :
    Trivia rest (cs ++ ds) := by
  induction cs with
  | nil => exact more
  | cons c cs ih =>
    exact .blank (h c List.mem_cons_self) (ih fun d hd => h d (List.mem_cons_of_mem c hd))

namespace Rules

/-! ## comments under the default rules -/

theorem dropComment?_hash (cs : List Char) :
    standard.dropComment? ('#' :: cs) = some (cs.dropWhile insideLine) := rfl

theorem dropComment?_eq_none (h : cs.head? ≠ some '#') : standard.dropComment? cs = none := by
  refine if_neg ?_
  cases cs with
  | nil => exact nofun
  | cons c cs =>
    have hc : ¬ '#' = c := fun e => h (by rw [List.head?_cons, e])
    simp [beginsComment, commentStart_standard, hc]

theorem exists_of_dropComment? (h : standard.dropComment? cs = some ds) :
    ∃ line, cs = '#' :: (line ++ ds) ∧ Longest insideLine line ds := by
  by_cases hhash : cs.head? = some '#'
  · obtain ⟨es, rfl⟩ := List.head?_eq_some_iff.1 hhash
    rw [dropComment?_hash] at h
    cases h
    exact ⟨_, congrArg ('#' :: ·) List.takeWhile_append_dropWhile.symm, longest_takeWhile _ es⟩
  · rw [dropComment?_eq_none hhash] at h
    cases h

/-! ## dropping trivia -/

theorem dropTrivia_congr {r : Rules} (h : r.dropBlanks cs = r.dropBlanks ds) :
    r.dropTrivia cs = r.dropTrivia ds := by
  cases hc : r.dropComment? (r.dropBlanks ds) with
  | none => rw [dropTrivia_of_none hc, dropTrivia_of_none (h ▸ hc), h]
  | some es => rw [dropTrivia_of_some hc, dropTrivia_of_some (h ▸ hc)]

theorem dropBlanks_solid (h : Solid cs) : standard.dropBlanks cs = cs :=
  dropWhile_of_stops fun c hc => (h c hc).1

theorem dropTrivia_solid (h : Solid cs) : standard.dropTrivia cs = cs := by
  have hblanks := dropBlanks_solid h
  have hnone : standard.dropComment? (standard.dropBlanks cs) = none := by
    rw [hblanks]
    exact dropComment?_eq_none fun hc => (h '#' hc).2 rfl
  rw [dropTrivia_of_none hnone, hblanks]

theorem dropTrivia_append (h : Trivia rest skipped) (hrest : Solid rest) :
    standard.dropTrivia (skipped ++ rest) = rest := by
  induction h with
  | none => exact dropTrivia_solid hrest
  | blank hblank _ ih =>
    exact (dropTrivia_congr (List.dropWhile_cons_of_pos hblank)).trans ih
  | @comment line cs hline _ ih =>
    have hblanks : standard.dropBlanks ('#' :: (line ++ cs) ++ rest) =
        '#' :: (line ++ (cs ++ rest)) := by
      rw [List.cons_append, List.append_assoc]
      exact List.dropWhile_cons_of_neg (by decide)
    have hcomment : standard.dropComment? (standard.dropBlanks ('#' :: (line ++ cs) ++ rest)) =
        some (cs ++ rest) := by
      rw [hblanks, dropComment?_hash, hline.dropWhile]
    rw [dropTrivia_of_some hcomment, ih]

theorem solid_dropTrivia (cs : List Char) : Solid (standard.dropTrivia cs) := by
  fun_induction standard.dropTrivia cs with
  | case1 cs h =>
    intro c hc
    refine ⟨(longest_takeWhile standard.isBlank cs).stops c hc, ?_⟩
    rintro rfl
    obtain ⟨es, hes⟩ := List.head?_eq_some_iff.1 hc
    rw [hes, dropComment?_hash] at h
    cases h
  | case2 _ _ _ ih => exact ih

theorem dropTrivia_splits (cs : List Char) :
    ∃ skipped, cs = skipped ++ standard.dropTrivia cs ∧
      Trivia (standard.dropTrivia cs) skipped := by
  fun_induction standard.dropTrivia cs with
  | case1 cs h =>
    refine ⟨cs.takeWhile standard.isBlank, List.takeWhile_append_dropWhile.symm, ?_⟩
    have hblanks := Trivia.blanks (longest_takeWhile standard.isBlank cs).all
      (Trivia.none : Trivia (standard.dropBlanks cs) [])
    rwa [List.append_nil] at hblanks
  | case2 cs ds h ih =>
    obtain ⟨skipped, hds, hmore⟩ := ih
    obtain ⟨line, hline, hlong⟩ := exists_of_dropComment? h
    refine ⟨cs.takeWhile standard.isBlank ++ '#' :: (line ++ skipped), ?_, ?_⟩
    · rw [List.append_assoc, List.cons_append, List.append_assoc, ← hds, ← hline]
      exact List.takeWhile_append_dropWhile.symm
    · exact .blanks (longest_takeWhile standard.isBlank cs).all (.comment (hds ▸ hlong) hmore)

/-- a text is its trivia and what is left after them, in one way only -/
theorem dropTrivia_eq_iff :
    standard.dropTrivia cs = rest ↔
      ∃ skipped, cs = skipped ++ rest ∧ Trivia rest skipped ∧ Solid rest := by
  constructor
  · rintro rfl
    obtain ⟨skipped, hcs, htrivia⟩ := dropTrivia_splits cs
    exact ⟨skipped, hcs, htrivia, solid_dropTrivia cs⟩
  · rintro ⟨skipped, rfl, htrivia, hsolid⟩
    exact dropTrivia_append htrivia hsolid

end Rules

end

end Lookahead
