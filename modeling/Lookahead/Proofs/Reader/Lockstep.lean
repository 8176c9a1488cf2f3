import Lookahead.Proofs.Cursor.Answers
import Lookahead.Proofs.Reader.Shows

/-!
# A reader and its cursor in lockstep

The tests of a reader of a text are composed as those of its cursor are, and so they agree once
looking does.  Reading has four ways in a reader and one in a cursor: whichever way the characters
take, what comes of them is what lies ahead, and the cursor is where they end.

* `agree_peekNth`, `agree_atText`, `agree_atWord`   looking and testing;
* `agree_accepting`                                 reading what a test has found;
* `Shows.read`                                      reading a character, whichever way it takes.
-/

namespace Lookahead.Reader

/-! ## looking -/

theorem agree_fill (n : Nat) : Agree Shows (fill n : Step Text Empty Unit) (Cursor.fill n) := by
  intro r c h
  rw [c.fill_apply]
  by_cases hn : c.capacity < n
  · rw [if_pos hn, h.fill_refused hn]
    exact Same.error _ h
  · rw [if_neg hn]
    obtain ⟨r', hr', hshows⟩ := h.fill (Nat.le_of_not_lt hn)
    rw [hr']
    exact Same.ok () hshows

theorem agree_peekNth (n : Nat) :
    Agree Shows (peekNth n : Step Text Empty _) (Cursor.peekNth n) := by
  intro r c h
  have hsmall := h.valid.small
  rw [peekNth_eq, c.peekNth_apply hsmall]
  by_cases hn : c.capacity ≤ n
  · rw [if_pos hn, h.fill_refused (by omega)]
    exact Same.error _ h
  · rw [if_neg hn]
    obtain ⟨r', hr', hshows⟩ := h.fill (n := n + 1) (by omega)
    rw [show min (n + 1) maxCount = n + 1 by omega, hr']
    show Same Shows (.ok (r'.buffer.peekAt n) r') _
    rw [hshows.peekAt_looked]
    exact Same.ok _ hshows

theorem agree_peek : Agree Shows (peek : Step Text Empty _) Cursor.peek := agree_peekNth 0

/-! ## tests -/

theorem agree_atNth (n : Nat) (ch : Char) :
    Agree Shows (atNth n ch : Step Text Empty _) (Cursor.atNth n ch) :=
  (agree_peekNth n).bind fun o => Agree.pure (o == some ch)

theorem agree_atEnd :
    Agree Shows (atEnd : Step Text Empty _) (do return (← Cursor.peek).isNone) :=
  agree_peek.bind fun o => Agree.pure o.isNone

theorem agree_spells (n : Nat) (s : List Char) :
    Agree Shows (spells n s : Step Text Empty _) (Cursor.spells n s) := by
  induction s generalizing n with
  | nil => exact Agree.pure true
  | cons ch s ih =>
    refine (agree_atNth n ch).bind fun b => ?_
    cases b with
    | true => exact ih (n + 1)
    | false => exact Agree.pure false

theorem agree_atText (s : List Char) :
    Agree Shows (atText s : Step Text Empty _) (Cursor.atText s) := by
  intro r c h
  by_cases hs : s = []
  · subst hs
    exact (agree_peek.bind fun o => Agree.pure o.isSome) r c h
  · rw [Cursor.atText_eq_spells h.valid.small h.valid.position_le hs, atText,
      if_neg (by simpa using hs)]
    exact agree_spells 0 s r c h

section
variable (rules : Rules)

theorem agree_atWord (w : List Char) :
    Agree Shows (atWord rules w : Step Text Empty _) (Cursor.atWord rules w) := by
  refine (agree_atText w).bind fun b => ?_
  cases b with
  | false => exact Agree.pure false
  | true =>
    refine (agree_peekNth w.length).bind fun o => ?_
    cases o with
    | none => exact Agree.pure true
    | some ch => exact Agree.pure (!rules.isNameChar ch)

theorem agree_atComment :
    Agree Shows (atComment rules : Step Text Empty _) (Cursor.atComment rules) := by
  unfold atComment Cursor.atComment
  split
  · exact Agree.pure false
  · exact agree_atText rules.commentStart

theorem agree_atLineEnd :
    Agree Shows (atLineEnd rules : Step Text Empty _)
      (do return (← Cursor.peek).all rules.isLineEnd) := by
  refine agree_peek.bind fun o => ?_
  cases o with
  | none => exact Agree.pure true
  | some ch => exact Agree.pure (rules.isLineEnd ch)

theorem agree_atBlank :
    Agree Shows (atBlank rules : Step Text Empty _)
      (do return (← Cursor.peek).any rules.isBlank) := by
  refine agree_peek.bind fun o => ?_
  cases o with
  | none => exact Agree.pure false
  | some ch => exact Agree.pure (rules.isBlank ch)

end

/-! ## reading on -/

namespace Shows

variable {r : Reader Text} {c : Cursor}

theorem advanceTaken (h : Shows r c) {n : Nat} (hn : n ≤ c.buffered) :
    Shows { r with buffer := r.buffer.consume n } (c.advanced n) := by
  rw [Cursor.advanced_of_le h.valid hn]
  exact h.taken hn

theorem advancePassed (h : Shows r c) (hwet : ¬ r.isDry = true) (hempty : r.buffer.isEmpty = true)
    (hmark : ¬ r.buffer.isMarked = true) (n : Nat) {e : Bool}
    (he : e = true → c.ahead.length ≤ n) :
    Shows { r with source := ⟨r.source.rest.drop n⟩, ended := e } (c.advanced n) := by
  have hheld := h.position_eq hempty
  have hlen := Cursor.length_ahead (h.open_of_wet hwet).1
  have hdrop : r.source.rest.drop n = r.source.rest.drop (min n c.ahead.length) := by
    rw [h.rest_eq hwet hempty]
    exact List.drop_eq_drop_min
  have hpulled : max c.pulled (c.position + min n c.ahead.length) =
      c.pulled + min n c.ahead.length := by omega
  have hle := h.valid.pulled_le
  rw [hdrop, Cursor.advanced, Cursor.looked, hpulled]
  exact h.passed hwet hempty hmark (by omega) fun hended => by
    have := he hended
    omega

theorem advanceHeld (h : Shows r c) (hheld : ¬ r.buffer.isEmpty = true) :
    c.ahead.head? = some (r.buffer.slot r.buffer.head) ∧
      Shows { r with buffer := r.buffer.consume 1 } (c.advanced 1) := by
  have hpos : c.buffered ≠ 0 := mt h.isEmpty_iff.2 hheld
  have hhead := h.stands.valid.slot_head hheld
  rw [h.held, List.head?_take, if_neg hpos] at hhead
  exact ⟨hhead, h.advanceTaken (Nat.pos_of_ne_zero hpos)⟩

theorem takeBuffered (h : Shows r c) :
    ∃ r', (Reader.takeBuffered : Step Text Empty _) r = .ok c.ahead.head? r' ∧
      Shows r' (c.advanced 1) := by
  obtain ⟨r', hr', hshows⟩ := h.fill (n := 1) h.valid.pos
  rw [takeBuffered_eq, hr', ← c.advanced_looked 1]
  by_cases he : r'.buffer.isEmpty = true
  · simp only [if_pos he]
    have hzero := hshows.isEmpty_iff.1 he
    have hnil : c.ahead = [] := by
      have := (c.buffered_looked 1).2
      rw [← List.length_eq_zero_iff]
      omega
    rw [hnil, List.head?_nil, Cursor.advanced_of_nil hshows.valid hnil]
    exact ⟨r', rfl, hshows⟩
  · simp only [if_neg he]
    obtain ⟨hhead, hend⟩ := hshows.advanceHeld he
    rw [Cursor.ahead_looked] at hhead
    rw [hhead]
    exact ⟨_, rfl, hend⟩

theorem pull (h : Shows r c) (hempty : r.buffer.isEmpty = true)
    (hmark : ¬ r.buffer.isMarked = true) :
    ∃ r', (Reader.pull : Step Text Empty _) r = .ok c.ahead.head? r' ∧ Shows r' (c.advanced 1) := by
  rw [pull_eq]
  by_cases hdry : r.isDry = true
  · have hnil := h.ahead_of_dry hdry hempty
    rw [if_pos hdry, hnil, List.head?_nil, Cursor.advanced_of_nil h.valid hnil]
    exact ⟨r, rfl, h⟩
  · have hrest : r.source.rest = c.ahead := h.rest_eq hdry hempty
    rw [if_neg hdry]
    cases hcs : r.source.rest with
    | nil =>
      rw [readChar_nil hcs, ← hrest, hcs, List.head?_nil]
      have hnew := h.advancePassed hdry hempty hmark 1 (e := true) fun _ => by
        rw [← hrest, hcs]
        exact Nat.zero_le _
      rw [hcs, List.drop_nil, ← hcs] at hnew
      exact ⟨_, rfl, hnew⟩
    | cons ch cs =>
      rw [readChar_cons hcs, ← hrest, hcs, List.head?_cons]
      have hnew := h.advancePassed hdry hempty hmark 1 (e := r.ended) fun he =>
        absurd he (h.not_ended hdry)
      rw [hcs, List.drop_one, List.tail_cons] at hnew
      exact ⟨_, rfl, hnew⟩

theorem read (h : Shows r c) :
    ∃ r', (Reader.read : Step Text Empty _) r = .ok c.ahead.head? r' ∧ Shows r' (c.advanced 1) := by
  rw [read_eq]
  by_cases he : r.buffer.isEmpty = true
  · rw [if_pos he]
    by_cases hm : r.buffer.isMarked = true
    · rw [if_pos hm]
      exact h.takeBuffered
    · rw [if_neg hm]
      exact h.pull he hm
  · rw [if_neg he]
    obtain ⟨hhead, hend⟩ := h.advanceHeld he
    rw [hhead]
    exact ⟨_, rfl, hend⟩

end Shows

theorem agree_accepting {x : Step Text Empty Bool} {y : Cursor.Move Bool} {n : Nat}
    (hxy : Agree Shows x y) (hy : ∀ c : Cursor, c.Valid → ∃ o, Cursor.Finds n c y o) :
    Agree Shows (accepting x n) (Cursor.accepting y n) := by
  intro r c h
  obtain ⟨o, k, hresult, hfound⟩ := hy c h.valid
  rw [accepting_eq, Cursor.accepting_apply]
  obtain ⟨b, r', d, hx, hd, hshows⟩ | ⟨e, r', d, hx, hd, hshows⟩ := (hxy r c h).cases
  · rw [hx, hd]
    cases b with
    | false => exact Same.ok false hshows
    | true =>
      have hn : n ≤ d.buffered := by
        rw [hd] at hresult
        match o with
        | .ok true =>
          injection hresult with _ hlooked
          rw [hlooked]
          exact hfound rfl
        | .ok false => cases hresult
        | .error e => cases hresult
      have hcount : r'.buffered = d.buffered := hshows.count
      show Same Shows (if r'.buffered < n then _ else _) _
      rw [if_neg (by omega)]
      exact Same.ok true (hshows.advanceTaken hn)
  · rw [hx, hd]
    exact Same.error e hshows

end Lookahead.Reader
