import Lookahead.Proofs.Cursor.Steps

/-!
# The window of a cursor

Where a cursor stands, a buffer holds what was looked at beyond the position, and keeps what was
passed over since the mark, as long as all from the mark on has room.

* `Cursor.window`   the window that a buffer stands for there;
* `Valid.window_pulled`, `Valid.window_taken`   and what looking and reading do to it;
* `window_marked`, `Valid.window_reset`         and what marking and going back do.
-/

namespace Lookahead.Cursor

variable {c : Cursor}

/-- what was passed over since the mark, as long as all from the mark on has room -/
def past (c : Cursor) : Option (List Char) :=
  c.mark.bind fun m => if c.capacity < c.pulled - m then none else some (c.piece m c.position)

/-- the window that a buffer stands for where the cursor stands -/
def window (c : Cursor) : Window := ⟨c.past, c.piece c.position c.pulled⟩

theorem past_of_mark {m : Nat} (h : c.mark = some m) :
    c.past = if c.capacity < c.pulled - m then none else some (c.piece m c.position) := by
  rw [past, h, Option.bind_some]

theorem past_of_unmarked (h : c.mark = none) : c.past = none := by
  rw [past, h, Option.bind_none]

theorem Valid.queue_window (h : c.Valid) : c.window.queue = c.ahead.take c.buffered := by
  show c.piece c.position c.pulled = _
  cases hc : c.closed with
  | false =>
    rw [ahead, if_neg (by simp [hc])]
    rfl
  | true => rw [h.buffered_of_closed hc, (h.shut hc).1, piece_self, List.take_zero]

theorem Valid.window_pulled (h : c.Valid) {ch : Char} (hch : c.input[c.pulled]? = some ch) :
    ({ c with pulled := c.pulled + 1 } : Cursor).window =
      ⟨if c.window.size = c.capacity then none else c.past, c.window.queue ++ [ch]⟩ := by
  have hple := h.position_le
  have hqueue : c.piece c.position (c.pulled + 1) = c.piece c.position c.pulled ++ [ch] := by
    obtain ⟨hlt, hget⟩ := List.getElem?_eq_some_iff.1 hch
    rw [← c.piece_append hple (Nat.le_succ c.pulled)]
    congr 1
    rw [piece, List.drop_eq_getElem_cons hlt, hget, Nat.succ_sub (Nat.le_refl c.pulled),
      Nat.sub_self]
    rfl
  have hpast : ({ c with pulled := c.pulled + 1 } : Cursor).past =
      if c.window.size = c.capacity then none else c.past := by
    obtain hm | ⟨m, hm⟩ := Option.eq_none_or_eq_some c.mark
    · have hm' : ({ c with pulled := c.pulled + 1 } : Cursor).mark = none := hm
      rw [past_of_unmarked hm, past_of_unmarked hm', ite_self]
    · have hm' : ({ c with pulled := c.pulled + 1 } : Cursor).mark = some m := hm
      have hmle := h.mark_le m hm
      rw [past_of_mark hm']
      show (if c.capacity < c.pulled + 1 - m then none else some (c.piece m c.position)) = _
      by_cases hlost : c.capacity < c.pulled - m
      · rw [past_of_mark hm, if_pos hlost, if_pos (by omega), ite_self]
      · have hsize : c.window.size = c.pulled - m := by
          show (c.past.getD []).length + (c.piece c.position c.pulled).length = _
          rw [past_of_mark hm, if_neg hlost, Option.getD_some,
            c.length_piece (Nat.le_trans hple h.pulled_le), c.length_piece h.pulled_le]
          omega
        rw [hsize, past_of_mark hm, if_neg hlost]
        by_cases hfull : c.pulled - m = c.capacity
        · rw [if_pos (by omega), if_pos hfull]
        · rw [if_neg (by omega), if_neg hfull]
  show Window.mk ({ c with pulled := c.pulled + 1 } : Cursor).past (c.piece c.position _) = _
  rw [hpast, hqueue]
  rfl

theorem Valid.window_taken (h : c.Valid) {k : Nat} (hk : c.position + k ≤ c.pulled) :
    ({ c with position := c.position + k } : Cursor).window = c.window.consume k := by
  have hqueue : c.piece (c.position + k) c.pulled = (c.piece c.position c.pulled).drop k := by
    rw [← c.drop_piece (Nat.le_add_right c.position k), Nat.add_sub_cancel_left]
  have hgone : (c.piece c.position c.pulled).take k = c.piece c.position (c.position + k) := by
    rw [← c.take_piece hk, Nat.add_sub_cancel_left]
  have hpast : ({ c with position := c.position + k } : Cursor).past =
      c.past.map (· ++ (c.piece c.position c.pulled).take k) := by
    obtain hm | ⟨m, hm⟩ := Option.eq_none_or_eq_some c.mark
    · have hm' : ({ c with position := c.position + k } : Cursor).mark = none := hm
      rw [past_of_unmarked hm, past_of_unmarked hm', Option.map_none]
    · have hm' : ({ c with position := c.position + k } : Cursor).mark = some m := hm
      rw [past_of_mark hm, past_of_mark hm']
      show (if c.capacity < c.pulled - m then none else some (c.piece m (c.position + k))) = _
      by_cases hlost : c.capacity < c.pulled - m
      · rw [if_pos hlost, if_pos hlost, Option.map_none]
      · rw [if_neg hlost, if_neg hlost, Option.map_some, hgone,
          c.piece_append (h.mark_le m hm) (Nat.le_add_right c.position k)]
  show Window.mk ({ c with position := c.position + k } : Cursor).past
    (c.piece (c.position + k) c.pulled) = _
  rw [hpast, hqueue]
  rfl

theorem window_passed (hheld : c.position = c.pulled) (hlost : c.past = none)
    (k : Nat) :
    ({ c with position := c.position + k, pulled := c.pulled + k } : Cursor).window = c.window := by
  have hpast : ({ c with position := c.position + k, pulled := c.pulled + k } : Cursor).past =
      c.past := by
    obtain hm | ⟨m, hm⟩ := Option.eq_none_or_eq_some c.mark
    · have hm' : ({ c with position := c.position + k, pulled := c.pulled + k } : Cursor).mark =
        none := hm
      rw [past_of_unmarked hm, past_of_unmarked hm']
    · have hm' : ({ c with position := c.position + k, pulled := c.pulled + k } : Cursor).mark =
        some m := hm
      rw [past_of_mark hm']
      have hbehind : c.capacity < c.pulled - m := by
        rw [past_of_mark hm] at hlost
        by_cases hbehind : c.capacity < c.pulled - m
        · exact hbehind
        · rw [if_neg hbehind] at hlost
          cases hlost
      rw [hlost]
      exact if_pos (show c.capacity < c.pulled + k - m by omega)
  show Window.mk ({ c with position := c.position + k, pulled := c.pulled + k } : Cursor).past
    (c.piece (c.position + k) (c.pulled + k)) = Window.mk c.past (c.piece c.position c.pulled)
  rw [hpast, hheld, piece_self, piece_self]

theorem window_marked (hroom : c.buffered ≤ c.capacity) :
    ({ c with mark := some c.position } : Cursor).window = ⟨some [], c.window.queue⟩ := by
  have hm : ({ c with mark := some c.position } : Cursor).mark = some c.position := rfl
  show Window.mk ({ c with mark := some c.position } : Cursor).past _ = _
  rw [past_of_mark hm]
  show Window.mk (if c.capacity < c.buffered then none
    else some (c.piece c.position c.position)) _ = _
  rw [if_neg (Nat.not_lt_of_le hroom), piece_self]
  rfl

theorem Valid.window_reset (h : c.Valid) {m : Nat} (hm : c.mark = some m)
    (hroom : ¬ c.capacity < c.pulled - m) :
    ({ c with position := m } : Cursor).window =
      ⟨some [], c.piece m c.position ++ c.window.queue⟩ := by
  have hm' : ({ c with position := m } : Cursor).mark = some m := hm
  show Window.mk ({ c with position := m } : Cursor).past (c.piece m c.pulled) = _
  rw [past_of_mark hm']
  show Window.mk (if c.capacity < c.pulled - m then none else some (c.piece m m)) _ = _
  rw [if_neg hroom, piece_self, ← c.piece_append (h.mark_le m hm) h.position_le]
  rfl

end Lookahead.Cursor
