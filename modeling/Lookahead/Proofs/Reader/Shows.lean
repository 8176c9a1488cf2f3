import Lookahead.Proofs.Cursor.Window
import Lookahead.Source.Text

/-!
# A reader of a text and its cursor

A reader of a text has pulled some of it and passed over less, and its buffer holds what lies
between.  A cursor says the same with two numbers.  `Shows` is what ties them, and it survives each
of the ways that characters take: into the buffer, out of it, and by it.

* `Shows`   a reader and a cursor that tell the same;
* `Shows.pulled`, `Shows.taken`, `Shows.passed`   the three ways;
* `Shows.fill`, `Shows.peekNth`                   looking ahead in both.
-/

namespace Lookahead.Reader

/-- a reader of a text and a cursor in it -/
structure Shows (r : Reader Text) (c : Cursor) : Prop where
  stands : Buffer.Stands c.capacity r.buffer c.window
  valid : c.Valid
  closed : r.closed = c.closed
  /-- an open reader has the rest of the text behind it -/
  rest : c.closed = false → r.source.rest = c.input.drop c.pulled
  ended : r.ended = true → c.closed = false → c.pulled = c.input.length

namespace Shows

variable {r : Reader Text} {c : Cursor}

/-! ## what is held and what lies ahead -/

theorem count (h : Shows r c) : r.buffer.count = c.buffered := by
  rw [h.stands.count]
  exact c.length_piece h.valid.pulled_le

theorem held (h : Shows r c) : r.buffer.toList = c.ahead.take c.buffered := by
  rw [h.stands.toList, h.valid.queue_window]

theorem isEmpty_iff (h : Shows r c) : r.buffer.isEmpty = true ↔ c.buffered = 0 := by
  rw [Buffer.isEmpty_iff, h.count]

theorem position_eq (h : Shows r c) (hempty : r.buffer.isEmpty = true) :
    c.position = c.pulled := by
  have hzero := h.isEmpty_iff.1 hempty
  have hle := h.valid.position_le
  unfold Cursor.buffered at hzero
  omega

theorem open_of_wet (h : Shows r c) (hwet : ¬ r.isDry = true) :
    c.closed = false ∧ r.ended = false := by
  have hor : ¬ (r.ended || r.closed) = true := hwet
  rw [Bool.or_eq_true, not_or] at hor
  exact ⟨h.closed ▸ Bool.eq_false_iff.2 hor.2, Bool.eq_false_iff.2 hor.1⟩

theorem not_ended (h : Shows r c) (hwet : ¬ r.isDry = true) : ¬ r.ended = true :=
  Bool.eq_false_iff.1 (h.open_of_wet hwet).2

theorem rest_eq (h : Shows r c) (hwet : ¬ r.isDry = true) (hempty : r.buffer.isEmpty = true) :
    r.source.rest = c.ahead := by
  have hopen := (h.open_of_wet hwet).1
  rw [h.rest hopen, ← h.position_eq hempty, Cursor.ahead, if_neg (by simp [hopen])]

theorem length_ahead_of_dry (h : Shows r c) (hdry : r.isDry = true) :
    c.ahead.length = c.buffered := by
  cases hc : c.closed with
  | false =>
    have hended : r.ended = true := by
      have hor : (r.ended || r.closed) = true := hdry
      rwa [h.closed, hc, Bool.or_false] at hor
    rw [Cursor.length_ahead hc, ← h.ended hended hc]
    rfl
  | true => rw [Cursor.ahead_of_closed hc, h.valid.buffered_of_closed hc, List.length_nil]

theorem ahead_of_dry (h : Shows r c) (hdry : r.isDry = true) (hempty : r.buffer.isEmpty = true) :
    c.ahead = [] := by
  rw [← List.length_eq_zero_iff, h.length_ahead_of_dry hdry, h.isEmpty_iff.1 hempty]

/-! ## the ways of a character -/

theorem setEnded (h : Shows r c) (hend : c.pulled = c.input.length) :
    Shows { r with ended := true } c :=
  { h with ended := fun _ _ => hend }

theorem pulled (h : Shows r c) (hwet : ¬ r.isDry = true) (hroom : c.buffered < c.capacity)
    {ch : Char} {cs : List Char} (hrest : r.source.rest = ch :: cs) :
    ∃ b, Buffer.add ch r.buffer = .ok () b ∧
      Shows { r with source := ⟨cs⟩, buffer := b } { c with pulled := c.pulled + 1 } := by
  have hopen := (h.open_of_wet hwet).1
  have hcount : r.buffer.count < r.buffer.capacity := by
    rw [h.count, h.stands.capacity]
    exact hroom
  obtain ⟨b, hb, -, -⟩ := Buffer.add_of_lt ch hcount
  have hdrop : c.input.drop c.pulled = ch :: cs := by rw [← h.rest hopen, hrest]
  have hch : c.input[c.pulled]? = some ch := by
    rw [← List.head?_drop, hdrop, List.head?_cons]
  have hlt : c.pulled < c.input.length := (List.getElem?_eq_some_iff.1 hch).1
  refine ⟨b, hb, ?_, ?_, h.closed, fun _ => ?_, fun he => ?_⟩
  · rw [h.valid.window_pulled hch]
    exact h.stands.add hb
  · exact {
      h.valid with
      position_le := Nat.le_succ_of_le h.valid.position_le
      pulled_le := hlt
      shut := fun hc => by
        have hc' : c.closed = true := hc
        rw [hopen] at hc'
        cases hc' }
  · show cs = c.input.drop (c.pulled + 1)
    rw [← List.drop_drop, hdrop, List.drop_one, List.tail_cons]
  · exact absurd he (h.not_ended hwet)

theorem taken (h : Shows r c) {k : Nat} (hk : k ≤ c.buffered) :
    Shows { r with buffer := r.buffer.consume k } { c with position := c.position + k } := by
  have hle : c.position + k ≤ c.pulled := by
    have := h.valid.position_le
    unfold Cursor.buffered at hk
    omega
  refine ⟨?_, ?_, h.closed, h.rest, h.ended⟩
  · rw [h.valid.window_taken hle]
    refine h.stands.consume ?_
    show k ≤ (c.piece c.position c.pulled).length
    rwa [c.length_piece h.valid.pulled_le]
  · exact {
      h.valid with
      position_le := hle
      mark_le := fun m hm => Nat.le_add_right_of_le (h.valid.mark_le m hm)
      shut := fun hc => by
        obtain ⟨hp, hm⟩ := h.valid.shut hc
        have hk0 : k = 0 := by
          unfold Cursor.buffered at hk
          omega
        subst hk0
        exact ⟨hp, hm⟩ }

theorem passed (h : Shows r c) (hwet : ¬ r.isDry = true) (hempty : r.buffer.isEmpty = true)
    (hmark : ¬ r.buffer.isMarked = true) {k : Nat} (hk : c.pulled + k ≤ c.input.length) {e : Bool}
    (he : e = true → c.pulled + k = c.input.length) :
    Shows { r with source := ⟨r.source.rest.drop k⟩, ended := e }
      { c with position := c.position + k, pulled := c.pulled + k } := by
  have hopen := (h.open_of_wet hwet).1
  have hheld := h.position_eq hempty
  have hlost : c.past = none := by
    rw [h.stands.isMarked] at hmark
    exact Option.not_isSome_iff_eq_none.1 hmark
  refine ⟨?_, ?_, h.closed, fun _ => ?_, fun hended _ => he hended⟩
  · rw [Cursor.window_passed hheld hlost]
    exact h.stands
  · exact {
      h.valid with
      position_le := Nat.add_le_add_right h.valid.position_le k
      pulled_le := hk
      mark_le := fun m hm => Nat.le_add_right_of_le (h.valid.mark_le m hm)
      shut := fun hc => by
        have hc' : c.closed = true := hc
        rw [hopen] at hc'
        cases hc' }
  · show r.source.rest.drop k = c.input.drop (c.pulled + k)
    rw [h.rest hopen, List.drop_drop]

/-! ## looking ahead -/

theorem readChar_nil {t : Text} (h : t.rest = []) :
    (Source.readChar t : EStateM.Result Empty Text _) = .ok none t := by
  show Text.readChar t = _
  rw [Text.readChar, h]

theorem readChar_cons {t : Text} {ch : Char} {cs : List Char} (h : t.rest = ch :: cs) :
    (Source.readChar t : EStateM.Result Empty Text _) = .ok (some ch) ⟨cs⟩ := by
  show Text.readChar t = _
  rw [Text.readChar, h]

theorem pullMore (h : Shows r c) (hwet : ¬ r.isDry = true) {k : Nat}
    (hroom : c.buffered + k ≤ c.capacity) :
    ∃ r', Reader.pullMore k r = .ok () r' ∧
      Shows r' { c with pulled := min (c.pulled + k) c.input.length } := by
  induction k generalizing r c with
  | zero =>
    refine ⟨r, rfl, ?_⟩
    rw [Nat.add_zero, Nat.min_eq_left h.valid.pulled_le]
    exact h
  | succ k ih =>
    rw [pullMore_succ]
    cases hrest : r.source.rest with
    | nil =>
      have hend : c.pulled = c.input.length := by
        have hdrop := h.rest (h.open_of_wet hwet).1
        rw [hrest] at hdrop
        have := List.drop_eq_nil_iff.1 hdrop.symm
        have := h.valid.pulled_le
        omega
      rw [readChar_nil hrest]
      refine ⟨_, rfl, ?_⟩
      rw [Nat.min_eq_right (by omega), ← hend]
      exact h.setEnded hend
    | cons ch cs =>
      rw [readChar_cons hrest]
      obtain ⟨b, hb, hnew⟩ := h.pulled hwet (by omega) hrest
      have hroom' : ({ c with pulled := c.pulled + 1 } : Cursor).buffered + k ≤ c.capacity := by
        have hle := h.valid.position_le
        unfold Cursor.buffered at hroom ⊢
        show c.pulled + 1 - c.position + k ≤ c.capacity
        omega
      obtain ⟨r', hr', hshows⟩ := ih hnew hwet hroom'
      refine ⟨r', ?_, ?_⟩
      · simp only [hb]
        exact hr'
      · have hsum : c.pulled + (k + 1) = c.pulled + 1 + k := by omega
        rw [hsum]
        exact hshows

theorem fill (h : Shows r c) {n : Nat} (hn : n ≤ c.capacity) :
    ∃ r', (Reader.fill n : Step Text Empty Unit) r = .ok () r' ∧ Shows r' (c.looked n) := by
  have hcap : r.capacity = c.capacity := h.stands.capacity
  rw [fill_eq, if_neg (by omega)]
  by_cases hdry : r.isDry = true
  · rw [if_pos hdry, c.looked_of_le]
    · exact ⟨r, rfl, h⟩
    · rw [h.length_ahead_of_dry hdry]
      have := h.valid.position_le
      unfold Cursor.buffered
      omega
  · rw [if_neg hdry]
    have hcount : r.buffered = c.buffered := h.count
    have hle := h.valid.position_le
    have hopen := (h.open_of_wet hdry).1
    obtain hmore | hless := Nat.le_total c.buffered n
    · obtain ⟨r', hr', hshows⟩ := h.pullMore hdry (k := n - c.buffered) (by omega)
      rw [hcount]
      refine ⟨r', hr', ?_⟩
      have hpulled : max c.pulled (c.position + min n c.ahead.length) =
          min (c.pulled + (n - c.buffered)) c.input.length := by
        rw [Cursor.length_ahead hopen]
        have := h.valid.pulled_le
        unfold Cursor.buffered at hmore ⊢
        omega
      rw [Cursor.looked, hpulled]
      exact hshows
    · rw [hcount, Nat.sub_eq_zero_of_le hless, c.looked_of_le]
      · exact ⟨r, rfl, h⟩
      · unfold Cursor.buffered at hless
        omega

theorem fill_refused (h : Shows r c) {n : Nat} (hn : c.capacity < n) :
    (Reader.fill n : Step Text Empty Unit) r = .error (.lookahead n c.capacity) r := by
  have hcap : r.capacity = c.capacity := h.stands.capacity
  rw [fill_eq, hcap, if_pos hn]

theorem peekAt_looked {n : Nat} (h : Shows r (c.looked (n + 1))) :
    r.buffer.peekAt n = c.ahead[n]? := by
  rw [Buffer.peekAt_eq_getElem?, h.held, Cursor.ahead_looked]
  by_cases hn : n < (c.looked (n + 1)).buffered
  · rw [List.getElem?_take_of_lt hn]
  · rw [List.getElem?_eq_none (by rw [List.length_take]; omega)]
    refine (List.getElem?_eq_none ?_).symm
    unfold Cursor.buffered Cursor.looked at hn
    simp only at hn
    omega

end Shows

end Lookahead.Reader
