import Lookahead.Proofs.Reader.Lockstep

/-!
# Reading several characters

A bulk read and a skip take what the buffer holds and then, with a mark set, go on character by
character, or else leave the rest to the source.  Over a text all of this is reading on by so many
characters, as far as there are so many.

* `Reads.gather`, `Reads.discard`   going on character by character;
* `Shows.readInto`, `Shows.skip`    a bulk read and a skip as a whole;
* `Shows.chars`                     the next characters.
-/

namespace Lookahead.Reader

/-! ## character by character -/

theorem readInto_text (room : Nat) (t : Text) :
    (Source.readInto room t : Bulk Empty × Text) =
      (if room = 0 then .read [] else .ofList (t.rest.take room), ⟨t.rest.drop room⟩) := by
  show gather Text.readChar room t = _
  induction room generalizing t with
  | zero => rfl
  | succ room ih =>
    obtain ⟨cs⟩ := t
    cases cs with
    | nil => rfl
    | cons ch cs =>
      show (match gather Text.readChar room ⟨cs⟩ with | (b, s) => (b.after [ch], s)) = _
      rw [ih, if_neg (Nat.succ_ne_zero room)]
      by_cases hroom : room = 0
      · subst hroom
        rfl
      · rw [if_neg hroom]
        cases hcs : cs.take room with
        | nil =>
          rw [List.take_succ_cons, List.drop_succ_cons, hcs]
          rfl
        | cons d ds =>
          rw [List.take_succ_cons, List.drop_succ_cons, hcs]
          rfl

/-- a way to read one character, whichever way it takes -/
def Reads (next : Step Text Empty (Option Char)) : Prop :=
  ∀ r c, Shows r c → ∃ r', next r = .ok c.ahead.head? r' ∧ Shows r' (c.advanced 1)

/-- a bulk read that wrote `cs`, as far as what is put before it can tell -/
def Wrote (b : Bulk (ReadError Empty)) (cs : List Char) : Prop :=
  ∀ before, b.after before = .ofList (before ++ cs)

theorem Wrote.ended : Wrote .ended [] := fun before => by
  rw [List.append_nil]
  rfl

theorem Wrote.ofList (cs : List Char) : Wrote (.ofList cs) cs := fun before => by
  cases cs with
  | nil => exact Wrote.ended before
  | cons ch cs => rfl

theorem Wrote.after {b : Bulk (ReadError Empty)} {cs : List Char} (h : Wrote b cs)
    (before : List Char) : Wrote (b.after before) (before ++ cs) := by
  rw [h before]
  exact Wrote.ofList _

section
variable {next : Step Text Empty (Option Char)} {r : Reader Text} {c : Cursor}

theorem Reads.gather (hnext : Reads next) (h : Shows r c) (room : Nat) :
    ∃ b r', gather next room r = (b, r') ∧ Wrote b (c.ahead.take room) ∧
      Shows r' (c.advanced room) := by
  induction room generalizing r c with
  | zero =>
    rw [List.take_zero, Cursor.advanced_zero h.valid]
    exact ⟨.read [], r, rfl, fun before => by rw [Bulk.after], h⟩
  | succ room ih =>
    obtain ⟨r', hr', hshows⟩ := hnext r c h
    rw [Lookahead.gather, hr']
    cases hahead : c.ahead with
    | nil =>
      rw [List.head?_nil, List.take_nil, Cursor.advanced_of_nil h.valid hahead]
      rw [Cursor.advanced_of_nil h.valid hahead] at hshows
      exact ⟨.ended, r', rfl, Wrote.ended, hshows⟩
    | cons ch cs =>
      obtain ⟨b, t, hb, hwrote, hend⟩ := ih hshows
      rw [c.ahead_advanced, hahead, List.drop_one, List.tail_cons] at hwrote
      rw [c.advanced_advanced, Nat.add_comm] at hend
      refine ⟨b.after [ch], t, ?_, hwrote.after [ch], hend⟩
      rw [List.head?_cons]
      simp only [hb]

theorem Reads.discard (hnext : Reads next) (h : Shows r c) (n : Nat) :
    ∃ r', discard next n r = .ok (min n c.ahead.length) r' ∧ Shows r' (c.advanced n) := by
  induction n generalizing r c with
  | zero =>
    rw [Nat.zero_min, Cursor.advanced_zero h.valid]
    exact ⟨r, rfl, h⟩
  | succ n ih =>
    obtain ⟨r', hr', hshows⟩ := hnext r c h
    rw [Lookahead.discard, hr']
    cases hahead : c.ahead with
    | nil =>
      rw [List.head?_nil, List.length_nil, Nat.min_zero, Cursor.advanced_of_nil h.valid hahead]
      rw [Cursor.advanced_of_nil h.valid hahead] at hshows
      exact ⟨r', rfl, hshows⟩
    | cons ch cs =>
      obtain ⟨t, ht, hend⟩ := ih hshows
      rw [c.ahead_advanced, hahead, List.drop_one, List.tail_cons] at ht
      rw [c.advanced_advanced, Nat.add_comm] at hend
      refine ⟨t, ?_, hend⟩
      show EStateM.map (· + 1) (Lookahead.discard next n) r' = _
      rw [EStateM.map, ht, List.length_cons, Nat.add_min_add_right]

end

namespace Shows

variable {r : Reader Text} {c : Cursor}

theorem chars (h : Shows r c) (n : Nat) :
    ∃ r', Reader.chars n r = ((c.ahead.take n).map .ok, r') ∧ Shows r' (c.advanced n) := by
  induction n generalizing r c with
  | zero =>
    rw [Cursor.advanced_zero h.valid]
    exact ⟨r, rfl, h⟩
  | succ n ih =>
    obtain ⟨r', hr', hshows⟩ := h.read
    rw [Reader.chars, hr']
    cases hahead : c.ahead with
    | nil =>
      rw [Cursor.advanced_of_nil h.valid hahead] at hshows ⊢
      exact ⟨r', rfl, hshows⟩
    | cons ch cs =>
      obtain ⟨t, ht, hend⟩ := ih hshows
      rw [c.ahead_advanced, hahead, List.drop_one, List.tail_cons] at ht
      rw [c.advanced_advanced, Nat.add_comm] at hend
      refine ⟨t, ?_, hend⟩
      rw [List.head?_cons]
      simp only [ht]
      rfl

theorem pullInto (h : Shows r c) (hmark : ¬ r.buffer.isMarked = true) {room : Nat}
    (hempty : room = 0 ∨ r.buffer.isEmpty = true) :
    ∃ b r', Reader.pullInto (ε := Empty) room r = (b, r') ∧ Wrote b (c.ahead.take room) ∧
      Shows r' (c.advanced room) := by
  unfold Reader.pullInto
  by_cases hnone : room = 0 ∨ r.isDry = true
  · rw [if_pos hnone]
    have hwrote : Wrote (.read []) [] := fun before => by rw [Bulk.after]
    by_cases hroom : room = 0
    · rw [hroom, List.take_zero, Cursor.advanced_zero h.valid]
      exact ⟨_, r, rfl, hwrote, h⟩
    · have hdry := hnone.resolve_left hroom
      have hnil := h.ahead_of_dry hdry (hempty.resolve_left hroom)
      rw [hnil, List.take_nil, Cursor.advanced_of_nil h.valid hnil]
      exact ⟨_, r, rfl, hwrote, h⟩
  · rw [if_neg hnone]
    rw [not_or] at hnone
    obtain ⟨hroom, hwet⟩ := hnone
    have he := hempty.resolve_left hroom
    have hrest := h.rest_eq hwet he
    rw [readInto_text, if_neg hroom, hrest]
    cases hread : c.ahead.take room with
    | nil =>
      have hlen : c.ahead.length = 0 := by
        have := congrArg List.length hread
        rw [List.length_take, List.length_nil] at this
        omega
      have hnew := h.advancePassed hwet he hmark room (e := true) fun _ => by
        rw [hlen]
        exact Nat.zero_le _
      rw [hrest] at hnew
      exact ⟨_, _, rfl, Wrote.ended, hnew⟩
    | cons ch cs =>
      have hnew := h.advancePassed hwet he hmark room (e := r.ended) fun hended =>
        absurd hended (h.not_ended hwet)
      rw [hrest] at hnew
      exact ⟨_, _, rfl, Wrote.ofList (ch :: cs), hnew⟩

theorem fetchInto (h : Shows r c) {room : Nat} (hempty : room = 0 ∨ r.buffer.isEmpty = true) :
    ∃ b r', Reader.fetchInto (ε := Empty) room r = (b, r') ∧ Wrote b (c.ahead.take room) ∧
      Shows r' (c.advanced room) := by
  unfold Reader.fetchInto
  by_cases hm : r.buffer.isMarked = true
  · rw [if_pos hm]
    exact Reads.gather (fun _ _ hs => hs.takeBuffered) h room
  · rw [if_neg hm]
    exact h.pullInto hm hempty

theorem readInto (h : Shows r c) {room : Nat} (hroom : room ≠ 0) :
    ∃ r', Reader.readInto (ε := Empty) room r = (.ofList (c.ahead.take room), r') ∧
      Shows r' (c.advanced room) := by
  let k := min room c.buffered
  have hk : k ≤ c.buffered := Nat.min_le_right _ _
  have hdrained : r.buffer.toList.take room = c.ahead.take k := by
    rw [h.held, List.take_take]
  have hlen : (c.ahead.take k).length = k := by
    have := h.valid.buffered_le_ahead
    rw [List.length_take]
    omega
  have htaken := h.advanceTaken hk
  have hempty : room - k = 0 ∨ (r.buffer.consume k).isEmpty = true := by
    refine (Nat.eq_zero_or_pos (room - k)).imp id fun hmore => ?_
    rw [htaken.isEmpty_iff, Cursor.advanced_of_le h.valid hk]
    show c.pulled - (c.position + k) = 0
    have hkb : k = c.buffered := by omega
    unfold Cursor.buffered at hkb
    omega
  obtain ⟨b, r', hb, hwrote, hshows⟩ := htaken.fetchInto hempty
  refine ⟨r', ?_, ?_⟩
  · have hcs : c.ahead.take k ++ (c.ahead.drop k).take (room - k) = c.ahead.take room := by
      rw [← List.take_add, Nat.add_sub_of_le (Nat.min_le_left _ _)]
    unfold Reader.readInto
    rw [if_neg hroom, Buffer.drain_eq h.stands.valid, hdrained, h.count]
    show (match Reader.fetchInto (room - (c.ahead.take k).length)
        { r with buffer := r.buffer.consume k } with
      | (b, r) => (b.after (c.ahead.take k), r)) = _
    rw [hlen, hb]
    show (b.after (c.ahead.take k), r') = _
    rw [c.ahead_advanced] at hwrote
    rw [hwrote, hcs]
  · rw [c.advanced_advanced, Nat.add_sub_of_le (Nat.min_le_left _ _)] at hshows
    exact hshows

theorem skipPast (h : Shows r c) {n : Nat} (hempty : n = 0 ∨ r.buffer.isEmpty = true) :
    ∃ r', (Reader.skipPast n : Step Text Empty Nat) r = .ok (min n c.ahead.length) r' ∧
      Shows r' (c.advanced n) := by
  rw [skipPast_eq]
  by_cases hm : r.buffer.isMarked = true
  · rw [if_pos hm]
    exact Reads.discard (fun _ _ hs => hs.takeBuffered) h n
  · rw [if_neg hm]
    by_cases hnone : n = 0 ∨ r.isDry = true
    · rw [if_pos hnone]
      by_cases hn : n = 0
      · rw [hn, Nat.zero_min, Cursor.advanced_zero h.valid]
        exact ⟨r, rfl, h⟩
      · have hdry := hnone.resolve_left hn
        have hnil := h.ahead_of_dry hdry (hempty.resolve_left hn)
        rw [hnil, List.length_nil, Nat.min_zero, Cursor.advanced_of_nil h.valid hnil]
        exact ⟨r, rfl, h⟩
    · rw [if_neg hnone]
      rw [not_or] at hnone
      obtain ⟨hn, hwet⟩ := hnone
      have he := hempty.resolve_left hn
      have hnew := h.advancePassed hwet he hm n (e := r.ended) fun hended =>
        absurd hended (h.not_ended hwet)
      refine ⟨_, ?_, hnew⟩
      unfold onSource
      show EStateM.Result.ok (min n r.source.rest.length) _ = _
      rw [h.rest_eq hwet he]

theorem skip (h : Shows r c) (n : Nat) :
    ∃ r', (Reader.skip n : Step Text Empty Nat) r = .ok (min n c.ahead.length) r' ∧
      Shows r' (c.advanced n) := by
  have hcount : r.buffered = c.buffered := h.count
  have hle := h.valid.buffered_le_ahead
  rw [skip_eq, hcount]
  by_cases hn : n < c.buffered
  · rw [if_pos hn, Nat.min_eq_left (by omega)]
    exact ⟨_, rfl, h.advanceTaken (Nat.le_of_lt hn)⟩
  · rw [if_neg hn]
    have htaken := h.advanceTaken (Nat.le_refl c.buffered)
    obtain ⟨r', hr', hshows⟩ := htaken.skipPast (n := n - c.buffered) (.inr (by
      rw [htaken.isEmpty_iff, Cursor.advanced_of_le h.valid (Nat.le_refl _)]
      show c.pulled - (c.position + c.buffered) = 0
      unfold Cursor.buffered
      omega))
    rw [c.ahead_advanced, List.length_drop] at hr'
    rw [c.advanced_advanced, Nat.add_sub_of_le (Nat.le_of_not_lt hn)] at hshows
    refine ⟨r', ?_, hshows⟩
    have hsum : c.buffered + min (n - c.buffered) (c.ahead.length - c.buffered) =
        min n c.ahead.length := by omega
    simp only [hr', hsum]

end Shows

end Lookahead.Reader
