import Lookahead.Proofs.Agreement
import Lookahead.Proofs.Buffer.Ring

/-!
# A ring and its window

Every operation on a ring that is in order leaves it in order, and does to the window that the ring
stands for what the operation of windows does.  Nothing after this module looks at slots.

* `Buffer.Stands`      a ring in order, with so many slots, and its window;
* `Buffer.agree_add`   and its like: an operation that may be refused agrees with that of windows;
* `Buffer.Stands.consume`, `Buffer.Stands.drain`   and those that cannot fail.
-/

namespace Lookahead.Buffer

variable {b : Buffer} {n : Nat} {w : Window}

/-! ## what the window shows of the ring -/

theorem length_queue_window (b : Buffer) : b.window.queue.length = b.count := length_toList b

theorem past_of_unmarked (h : b.mark = none) : b.window.past = none := by
  show b.mark.map (fun m => b.around m b.rewind) = none
  rw [h, Option.map_none]

theorem past_of_marked {m : Nat} (h : b.mark = some m) :
    b.window.past = some (b.around m b.rewind) := by
  show b.mark.map (fun m => b.around m b.rewind) = _
  rw [h, Option.map_some]

theorem Valid.size_window (h : b.Valid) : b.window.size = b.rewind + b.count := by
  show (b.window.past.getD []).length + b.toList.length = _
  rw [length_toList]
  cases hm : b.mark with
  | none => rw [past_of_unmarked hm, h.rewind_eq hm]; rfl
  | some m => rw [past_of_marked hm, Option.getD_some, length_around]

theorem Valid.size_window_le (h : b.Valid) : b.window.size ≤ b.capacity := by
  rw [h.size_window]
  cases hm : b.mark with
  | none =>
    rw [h.rewind_eq hm, Nat.zero_add]
    exact h.count_le
  | some m => exact h.rewind_le (by simp [isMarked, hm])

theorem Valid.capacity_pos (h : b.Valid) : 0 < b.capacity := Nat.zero_lt_of_lt h.head_lt

theorem isEmpty_iff : b.isEmpty = true ↔ b.count = 0 := beq_iff_eq

theorem isEmpty_consume {k : Nat} (h : b.count ≤ k) : (b.consume k).isEmpty = true :=
  isEmpty_iff.2 (Nat.sub_eq_zero_of_le h)

theorem toList_of_isEmpty (h : b.isEmpty = true) : b.toList = [] := by
  rw [← List.length_eq_zero_iff, length_toList, isEmpty_iff.1 h]

theorem Valid.slot_head (h : b.Valid) (he : ¬ b.isEmpty = true) :
    b.toList.head? = some (b.slot b.head) := by
  have hpos : 0 < b.count := Nat.pos_of_ne_zero (mt isEmpty_iff.2 he)
  have hpeek := b.peekAt_eq_getElem? 0
  rw [peekAt, if_pos hpos, Nat.add_zero, b.wrap_of_lt h.head_lt] at hpeek
  rw [List.head?_eq_getElem?, ← hpeek]

/-! ## consuming -/

theorem Valid.consume (h : b.Valid) {k : Nat} (hk : k ≤ b.count) : (b.consume k).Valid where
  count_le := Nat.le_trans (Nat.sub_le b.count k) h.count_le
  head_lt := b.wrap_lt h.capacity_pos (b.head + k)
  tail_lt := h.tail_lt
  tail_eq := by
    show b.tail = b.wrap (b.wrap (b.head + k) + (b.count - k))
    rw [wrap_wrap_add, Nat.add_assoc, Nat.add_sub_of_le hk]
    exact h.tail_eq
  rewind_eq := by
    intro hm
    have hm' : b.mark = none := hm
    show (if b.isMarked then b.rewind + k else b.rewind) = 0
    rw [if_neg (by simp [isMarked, hm'])]
    exact h.rewind_eq hm'
  mark_lt := h.mark_lt
  mark_eq := by
    intro m hm
    have hm' : b.mark = some m := hm
    show b.wrap (m + if b.isMarked then b.rewind + k else b.rewind) = b.wrap (b.head + k)
    rw [if_pos (by simp [isMarked, hm']), ← Nat.add_assoc, ← wrap_wrap_add, h.mark_eq m hm']
  rewind_le := by
    intro hm
    have hm' : b.isMarked = true := hm
    show (if b.isMarked then b.rewind + k else b.rewind) + (b.count - k) ≤ b.capacity
    rw [if_pos hm']
    have := h.rewind_le hm'
    omega

theorem window_consume (h : b.Valid) {k : Nat} (hk : k ≤ b.count) :
    (b.consume k).window = b.window.consume k := by
  have hq : (b.consume k).toList = b.toList.drop k := by
    show b.around (b.wrap (b.head + k)) (b.count - k) = (b.around b.head b.count).drop k
    rw [around_wrap, drop_around b b.head hk]
  have hp : (b.consume k).window.past = b.window.past.map (· ++ b.toList.take k) := by
    cases hm : b.mark with
    | none =>
      rw [past_of_unmarked hm, past_of_unmarked (b := b.consume k) hm]
      rfl
    | some m =>
      rw [past_of_marked hm, past_of_marked (b := b.consume k) hm]
      show some (b.around m (if b.isMarked then b.rewind + k else b.rewind)) =
        some (b.around m b.rewind ++ (b.around b.head b.count).take k)
      rw [if_pos (by simp [isMarked, hm]), around_add, take_around b b.head hk,
        ← around_wrap b (m + b.rewind), h.mark_eq m hm]
  show Window.mk (b.consume k).window.past (b.consume k).toList = _
  rw [hp, hq]
  rfl

theorem toList_consume (h : b.Valid) {k : Nat} (hk : k ≤ b.count) :
    (b.consume k).toList = b.toList.drop k := congrArg Window.queue (window_consume h hk)

theorem past_consume (h : b.Valid) {k : Nat} (hk : k ≤ b.count) :
    (b.consume k).window.past = b.window.past.map (· ++ b.toList.take k) :=
  congrArg Window.past (window_consume h hk)

/-! ## writing -/

theorem Valid.push (h : b.Valid) (c : Char) (hc : b.rewind + b.count < b.capacity) :
    (b.push c).Valid where
  count_le := by
    rw [capacity_push]
    show b.count + 1 ≤ b.capacity
    omega
  head_lt := by
    rw [capacity_push]
    exact h.head_lt
  tail_lt := by
    rw [capacity_push]
    exact b.wrap_lt h.capacity_pos (b.tail + 1)
  tail_eq := by
    rw [wrap_push]
    show b.wrap (b.tail + 1) = b.wrap (b.head + (b.count + 1))
    rw [h.tail_eq, wrap_wrap_add, Nat.add_assoc]
  rewind_eq := h.rewind_eq
  mark_lt := by
    rw [capacity_push]
    exact h.mark_lt
  mark_eq := by
    intro m hm
    rw [wrap_push]
    exact h.mark_eq m hm
  rewind_le := by
    intro _
    rw [capacity_push]
    show b.rewind + (b.count + 1) ≤ b.capacity
    omega

theorem window_push (h : b.Valid) (c : Char) (hc : b.rewind + b.count < b.capacity) :
    (b.push c).window = ⟨b.window.past, b.window.queue ++ [c]⟩ := by
  obtain ⟨hkeep, hnew⟩ := around_push_tail (b := b) c (show b.count < b.capacity by omega) h.tail_eq
  have hq : (b.push c).toList = b.toList ++ [c] := by
    show (b.push c).around b.head (b.count + 1) = b.around b.head b.count ++ [c]
    rw [around_add, hkeep, hnew]
  have hp : (b.push c).window.past = b.window.past := by
    cases hm : b.mark with
    | none => rw [past_of_unmarked hm, past_of_unmarked (b := b.push c) hm]
    | some m =>
      rw [past_of_marked hm, past_of_marked (b := b.push c) hm]
      show some ((b.push c).around m b.rewind) = some (b.around m b.rewind)
      rw [around_push]
      intro j hj
      -- seen from the mark, the tail is `rewind + count` slots on
      have ht : b.tail = b.wrap (m + (b.rewind + b.count)) := by
        rw [h.tail_eq, ← Nat.add_assoc, ← wrap_wrap_add b (m + b.rewind), h.mark_eq m hm]
      rw [ht]
      exact b.wrap_ne (by omega) (by omega)
  show Window.mk (b.push c).window.past (b.push c).toList = _
  rw [hp, hq]
  rfl

/-! ## marks -/

theorem Valid.clearMark (h : b.Valid) : b.clearMark.Valid where
  count_le := h.count_le
  head_lt := h.head_lt
  tail_lt := h.tail_lt
  tail_eq := h.tail_eq
  rewind_eq := fun _ => rfl
  mark_lt := fun m hm => by cases hm
  mark_eq := fun m hm => by cases hm
  rewind_le := fun hm => by cases hm

theorem window_clearMark (b : Buffer) : b.clearMark.window = b.window.clearMark := rfl

theorem Valid.clear (h : b.Valid) : b.clear.Valid where
  count_le := Nat.zero_le _
  head_lt := h.capacity_pos
  tail_lt := h.capacity_pos
  tail_eq := (b.wrap_of_lt h.capacity_pos).symm
  rewind_eq := fun _ => rfl
  mark_lt := fun m hm => by cases hm
  mark_eq := fun m hm => by cases hm
  rewind_le := fun hm => by cases hm

theorem window_clear (b : Buffer) : b.clear.window = Window.empty := rfl

def markHead (b : Buffer) : Buffer := { b with mark := some b.head, rewind := 0 }

/-- the head stands at the mark `m` -/
def rewindTo (b : Buffer) (m : Nat) : Buffer :=
  { b with head := m, count := b.count + b.rewind, mark := some m, rewind := 0 }

theorem Valid.markHead (h : b.Valid) : b.markHead.Valid where
  count_le := h.count_le
  head_lt := h.head_lt
  tail_lt := h.tail_lt
  tail_eq := h.tail_eq
  rewind_eq := fun _ => rfl
  mark_lt := fun m hm => by
    cases hm
    exact h.head_lt
  mark_eq := fun m hm => by
    cases hm
    exact b.wrap_of_lt h.head_lt
  rewind_le := fun _ => by
    show 0 + b.count ≤ b.capacity
    rw [Nat.zero_add]
    exact h.count_le

theorem Valid.rewindTo (h : b.Valid) {m : Nat} (hm : b.mark = some m) :
    (b.rewindTo m).Valid := by
  have hle : b.rewind + b.count ≤ b.capacity := h.rewind_le (by simp [isMarked, hm])
  have hlt := h.mark_lt m hm
  constructor
  · show b.count + b.rewind ≤ b.capacity
    omega
  · exact hlt
  · exact h.tail_lt
  · show b.tail = b.wrap (m + (b.count + b.rewind))
    rw [h.tail_eq, Nat.add_comm b.count, ← Nat.add_assoc, ← wrap_wrap_add b (m + b.rewind),
      h.mark_eq m hm]
  · exact fun _ => rfl
  · intro k hk
    obtain rfl : m = k := Option.some.inj hk
    exact hlt
  · intro k hk
    obtain rfl : m = k := Option.some.inj hk
    exact b.wrap_of_lt hlt
  · intro _
    show 0 + (b.count + b.rewind) ≤ b.capacity
    omega

theorem toList_rewindTo (h : b.Valid) {m : Nat} (hm : b.mark = some m) :
    (b.rewindTo m).toList = b.around m b.rewind ++ b.toList := by
  show b.around m (b.count + b.rewind) = b.around m b.rewind ++ b.around b.head b.count
  rw [Nat.add_comm, around_add, ← around_wrap b (m + b.rewind), h.mark_eq m hm]

/-! ## draining -/

theorem drain_eq (h : b.Valid) (room : Nat) :
    b.drain room = (b.toList.take room, b.consume (min room b.count)) := by
  have hhead := h.head_lt
  have hcount := h.count_le
  let k := min room b.count
  let first := min k (b.capacity - b.head)
  have hk : first ≤ k := Nat.min_le_left _ _
  have htake : b.toList.take room = b.around b.head k := by
    rw [← take_around b b.head (show k ≤ b.count from Nat.min_le_right _ _), around_head_count,
      List.take_eq_take_min, length_toList]
  -- the second stretch is empty, or begins where the ring comes round to its first slot
  have hsecond : b.around (b.head + first) (k - first) = b.around 0 (k - first) := by
    by_cases hf : first = b.capacity - b.head
    · rw [← around_wrap, hf, Nat.add_sub_of_le (Nat.le_of_lt hhead), wrap_capacity]
    · have : k - first = 0 := by omega
      rw [this, around_zero, around_zero]
  have hsplit : b.around b.head k =
      (b.slots.extract b.head (b.head + first)).toList ++
        (b.slots.extract 0 (k - first)).toList := by
    rw [← around_eq_extract b (by omega)]
    conv => lhs; rw [← Nat.add_sub_of_le hk, around_add, hsecond]
    congr 1
    rw [around_eq_extract b (by omega), Nat.zero_add]
  rw [htake, hsplit]
  rfl

/-! ## a ring and its window side by side -/

/-- the ring is in order, has `n` slots and stands for the window -/
structure Stands (n : Nat) (b : Buffer) (w : Window) : Prop where
  valid : b.Valid
  capacity : b.capacity = n
  window : b.window = w

theorem Valid.stands (h : b.Valid) : Stands b.capacity b b.window := ⟨h, rfl, rfl⟩

namespace Stands

theorem ofCapacity (h : 0 < n) : Stands n (ofCapacity n) Window.empty where
  valid := valid_ofCapacity h
  capacity := Array.size_replicate
  window := window_ofCapacity n

theorem count (h : Stands n b w) : b.count = w.queue.length := by
  rw [← h.window, length_queue_window]

theorem toList (h : Stands n b w) : b.toList = w.queue := congrArg Window.queue h.window

theorem past (h : Stands n b w) : b.window.past = w.past := congrArg Window.past h.window

theorem size_le (h : Stands n b w) : w.size ≤ n := by
  rw [← h.window, ← h.capacity]
  exact h.valid.size_window_le

theorem isMarked (h : Stands n b w) : b.isMarked = w.isMarked := by
  rw [← h.window, isMarked_window]

theorem isEmpty (h : Stands n b w) : b.isEmpty = w.isEmpty := by
  show (b.count == 0) = w.queue.isEmpty
  rw [h.count]
  cases w.queue <;> rfl

theorem isFull (h : Stands n b w) : b.isFull = w.isFull n := by
  show (b.count == b.capacity) = (w.queue.length == n)
  rw [h.count, h.capacity]

theorem peekAt (h : Stands n b w) (i : Nat) : b.peekAt i = w.peekAt i := by
  rw [← h.window, peekAt_window]

theorem consume (h : Stands n b w) {k : Nat} (hk : k ≤ w.queue.length) :
    Stands n (b.consume k) (w.consume k) where
  valid := h.valid.consume (h.count ▸ hk)
  capacity := h.capacity
  window := by rw [window_consume h.valid (h.count ▸ hk), h.window]

theorem clearMark (h : Stands n b w) : Stands n b.clearMark w.clearMark where
  valid := h.valid.clearMark
  capacity := h.capacity
  window := by rw [window_clearMark, h.window]

theorem clear (h : Stands n b w) : Stands n b.clear Window.empty where
  valid := h.valid.clear
  capacity := h.capacity
  window := window_clear b

theorem drain (h : Stands n b w) (room : Nat) :
    (b.drain room).1 = w.queue.take room ∧ Stands n (b.drain room).2 (w.consume room) := by
  rw [drain_eq h.valid, h.toList]
  refine ⟨rfl, ?_⟩
  have hw : w.consume room = w.consume (min room b.count) := by
    rw [h.count]
    show Window.mk _ _ = Window.mk _ _
    rw [← List.take_eq_take_min, List.drop_eq_drop_min]
  rw [hw]
  exact h.consume (h.count ▸ Nat.min_le_right _ _)

end Stands

/-! ## operations that may be refused -/

theorem agree_add (c : Char) : Agree (Stands n) (add c) (Window.add n c) := by
  intro b w h
  have hsize : w.size = b.rewind + b.count := by rw [← h.window, h.valid.size_window]
  have hwin : ∀ b' : Buffer, b'.Valid → b'.rewind + b'.count < b'.capacity → b'.capacity = n →
      Stands n (b'.push c) ⟨b'.window.past, b'.window.queue ++ [c]⟩ := fun b' hv hlt hn =>
    ⟨hv.push c hlt, (capacity_push c).trans hn, window_push hv c hlt⟩
  unfold add Window.add
  rw [h.isFull]
  by_cases hfull : w.queue.length = n
  · rw [if_pos (by simp [Window.isFull, hfull]), if_pos hfull]
    exact Same.error _ h
  · rw [if_neg (by simp [Window.isFull, hfull]), if_neg hfull]
    have hlt : b.count < b.capacity := by
      have hle := h.valid.count_le
      have := h.count
      have := h.capacity
      omega
    by_cases hs : w.size = n
    · -- all slots are worth keeping although the queue leaves room, so there is a mark to give up
      have hm : b.isMarked = true := by
        cases hm : b.mark with
        | none =>
          have := h.valid.rewind_eq hm
          have := h.capacity
          omega
        | some m => simp [Buffer.isMarked, hm]
      rw [if_pos hs, if_pos (by simp [markAtTail, hm, ← hsize, hs, h.capacity])]
      refine Same.ok _ ?_
      have := hwin b.clearMark h.valid.clearMark
        (show 0 + b.count < b.capacity by rwa [Nat.zero_add]) h.capacity
      rw [window_clearMark, h.window] at this
      exact this
    · rw [if_neg hs, if_neg (by simp [markAtTail, ← hsize, hs, h.capacity])]
      refine Same.ok _ ?_
      have hroom : b.rewind + b.count < b.capacity := by
        have := h.size_le
        have := h.capacity
        omega
      have := hwin b h.valid hroom h.capacity
      rw [h.window] at this
      exact this

theorem add_of_lt (c : Char) (h : b.count < b.capacity) :
    ∃ b', add c b = .ok () b' ∧ b'.count = b.count + 1 ∧ b'.capacity = b.capacity := by
  unfold add
  rw [if_neg (by simpa [Buffer.isFull] using Nat.ne_of_lt h)]
  by_cases hm : b.markAtTail = true
  · exact ⟨b.clearMark.push c, if_pos hm, rfl, capacity_push c⟩
  · exact ⟨b.push c, if_neg hm, rfl, capacity_push c⟩

/-- what is left of the window after a character was added -/
theorem Stands.add (h : Stands n b w) {c : Char} {b' : Buffer} (hb : add c b = .ok () b') :
    Stands n b' ⟨if w.size = n then none else w.past, w.queue ++ [c]⟩ := by
  obtain ⟨w', hw, hst⟩ := (agree_add c b w h).of_ok hb
  unfold Window.add at hw
  by_cases hfull : w.queue.length = n
  · rw [if_pos hfull] at hw
    cases hw
  · rw [if_neg hfull] at hw
    by_cases hs : w.size = n
    · rw [if_pos hs] at hw ⊢
      cases hw
      exact hst
    · rw [if_neg hs] at hw ⊢
      cases hw
      exact hst

theorem agree_addAll (cs : List Char) : Agree (Stands n) (addAll cs) (Window.addAll n cs) := by
  induction cs with
  | nil => exact Agree.pure ()
  | cons c cs ih => exact Agree.bind (agree_add c) fun _ => ih

theorem agree_remove : Agree (Stands n) remove Window.remove := by
  intro b w h
  unfold remove Window.remove
  rw [h.isEmpty]
  cases hq : w.queue with
  | nil =>
    rw [if_pos (by simp [Window.isEmpty, hq])]
    exact Same.error _ h
  | cons c cs =>
    rw [if_neg (by simp [Window.isEmpty, hq])]
    have hpos : 0 < b.count := by simp [h.count, hq]
    have hc : b.slot b.head = c := by
      have hhead := h.valid.slot_head (by simp [isEmpty, Nat.ne_of_gt hpos])
      rw [h.toList, hq, List.head?_cons] at hhead
      exact (Option.some.inj hhead).symm
    rw [hc]
    exact Same.ok c (h.consume (h.count ▸ hpos))

theorem agree_advance (k : Nat) : Agree (Stands n) (advance k) (Window.advance k) := by
  intro b w h
  unfold advance Window.advance
  rw [h.count]
  by_cases hk : w.queue.length < k
  · rw [if_pos hk, if_pos hk]
    exact Same.error _ h
  · rw [if_neg hk, if_neg hk]
    exact Same.ok () (h.consume (Nat.le_of_not_lt hk))

theorem agree_setMark (limit : Nat) :
    Agree (Stands n) (setMark limit) (Window.setMark n limit) := by
  intro b w h
  unfold setMark Window.setMark
  rw [h.capacity]
  by_cases hl : n < limit
  · rw [if_pos hl, if_pos hl]
    exact Same.error _ h
  · rw [if_neg hl, if_neg hl]
    refine Same.ok () ⟨h.valid.markHead, h.capacity, ?_⟩
    show Window.mk (some []) b.toList = _
    rw [h.toList]

theorem agree_resetToMark : Agree (Stands n) resetToMark Window.resetToMark := by
  intro b w h
  unfold resetToMark Window.resetToMark
  cases hm : b.mark with
  | none =>
    rw [← h.window, past_of_unmarked hm]
    exact Same.error _ ⟨h.valid, h.capacity, rfl⟩
  | some m =>
    rw [← h.window, past_of_marked hm]
    refine Same.ok () ⟨h.valid.rewindTo hm, h.capacity, ?_⟩
    show Window.mk (some []) (b.rewindTo m).toList = _
    rw [toList_rewindTo h.valid hm]
    rfl

end Lookahead.Buffer
