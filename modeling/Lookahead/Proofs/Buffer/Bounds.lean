import Lookahead.Buffer.Checked
import Lookahead.Proofs.Buffer.Refinement

/-!
# A ring stays within its bounds

A ring in order, with half as many slots as can be counted, carries out every operation without a
fault: every slot and every stretch of slots it turns to is there, no sum is too large to be counted
and no difference below zero.

* `Buffer.Checked.apply_eq`       an operation with its steps checked is the operation;
* `Buffer.Checked.step_eq`, `Buffer.Checked.run_eq`   so is a request, and so is a run;
* `Buffer.never_out_of_bounds`    the fields and the steps of a ring after every run.
-/

namespace Lookahead.Buffer

open Lookahead.Checked (ok_bind pure_eq plus_of_le minus_of_le rem_of_pos ensure_of get_of_lt
  set_of_lt slice_of_le copyInto_front copyInto_after)

variable {b : Buffer}

namespace Checked

/-! ## operations that are not refused -/

section
variable (h : b.Valid)
include h

theorem wrap_eq (i : Nat) : wrap b i = .ok (b.wrap i) := rem_of_pos h.capacity_pos i

theorem get_wrap (i : Nat) :
    Lookahead.Checked.get b.slots (b.wrap i) = .ok (b.slot (b.wrap i)) :=
  get_of_lt (b.wrap_lt h.capacity_pos i) '\x00'

variable (hfits : 2 * b.capacity ≤ maxCount)
include hfits

theorem plus_head {k : Nat} (hk : k ≤ b.count) :
    Lookahead.Checked.plus b.head k = .ok (b.head + k) := by
  have := h.head_lt
  have := h.count_le
  exact plus_of_le (by omega)

theorem consume_eq {k : Nat} (hk : k ≤ b.count) : consume k b = .ok (b.consume k) := by
  rw [consume, plus_head h hfits hk, ok_bind, wrap_eq h, ok_bind, minus_of_le hk, ok_bind]
  by_cases hm : b.isMarked = true
  · have hroom : b.rewind + k ≤ maxCount := by
      have := h.rewind_le hm
      omega
    rw [if_pos hm, plus_of_le hroom, ok_bind, Buffer.consume, if_pos hm]
    rfl
  · rw [if_neg hm, pure_eq, ok_bind, Buffer.consume, if_neg hm]
    rfl

theorem push_eq (hroom : b.count < b.capacity) (c : Char) : push c b = .ok (b.push c) := by
  have ht := h.tail_lt
  rw [push, set_of_lt ht, ok_bind, plus_of_le (by omega), ok_bind, wrap_eq h, ok_bind,
    plus_of_le (by omega), ok_bind, pure_eq, Buffer.push]

theorem peekAt_eq (k : Nat) : peekAt k b = .ok (b.peekAt k) := by
  rw [peekAt, Buffer.peekAt]
  by_cases hk : k < b.count
  · rw [if_pos hk, if_pos hk, plus_head h hfits (Nat.le_of_lt hk), ok_bind, wrap_eq h, ok_bind,
      get_wrap h, ok_bind, pure_eq]
  · rw [if_neg hk, if_neg hk, pure_eq]

/-- both halves are cut out of the slots and go to a part of the destination that is as long -/
theorem drainInto_eq (dst : List Char) :
    drainInto dst b = .ok ((min dst.length b.count,
      (b.drain dst.length).1 ++ dst.drop (min dst.length b.count)), (b.drain dst.length).2) := by
  have hhead := h.head_lt
  have hcount := h.count_le
  have hsize : b.slots.size = b.capacity := rfl
  let n := min dst.length b.count
  let first := min n (b.capacity - b.head)
  have hn : n ≤ b.count := Nat.min_le_right _ _
  have hroom : n ≤ dst.length := Nat.min_le_left _ _
  have hfirst : first ≤ n := Nat.min_le_left _ _
  have hup : b.head + first ≤ b.slots.size := by omega
  have hdown : n - first ≤ b.slots.size := by omega
  have hlen₁ : (b.slots.extract b.head (b.head + first)).toList.length = first := by
    rw [Array.length_toList, Array.size_extract]
    omega
  have hlen₂ : (b.slots.extract 0 (n - first)).toList.length = n - first := by
    rw [Array.length_toList, Array.size_extract]
    omega
  rw [drainInto, minus_of_le (Nat.le_of_lt hhead), ok_bind]
  show (Lookahead.Checked.plus b.head first >>= _) = _
  rw [plus_head h hfits (Nat.le_trans hfirst hn), ok_bind,
    slice_of_le (Nat.le_add_right _ _) hup, ok_bind,
    copyInto_front (Nat.le_trans hfirst hroom) hlen₁, ok_bind,
    minus_of_le hfirst, ok_bind, slice_of_le (Nat.zero_le _) hdown, ok_bind,
    copyInto_after hlen₁ hfirst hroom hlen₂, ok_bind, consume_eq h hfits hn]
  rfl

end

/-! ## operations that may be refused -/

section
variable (h : b.Valid) (hfits : 2 * b.capacity ≤ maxCount)
include h hfits

theorem markAtTail_eq : markAtTail b = .ok b.markAtTail := by
  rw [markAtTail, Buffer.markAtTail]
  by_cases hm : b.isMarked = true
  · have hroom : b.rewind + b.count ≤ maxCount := by
      have := h.rewind_le hm
      omega
    rw [if_pos hm, plus_of_le hroom, hm, Bool.true_and]
    rfl
  · rw [if_neg hm, eq_false_of_ne_true hm, Bool.false_and]
    rfl

theorem add_eq (c : Char) : add c b = .ok (Buffer.add c b) := by
  rw [add, Buffer.add]
  by_cases hf : b.isFull = true
  · rw [if_pos hf, if_pos hf, pure_eq]
  · have hlt : b.count < b.capacity :=
      Nat.lt_of_le_of_ne h.count_le fun he => hf (beq_iff_eq.2 he)
    rw [if_neg hf, if_neg hf, markAtTail_eq h hfits, ok_bind]
    by_cases hm : b.markAtTail = true
    · rw [if_pos hm, if_pos hm, push_eq h.clearMark hfits hlt]
      rfl
    · rw [if_neg hm, if_neg hm, push_eq h hfits hlt]
      rfl

theorem remove_eq : remove b = .ok (Buffer.remove b) := by
  rw [remove, Buffer.remove]
  by_cases he : b.isEmpty = true
  · rw [if_pos he, if_pos he, pure_eq]
  · have hpos : 0 < b.count := Nat.pos_of_ne_zero (mt isEmpty_iff.2 he)
    rw [if_neg he, if_neg he, get_of_lt h.head_lt '\x00', ok_bind, consume_eq h hfits hpos]
    rfl

theorem advance_eq (k : Nat) : advance k b = .ok (Buffer.advance k b) := by
  rw [advance, Buffer.advance]
  by_cases hk : b.count < k
  · rw [if_pos hk, if_pos hk, pure_eq]
  · rw [if_neg hk, if_neg hk, consume_eq h hfits (Nat.le_of_not_lt hk)]
    rfl

theorem resetToMark_eq : resetToMark b = .ok (Buffer.resetToMark b) := by
  rw [resetToMark, Buffer.resetToMark]
  cases hm : b.mark with
  | none => rfl
  | some m =>
    have hback := h.rewindTo hm
    have hcount : b.count + b.rewind ≤ b.capacity := hback.count_le
    have hm_lt := h.mark_lt m hm
    have htail : b.tail = b.wrap (m + (b.count + b.rewind)) := hback.tail_eq
    show (Lookahead.Checked.plus b.count b.rewind >>= _) = _
    rw [plus_of_le (by omega), ok_bind, plus_of_le (by omega), ok_bind, wrap_eq h, ok_bind,
      ensure_of htail]
    rfl

theorem addAll_eq (cs : List Char) : addAll cs b = .ok (Buffer.addAll cs b) := by
  induction cs generalizing b with
  | nil => rfl
  | cons c cs ih =>
    rw [addAll, add_eq h hfits, ok_bind]
    show _ = Except.ok (EStateM.bind (Buffer.add c) (fun _ => Buffer.addAll cs) b)
    rw [EStateM.bind]
    cases hadd : Buffer.add c b with
    | error e b' => rfl
    | ok a b' =>
      have hnext := h.stands.add hadd
      exact ih hnext.valid (hnext.capacity.symm ▸ hfits)

end

/-! ## operations and runs -/

theorem reply_eq {α : Type} (say : α → Reply) {x : EStateM BufferError Buffer α}
    {y : Except Fault (Outcome α)} (hy : y = .ok (x b)) : reply say y = .ok (Reply.of say x b) := by
  rw [hy, reply, Reply.of, ok_bind]
  cases x b <;> rfl

theorem apply_eq (h : b.Valid) (hfits : 2 * b.capacity ≤ maxCount) (op : Op) :
    apply op b = .ok (op.apply b) := by
  cases op with
  | add c => exact reply_eq _ (add_eq h hfits c)
  | addAll cs => exact reply_eq _ (addAll_eq h hfits cs)
  | remove => exact reply_eq _ (remove_eq h hfits)
  | advance k => exact reply_eq _ (advance_eq h hfits k)
  | peekAt k =>
    rw [apply, peekAt_eq h hfits]
    rfl
  | drain room =>
    have hlen : (b.drain room).1.length = min room b.count := by
      rw [drain_eq h, List.length_take, length_toList]
    rw [apply, drainInto_eq h hfits, ok_bind]
    simp only [List.length_replicate, pure_eq, List.take_left' hlen]
    rfl
  | resetToMark => exact reply_eq _ (resetToMark_eq h hfits)
  | setMark limit => rfl
  | clearMark => rfl
  | clear => rfl
  | capacity => rfl

variable {n : Nat} {s : Session Buffer} {t : Session Window}

theorem step_eq (h : Session.Stands n s t) (hfits : 2 * n ≤ maxCount) (q : Request) :
    step q s = .ok (Session.step Op.apply q s) := by
  cases q with
  | op o =>
    rw [step, apply_eq h.1.valid (h.1.capacity.symm ▸ hfits)]
    rfl
  | save => rfl
  | load => rfl

theorem run_eq (h : Session.Stands n s t) (hfits : 2 * n ≤ maxCount) (qs : List Request) :
    run qs s = .ok (Session.run Op.apply qs s) := by
  induction qs generalizing s t with
  | nil => rfl
  | cons q qs ih =>
    rw [run, step_eq h hfits, ok_bind]
    show (run qs (Session.step Op.apply q s).2 >>= _) = _
    rw [ih (h.step q).2]
    rfl

end Checked

/-- **A ring stays within its bounds.**  For every size that can be had, a slot taking four bytes of
less than half of those that can be counted, and after whatever was asked of the ring, refused
operations and copies saved and restored included: head and tail are slots, `count` apart; what was
consumed since a mark still stands between the mark and the head; and the run, whatever operation
comes next, and draining into whatever destination go on without a fault, each with the outcome of
the operation: every slot and stretch of slots turned to is there, nothing is taken away from less,
no sum is too large to be counted, and going back to a mark finds the tail where it should be. -/
theorem never_out_of_bounds {n : Nat} (hn : 0 < n) (hfits : 4 * n < UInt64.size / 2)
    (qs : List Request) : ∃ b₀, create n = .ok b₀ ∧
      let ring := Session.run Op.apply qs (Session.start b₀)
      let b := ring.2.current
      Checked.run qs (Session.start b₀) = .ok ring ∧ b.capacity = n ∧
        (b.count ≤ n ∧ b.head < n ∧ b.tail < n ∧ b.tail = (b.head + b.count) % n) ∧
        (b.mark = none → b.rewind = 0) ∧
        (∀ m, b.mark = some m → m < n ∧ (m + b.rewind) % n = b.head ∧ b.rewind + b.count ≤ n) ∧
        (∀ op : Op, Checked.apply op b = .ok (op.apply b)) ∧
        ∀ dst : List Char, Checked.drainInto dst b = .ok ((min dst.length b.count,
          (Bulk.read (b.drain dst.length).1 : Bulk Empty).fill dst), (b.drain dst.length).2) := by
  have hmax : 2 * n ≤ maxCount := by
    have hsize : UInt64.size = 18446744073709551616 := rfl
    rw [hsize] at hfits
    show 2 * n ≤ UInt64.size - 1
    rw [hsize]
    omega
  refine ⟨ofCapacity n, if_neg (Nat.ne_of_gt hn), ?_⟩
  have hstart : Session.Stands n (Session.start (ofCapacity n)) (Session.start Window.empty) :=
    ⟨Stands.ofCapacity hn, trivial⟩
  obtain ⟨-, hst, -⟩ := hstart.run qs
  intro ring b
  have hv : b.Valid := hst.valid
  have hcap : b.capacity = n := hst.capacity
  have hfit : 2 * b.capacity ≤ maxCount := hcap.symm ▸ hmax
  refine ⟨Checked.run_eq hstart hmax qs, hcap, ?_, hv.rewind_eq, ?_, Checked.apply_eq hv hfit, ?_⟩
  · rw [← hcap]
    exact ⟨hv.count_le, hv.head_lt, hv.tail_lt, hv.tail_eq⟩
  · intro m hm
    rw [← hcap]
    exact ⟨hv.mark_lt m hm, hv.mark_eq m hm, hv.rewind_le (by rw [isMarked, hm]; rfl)⟩
  · intro dst
    rw [Checked.drainInto_eq hv hfit, Bulk.fill, Bulk.written, drain_eq hv, List.length_take,
      length_toList]

/-- three slots, a mark in the last one: two characters were consumed since and the ring has come
round; going back to the mark and draining around the end are next -/
theorem never_out_of_bounds_abcde :
    let qs : List Request := [.op (.addAll ['a', 'b', 'c', 'x']), .op (.advance 2),
      .op (.setMark 2), .op (.addAll ['d', 'e']), .op (.drain 2), .op (.advance 2)]
    0 < 3 ∧ 4 * 3 < UInt64.size / 2 ∧ ∃ b₀, create 3 = .ok b₀ ∧
      let ring := Session.run Op.apply qs (Session.start b₀)
      let b := ring.2.current
      ring.1 = [.reply (.failed .full), .reply .done, .reply .done, .reply .done,
        .reply (.drained ['c', 'd']), .reply (.failed .empty)] ∧
      Checked.run qs (Session.start b₀) = .ok ring ∧
      (b.head, b.tail, b.count, b.mark, b.rewind) = (1, 2, 1, some 2, 2) ∧
      (2 < 3 ∧ (2 + 2) % 3 = b.head ∧ b.rewind + b.count ≤ 3) ∧
      Checked.apply .resetToMark b = .ok (.done, ⟨#['d', 'e', 'c'], 2, 2, 3, some 2, 0⟩) ∧
      Checked.drainInto ['y', 'z'] b =
        .ok ((1, ['e', 'z']), ⟨#['d', 'e', 'c'], 2, 2, 0, some 2, 3⟩) := by
  intro qs
  refine ⟨by decide, by decide, ?_⟩
  obtain ⟨b₀, hb, hrun, -, -, -, hmark, happly, hdrain⟩ :=
    never_out_of_bounds (n := 3) (by decide) (by decide) qs
  have hb₀ : b₀ = ofCapacity 3 := (Except.ok.inj hb).symm
  subst hb₀
  exact ⟨_, hb, by decide, hrun, by decide, hmark 2 (by decide),
    (happly _).trans (congrArg Except.ok (by decide)),
    (hdrain _).trans (congrArg Except.ok (by decide))⟩

end Lookahead.Buffer
