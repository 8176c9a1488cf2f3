import Lookahead.Proofs.Buffer.Stands

/-!
# Rings that hold the same

Two rings may hold the same characters in different slots, and remember different marks.  Whatever is
done to both keeps them holding the same, except going back to the mark.

* `Buffer.Twin`            two rings in order, with so many slots and the same held;
* `Twin.add`, `Twin.advance`, `Twin.setMark`   what may be refused is refused by both or neither;
* `Buffer.Valid.through`   a character passes through an empty ring.
-/

namespace Lookahead.Buffer

/-- two rings in order, with so many slots and the same characters held -/
structure Twin (b b' : Buffer) : Prop where
  valid : b.Valid
  valid' : b'.Valid
  capacity : b.capacity = b'.capacity
  held : b.toList = b'.toList

namespace Twin
variable {b b' b'' : Buffer}

theorem symm (h : b.Twin b') : b'.Twin b := ⟨h.valid', h.valid, h.capacity.symm, h.held.symm⟩

theorem trans (h : b.Twin b') (k : b'.Twin b'') : b.Twin b'' :=
  ⟨h.valid, k.valid', h.capacity.trans k.capacity, h.held.trans k.held⟩

theorem count (h : b.Twin b') : b.count = b'.count := by
  rw [← length_toList, ← length_toList, h.held]

theorem isEmpty (h : b.Twin b') : b.isEmpty = b'.isEmpty := congrArg (· == 0) h.count

theorem peekAt (h : b.Twin b') (n : Nat) : b.peekAt n = b'.peekAt n := by
  rw [peekAt_eq_getElem?, peekAt_eq_getElem?, h.held]

theorem slot_head (h : b.Twin b') (he : ¬ b.isEmpty = true) : b.slot b.head = b'.slot b'.head := by
  have hb := h.valid.slot_head he
  have hb' := h.valid'.slot_head (h.isEmpty ▸ he)
  rw [h.held] at hb
  exact Option.some.inj (hb.symm.trans hb')

theorem consume (h : b.Twin b') {k : Nat} (hk : k ≤ b.count) :
    (b.consume k).Twin (b'.consume k) := by
  have hk' : k ≤ b'.count := h.count ▸ hk
  refine ⟨h.valid.consume hk, h.valid'.consume hk', h.capacity, ?_⟩
  rw [toList_consume h.valid hk, toList_consume h.valid' hk', h.held]

theorem clear (h : b.Twin b') : b.clear.Twin b'.clear :=
  ⟨h.valid.clear, h.valid'.clear, h.capacity, rfl⟩

theorem markHead (h : b.Twin b') : b.Twin b'.markHead :=
  ⟨h.valid, h.valid'.markHead, h.capacity, h.held⟩

theorem add (h : b.Twin b') (c : Char) : Same Twin (Buffer.add c b) (Buffer.add c b') := by
  by_cases hlt : b.count < b.capacity
  · obtain ⟨d, hd, -, hcap⟩ := add_of_lt c hlt
    obtain ⟨d', hd', -, hcap'⟩ := add_of_lt c (h.count ▸ h.capacity ▸ hlt)
    have hnew := h.valid.stands.add hd
    have hnew' := h.valid'.stands.add hd'
    rw [hd, hd']
    refine Same.ok () ⟨hnew.valid, hnew'.valid, by rw [hcap, hcap', h.capacity], ?_⟩
    rw [hnew.toList, hnew'.toList]
    exact congrArg (· ++ [c]) h.held
  · have hfull : b.isFull = true := beq_iff_eq.2 (Nat.le_antisymm h.valid.count_le (by omega))
    have hfull' : b'.isFull = true := by
      rw [isFull, ← h.count, ← h.capacity]
      exact hfull
    unfold Buffer.add
    rw [if_pos hfull, if_pos hfull']
    exact Same.error _ h

theorem advance (h : b.Twin b') (n : Nat) :
    Same Twin (Buffer.advance n b) (Buffer.advance n b') := by
  unfold Buffer.advance
  rw [← h.count]
  by_cases hn : b.count < n
  · rw [if_pos hn, if_pos hn]
    exact Same.error _ h
  · rw [if_neg hn, if_neg hn]
    exact Same.ok () (h.consume (Nat.le_of_not_lt hn))

theorem setMark (h : b.Twin b') (limit : Nat) :
    Same Twin (Buffer.setMark limit b) (Buffer.setMark limit b') := by
  unfold Buffer.setMark
  rw [← h.capacity]
  by_cases hl : b.capacity < limit
  · rw [if_pos hl, if_pos hl]
    exact Same.error _ h
  · rw [if_neg hl, if_neg hl]
    exact Same.ok () ⟨h.valid.markHead, h.valid'.markHead, h.capacity, h.held⟩

end Twin

/-- a character that goes through an empty ring comes out of it, and it is empty again -/
theorem Valid.through {b : Buffer} (h : b.Valid) (he : b.isEmpty = true) (c : Char) :
    ∃ b', add c b = .ok () b' ∧ ¬ b'.isEmpty = true ∧ b'.slot b'.head = c ∧
      (b'.consume 1).Twin b := by
  have hlt : b.count < b.capacity := by
    rw [isEmpty_iff.1 he]
    exact h.capacity_pos
  obtain ⟨b', hb, hcount, hcap⟩ := add_of_lt c hlt
  rw [isEmpty_iff.1 he, Nat.zero_add] at hcount
  have hnew := h.stands.add hb
  have hlist : b'.toList = [c] := by
    rw [hnew.toList]
    exact congrArg (· ++ [c]) (toList_of_isEmpty he)
  have hfull : ¬ b'.isEmpty = true := by
    rw [isEmpty_iff, hcount]
    exact Nat.one_ne_zero
  have hslot := hnew.valid.slot_head hfull
  rw [hlist] at hslot
  have hone : 1 ≤ b'.count := Nat.le_of_eq hcount.symm
  refine ⟨b', hb, hfull, (Option.some.inj hslot).symm, hnew.valid.consume hone, h, hcap, ?_⟩
  rw [toList_consume hnew.valid hone, hlist, toList_of_isEmpty he]
  rfl

end Lookahead.Buffer
