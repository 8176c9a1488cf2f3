import Lookahead.Proofs.Buffer.Stands
import Lookahead.Reader.Destination

/-!
# What a destination holds after a bulk read

The characters that a bulk read gives stand at the front of the destination, also when it fails, and
what stood behind them stands there still.

* `overwrite_overwrite`   two stretches, one after the other, are one;
* `fillSingly_eq`         single reads into a destination write what they gather;
* `drainInto_eq`          both stretches of a buffer are written;
* `writeInto_eq`          a reader writes what its bulk read gives, whichever way it goes.
-/

namespace Lookahead

/-! ## destinations -/

theorem overwrite_nil (dst : List Char) (i : Nat) : overwrite dst i [] = dst := by
  rw [overwrite, List.append_nil]
  exact List.take_append_drop i dst

theorem length_overwrite {dst cs : List Char} {i : Nat} (h : i + cs.length ≤ dst.length) :
    (overwrite dst i cs).length = dst.length := by
  rw [overwrite, List.length_append, List.length_append, List.length_take, List.length_drop]
  omega

theorem overwrite_overwrite {dst as : List Char} {i : Nat} (h : i + as.length ≤ dst.length)
    (bs : List Char) :
    overwrite (overwrite dst i as) (i + as.length) bs = overwrite dst i (as ++ bs) := by
  have hfront : (dst.take i ++ as).length = i + as.length := by
    rw [List.length_append, List.length_take, Nat.min_eq_left (by omega)]
  have htake : (overwrite dst i as).take (i + as.length) = dst.take i ++ as := List.take_left' hfront
  have hdrop : (overwrite dst i as).drop (i + as.length + bs.length) =
      dst.drop (i + as.length + bs.length) := by
    rw [← List.drop_drop, overwrite, List.drop_left' hfront, List.drop_drop]
  rw [overwrite, htake, hdrop]
  simp only [overwrite, List.append_assoc, List.length_append, Nat.add_assoc]

theorem set_eq_overwrite {dst : List Char} {i : Nat} (h : i < dst.length) (c : Char) :
    dst.set i c = overwrite dst i [c] := by
  rw [List.set_eq_take_append_cons_drop, if_pos h, overwrite, List.append_assoc]
  rfl

theorem fill_eq_overwrite {ε : Type} (b : Bulk ε) (dst : List Char) :
    b.fill dst = overwrite dst 0 b.written := by
  rw [overwrite, Nat.zero_add]
  rfl

/-! ## what is told -/

/-- how many characters are there after a bulk read that found `n` there -/
def Bulk.count {ε : Type} (n : Nat) : Bulk ε → Except ε Nat
  | failed _ e => .error e
  | b => .ok (n + b.written.length)

theorem Bulk.count_after {ε : Type} (n : Nat) (cs : List Char) (b : Bulk ε) :
    (b.after cs).count n = b.count (n + cs.length) := by
  have hlist : ∀ ds : List Char, (ofList ds : Bulk ε).count n = .ok (n + ds.length) := by
    intro ds
    cases ds <;> rfl
  cases b with
  | read ds => exact (hlist _).trans (by rw [List.length_append, ← Nat.add_assoc]; rfl)
  | ended => exact hlist cs
  | failed _ _ => rfl

theorem Bulk.result_after {ε : Type} (cs : List Char) (b : Bulk ε) :
    (b.after cs).result = (b.count cs.length).map Reader.told := by
  have hlist : ∀ ds : List Char, (ofList ds : Bulk ε).result = .ok (Reader.told ds.length) := by
    intro ds
    cases ds <;> rfl
  cases b with
  | read ds => exact (hlist _).trans (by rw [List.length_append]; rfl)
  | ended => exact hlist cs
  | failed _ _ => rfl

/-! ## single reads -/

section
variable {σ ε : Type} (next : EStateM ε σ (Option Char))

theorem fillSingly_eq (room : Nat) {n : Nat} {dst : List Char} (h : n + room ≤ dst.length) (s : σ) :
    fillSingly next room n dst s =
      ((gather next room s).1.count n, overwrite dst n (gather next room s).1.written,
        (gather next room s).2) := by
  induction room generalizing n dst s with
  | zero =>
    rw [fillSingly, gather]
    dsimp only [Bulk.written]
    rw [overwrite_nil]
    rfl
  | succ room ih =>
    rw [fillSingly, gather]
    cases next s with
    | error e t =>
      dsimp only [Bulk.written]
      rw [overwrite_nil]
      rfl
    | ok o t =>
      cases o with
      | none =>
        dsimp only [Bulk.written]
        rw [overwrite_nil]
        rfl
      | some c =>
        have hn : n < dst.length := by omega
        have hone : n + [c].length ≤ dst.length := hn
        dsimp only
        rw [ih (by rw [List.length_set]; omega), Bulk.count_after, Bulk.written_after,
          set_eq_overwrite hn, ← overwrite_overwrite hone]
        rfl

theorem result_gather (room : Nat) (s : σ) :
    (gather next room s).1.result =
      ((gather next room s).1.count 0).map fun n => if n = 0 ∧ 0 < room then none else some n := by
  cases room with
  | zero => rfl
  | succ room =>
    rw [gather]
    cases next s with
    | error e t => rfl
    | ok o t =>
      cases o with
      | none => rfl
      | some c =>
        dsimp only
        rw [Bulk.result_after, Bulk.count_after]
        cases (gather next room t).1 <;> simp [Bulk.count, Reader.told, Except.map]

end

/-- a source writes into a destination what its bulk read gives -/
def Source.Writes {σ ε : Type} [Source σ ε] (write : List Char → σ → Written σ ε) : Prop :=
  ∀ dst s, write dst s =
    ((Source.readInto dst.length s).1.result, (Source.readInto dst.length s).1.fill dst,
      (Source.readInto dst.length s).2)

theorem Source.writeSingly_eq {σ ε : Type} [Source σ ε] (dst : List Char) (s : σ) :
    Source.writeSingly dst s =
      ((gather readChar dst.length s).1.result, (gather readChar dst.length s).1.fill dst,
        (gather readChar dst.length s).2) := by
  have hroom : 0 + dst.length ≤ dst.length := Nat.le_of_eq (Nat.zero_add _)
  rw [writeSingly, fillSingly_eq readChar dst.length hroom, result_gather, fill_eq_overwrite]
  cases (gather readChar dst.length s).1.count 0 <;> rfl

/-! ## the buffer -/

theorem Buffer.drainInto_eq {b : Buffer} (h : b.Valid) (dst : List Char) :
    b.drainInto dst =
      (min dst.length b.count, overwrite dst 0 (b.drain dst.length).1, (b.drain dst.length).2) := by
  have hhead := h.head_lt
  have hcount := h.count_le
  have hsize : b.slots.size = b.capacity := rfl
  let n := min dst.length b.count
  let first := min n (b.capacity - b.head)
  let upper := (b.slots.extract b.head (b.head + first)).toList
  let lower := (b.slots.extract 0 (n - first)).toList
  have hupper : upper.length = first := by
    rw [Array.length_toList, Array.size_extract]
    omega
  have hjoined : overwrite (overwrite dst 0 upper) (0 + upper.length) lower =
      overwrite dst 0 (upper ++ lower) := overwrite_overwrite (by omega) lower
  rw [Nat.zero_add, hupper] at hjoined
  exact Prod.ext rfl (Prod.ext hjoined rfl)

/-! ## a reader -/

namespace Reader

variable {σ ε : Type} [Source σ ε] {r : Reader σ}

theorem writePast_eq {write : List Char → σ → Written σ ε} (hwrite : Source.Writes write) {n : Nat}
    {dst : List Char} (hn : n ≤ dst.length) (r : Reader σ) :
    writePast write n dst r =
      ((fetchInto (dst.length - n) r).1.count n,
        overwrite dst n (fetchInto (ε := ε) (dst.length - n) r).1.written,
        (fetchInto (ε := ε) (dst.length - n) r).2) := by
  unfold writePast fetchInto
  by_cases hm : r.buffer.isMarked = true
  · rw [if_pos hm, if_pos hm]
    exact fillSingly_eq takeBuffered _ (by omega) r
  rw [if_neg hm, if_neg hm]
  unfold pullInto
  by_cases hc : dst.length - n = 0 ∨ r.isDry = true
  · have hno : ¬ (n < dst.length ∧ r.isDry = false) := by
      rintro ⟨hlt, hwet⟩
      obtain hzero | hdry := hc
      · omega
      · cases hwet.symm.trans hdry
    rw [if_pos hc, if_neg hno]
    dsimp only [Bulk.written]
    rw [overwrite_nil]
    rfl
  · have hyes : n < dst.length ∧ r.isDry = false :=
      ⟨by omega, by simpa using fun hdry => hc (.inr hdry)⟩
    have hjoined : ∀ b : Bulk ε, dst.take n ++ b.fill (dst.drop n) = overwrite dst n b.written :=
      fun b => by rw [Bulk.fill, overwrite, List.drop_drop, List.append_assoc]
    rw [if_neg hc, if_pos hyes, hwrite, List.length_drop]
    rcases Source.readInto (dst.length - n) r.source with ⟨b, s⟩
    cases b with
    | read cs => exact Prod.ext rfl (Prod.ext (hjoined (.read cs)) rfl)
    | ended => exact Prod.ext rfl (Prod.ext (hjoined .ended) rfl)
    | failed cs e => exact Prod.ext rfl (Prod.ext (hjoined (.failed cs e)) rfl)

/-- Whichever way the characters come, the destination is what the bulk read makes of it, and as
much is told. -/
theorem writeInto_eq {write : List Char → σ → Written σ ε} (hwrite : Source.Writes write)
    (h : r.buffer.Valid) (dst : List Char) :
    writeInto write dst r =
      ((readInto dst.length r).1.result, (readInto (ε := ε) dst.length r).1.fill dst,
        (readInto (ε := ε) dst.length r).2) := by
  rw [fill_eq_overwrite]
  unfold writeInto readInto
  by_cases h0 : dst.length = 0
  · rw [if_pos h0, if_pos h0]
    dsimp only [Bulk.written]
    rw [overwrite_nil]
    rfl
  rw [if_neg h0, if_neg h0, Buffer.drainInto_eq h]
  dsimp only
  generalize hdrain : r.buffer.drain dst.length = drained
  obtain ⟨cs, b⟩ := drained
  have hcs : cs.length = min dst.length r.buffer.count := by
    rw [show cs = (r.buffer.drain dst.length).1 by rw [hdrain], Buffer.drain_eq h, List.length_take,
      Buffer.length_toList]
  have hfit : 0 + cs.length ≤ dst.length := by omega
  have hlen : (overwrite dst 0 cs).length = dst.length := length_overwrite hfit
  have hle : cs.length ≤ (overwrite dst 0 cs).length := by omega
  -- what comes past the buffered characters goes on where they end
  rw [← hcs, writePast_eq hwrite hle, hlen]
  dsimp only
  rw [Bulk.result_after, Bulk.written_after, ← overwrite_overwrite hfit, Nat.zero_add]
  cases (fetchInto (ε := ε) (dst.length - cs.length) { r with buffer := b }).1.count cs.length <;> rfl

end Reader

end Lookahead
