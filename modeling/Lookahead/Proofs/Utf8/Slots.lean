import Lookahead.Utf8.Slots
import Lookahead.Proofs.Utf8.Readiness

/-!
# Four slots are enough

The bytes pending never need more than four slots, and the slots hold what is pending: as long as no
more bytes are taken than there are, with every step checked a decoder reads as it does without.

* `Slots.Keeps`             the slots hold what the decoder has pending;
* `Slots.Keeps.readChar`    reading a character goes on without a fault and keeps to the decoder.
-/

namespace Lookahead.Utf8.Slots

open Lookahead.Checked (ok_bind pure_eq plus_of_le minus_of_le get_of_lt set_of_lt slice_of_le
  copyWithin_front)

variable {ε α : Type} {decode : Decode} {s : Slots ε decode} {d : Decoder ε decode}

/-- the decoder's pending bytes stand in the first of four slots -/
structure Keeps (s : Slots ε decode) (d : Decoder ε decode) : Prop where
  feed : s.feed = d.feed
  closed : s.closed = d.closed
  size : s.slots.size = 4
  len : s.len = d.pending.length
  bytes : s.slots.toList.take s.len = d.pending

/-- the checked steps end without a fault, with this outcome and what the decoder has pending -/
def Safely (x : Except Fault (Outcome ε decode α)) (y : EStateM.Result ε (Decoder ε decode) α) :
    Prop :=
  ∃ r, x = .ok r ∧ Same Keeps r y

theorem Safely.ok (a : α) (h : Keeps s d) : Safely (.ok (.ok a s)) (.ok a d) :=
  ⟨_, rfl, Same.ok a h⟩

theorem Safely.error (e : ε) (h : Keeps s d) :
    Safely (.ok (.error e s) : Except Fault (Outcome ε decode α)) (.error e d) :=
  ⟨_, rfl, Same.error e h⟩

theorem keeps_start (feed : Feed ε) :
    Keeps ({ feed := feed } : Slots ε decode) { feed := feed } where
  feed := rfl
  closed := rfl
  size := rfl
  len := rfl
  bytes := rfl

namespace Keeps

theorem set_feed (h : Keeps s d) (f : Feed ε) :
    Keeps ({ s with feed := f } : Slots ε decode) { d with feed := f } where
  feed := rfl
  closed := h.closed
  size := h.size
  len := h.len
  bytes := h.bytes

/-! ## a byte more -/

theorem keep (h : Keeps s d) (hroom : d.pending.length < 4) (b : UInt8) :
    ∃ t, keep b s = .ok t ∧ Keeps t { d with pending := d.pending ++ [b] } := by
  have hlt : s.len < s.slots.size := by rw [h.len, h.size]; exact hroom
  have hcount : s.len + 1 ≤ maxCount := by
    rw [h.len]
    exact Nat.le_trans hroom (by decide)
  refine ⟨{ s with slots := s.slots.setIfInBounds s.len b, len := s.len + 1 }, ?_, ?_⟩
  · rw [Slots.keep, set_of_lt hlt, ok_bind, plus_of_le hcount]
    rfl
  · refine ⟨h.feed, h.closed, ?_, ?_, ?_⟩
    · rw [Array.size_setIfInBounds, h.size]
    · rw [List.length_append, List.length_singleton, ← h.len]
    · have htake : (s.slots.toList.take s.len).length = s.len := by
        rw [h.bytes, h.len]
      show (s.slots.setIfInBounds s.len b).toList.take (s.len + 1) = d.pending ++ [b]
      rw [Array.toList_setIfInBounds, List.set_eq_take_append_cons_drop,
        if_pos (show s.len < s.slots.toList.length from hlt), List.take_append, htake,
        Nat.add_sub_cancel_left, List.take_of_length_le (by omega), h.bytes]
      rfl

theorem pull (h : Keeps s d) {k : Nat} (hroom : d.pending.length + k ≤ 4) :
    Safely (pull k s) (Decoder.pull k d) := by
  induction k generalizing s d with
  | zero => exact Safely.ok () h
  | succ k ih =>
    rw [Slots.pull, Decoder.pull, h.feed]
    cases d.feed.readByte with
    | error e f => exact Safely.error e (h.set_feed f)
    | ok o f =>
      cases o with
      | none => exact Safely.ok () (h.set_feed f)
      | some b =>
        obtain ⟨t, ht, hkeeps⟩ := (h.set_feed f).keep
          (show d.pending.length < 4 by omega) b
        show Safely (Slots.keep b { s with feed := f } >>= Slots.pull k) _
        rw [ht, ok_bind]
        refine ih hkeeps ?_
        rw [List.length_append, List.length_singleton]
        omega

/-! ## a character off the front -/

/-- the bytes after the character are moved to the front, where they are pending -/
theorem takeFront (hdecode : decode.Fits) (h : Keeps s d) (hne : d.pending ≠ []) :
    Safely (takeFront s) (Decoder.takeFront d) := by
  obtain ⟨b, bs, hp⟩ := List.exists_cons_of_ne_nil hne
  have hlen : s.len = (b :: bs).length := hp ▸ h.len
  have hfit : s.len ≤ s.slots.size := by
    have := congrArg List.length h.bytes
    rw [List.length_take, Array.length_toList, ← h.len] at this
    omega
  have htaken : (decode (b :: bs)).taken ≤ s.len := hlen ▸ hdecode.taken_le b bs
  have hheld : (s.slots.extract 0 s.len).toList = b :: bs := by
    rw [Array.toList_extract, List.extract_eq_take_drop, List.drop_zero, Nat.sub_zero, h.bytes, hp]
  rw [Slots.takeFront, slice_of_le (Nat.zero_le _) hfit, ok_bind, hheld, Decoder.takeFront, hp]
  dsimp only
  rw [copyWithin_front htaken hfit, ok_bind, minus_of_le htaken, ok_bind]
  refine Safely.ok _ ⟨h.feed, h.closed, ?_, ?_, ?_⟩
  · rw [Array.size_append, Array.size_extract, Array.size_extract, ← h.size]
    omega
  · rw [List.length_drop, hlen]
  · have hmoved : (s.slots.extract (decode (b :: bs)).taken s.len).toList =
        (b :: bs).drop (decode (b :: bs)).taken := by
      rw [Array.toList_extract, List.extract_eq_take_drop, ← List.drop_take, h.bytes, hp]
    rw [Array.toList_append, hmoved, List.take_left' (by rw [List.length_drop, hlen])]

/-! ## reading -/

theorem complete (hdecode : decode.Fits) (h : Keeps s d) (hne : d.pending ≠ [])
    (hfew : d.pending.length < 4) :
    Safely (complete s) (Decoder.complete d) := by
  obtain ⟨b, bs, hp⟩ := List.exists_cons_of_ne_nil hne
  have hannounced := announced_le b
  have hlead : Lookahead.Checked.get s.slots 0 = .ok b := by
    have hzero : 0 < s.slots.size := by rw [h.size]; decide
    have hhead : s.slots.toList[0]? = some b := by
      have hpos : 0 < s.len := by rw [h.len, hp]; exact Nat.succ_pos _
      rw [← List.getElem?_take_of_lt hpos, h.bytes, hp]
      rfl
    rw [get_of_lt hzero b, Array.getD_eq_getD_getElem?, ← Array.getElem?_toList, hhead]
    rfl
  rw [Slots.complete, hlead, ok_bind, h.len, Decoder.complete, hp]
  dsimp only
  rw [Decoder.require, hp]
  obtain ⟨r, hr, hsame⟩ := h.pull (k := announced b - (b :: bs).length) (by rw [hp] at hfew ⊢; omega)
  have hkept := (Decoder.grown_pull (announced b - (b :: bs).length) d).kept
  rw [hr, ok_bind]
  obtain ⟨_, t, u, rfl, hu, htu⟩ | ⟨e, t, u, rfl, hu, htu⟩ := hsame.cases
  · rw [hu] at hkept ⊢
    refine htu.takeFront hdecode fun hnil => ?_
    rw [show (finalState (EStateM.Result.ok () u)).pending = [] from hnil, List.prefix_nil] at hkept
    exact hne hkept
  · rw [hu]
    exact Safely.error e htu

theorem readChar (hdecode : decode.Fits) (h : Keeps s d) (hfew : d.pending.length < 4) :
    Safely (readChar s) (Decoder.readChar d) := by
  rw [Slots.readChar, h.closed]
  by_cases hc : d.closed = true
  · rw [if_pos hc, Decoder.readChar, if_pos hc]
    exact Safely.ok none h
  · have hopen : d.closed = false := Bool.eq_false_iff.2 hc
    rw [if_neg hc]
    cases hp : d.pending with
    | cons b bs =>
      have hlen : s.len ≠ 0 := by rw [h.len, hp]; exact Nat.succ_ne_zero _
      rw [if_neg hlen, Decoder.readChar_of_pending hopen hp]
      exact h.complete hdecode (hp ▸ List.cons_ne_nil b bs) hfew
    | nil =>
      have hlen : s.len = 0 := by rw [h.len, hp]; rfl
      have hrequire : Decoder.require 1 d = Decoder.pull 1 d := by rw [Decoder.require, hp]; rfl
      have hone := (Decoder.grown_pull 1 d).few
      obtain ⟨r, hr, hsame⟩ := h.pull (k := 1) (by rw [hp]; decide)
      rw [if_pos hlen, hr, ok_bind]
      obtain ⟨_, t, u, rfl, hu, htu⟩ | ⟨e, t, u, rfl, hu, htu⟩ := hsame.cases
      · rw [Decoder.readChar_of_ok hopen (hrequire.trans hu)]
        dsimp only
        by_cases ht : t.len = 0
        · have hnil : u.pending = [] := List.length_eq_zero_iff.1 (htu.len ▸ ht)
          rw [if_pos ht, Decoder.complete, hnil]
          exact Safely.ok none htu
        · rw [if_neg ht]
          refine htu.complete hdecode (fun hnil => ht (by rw [htu.len, hnil]; rfl)) ?_
          rw [hu, hp] at hone
          exact Nat.lt_of_le_of_lt hone (by decide)
      · rw [Decoder.readChar_of_error hopen (hrequire.trans hu)]
        exact Safely.error e htu

end Keeps

end Lookahead.Utf8.Slots
