import Lookahead.Utf8.Front

/-!
# Decoding by lead bytes

UTF-8 writes a character as one to four bytes, the first of which says how many there are and bounds
the second one.  `front` goes through them.  Bytes that begin no character still take up some of the
input: as many as could have begun one, and at least the first.  So no character is written in more
bytes than needed, none lies among the surrogates and none above U+10FFFF.
-/

namespace Lookahead.Utf8

/-- what a first byte says of the character it begins -/
structure Lead where
  /-- the bits of the character's number that it holds -/
  bits : Nat
  /-- how many bytes follow -/
  more : Nat
  /-- the least that the second byte can be -/
  low : Nat
  /-- the most that the second byte can be -/
  high : Nat

/-- the bytes that can begin a character, and what they announce -/
def Lead.of? (b : UInt8) : Option Lead :=
  let n := b.toNat
  if n < 0x80 then some ⟨n, 0, 0x80, 0xBF⟩
  else if n < 0xC2 then none
  else if n < 0xE0 then some ⟨n - 0xC0, 1, 0x80, 0xBF⟩
  else if n < 0xF0 then
    some ⟨n - 0xE0, 2, if n = 0xE0 then 0xA0 else 0x80, if n = 0xED then 0x9F else 0xBF⟩
  else if n < 0xF5 then
    some ⟨n - 0xF0, 3, if n = 0xF0 then 0x90 else 0x80, if n = 0xF4 then 0x8F else 0xBF⟩
  else none

/-- goes on with a character of which `size` bytes were read and `more` are to follow, the next one
between `low` and `high` -/
def extend (value size low high : Nat) : Nat → List UInt8 → Front
  | 0, _ => ⟨some (Char.ofNat value), size⟩
  | _ + 1, [] => ⟨none, size⟩
  | more + 1, b :: bs =>
    if low ≤ b.toNat ∧ b.toNat ≤ high then
      extend (value * 64 + (b.toNat - 0x80)) (size + 1) 0x80 0xBF more bs
    else ⟨none, size⟩

def front : Decode
  | [] => ⟨none, 0⟩
  | b :: bs =>
    match Lead.of? b with
    | some l => extend l.bits 1 l.low l.high l.more bs
    | none => ⟨none, 1⟩

/-! ## how many bytes a front takes -/

theorem le_size_extend (value size low high more : Nat) (bs : List UInt8) :
    size ≤ (extend value size low high more bs).size := by
  induction more generalizing value size low high bs with
  | zero => exact Nat.le_refl size
  | succ more ih =>
    cases bs with
    | nil => exact Nat.le_refl size
    | cons b bs =>
      unfold extend
      split
      · have := ih (value * 64 + (b.toNat - 0x80)) (size + 1) 0x80 0xBF bs
        omega
      · exact Nat.le_refl _

theorem size_extend_le (value size low high more : Nat) (bs : List UInt8) :
    (extend value size low high more bs).size ≤ size + min more bs.length := by
  induction more generalizing value size low high bs with
  | zero => exact Nat.le_add_right _ _
  | succ more ih =>
    cases bs with
    | nil => exact Nat.le_add_right _ _
    | cons b bs =>
      unfold extend
      split
      · have := ih (value * 64 + (b.toNat - 0x80)) (size + 1) 0x80 0xBF bs
        simp only [List.length_cons]
        omega
      · exact Nat.le_add_right _ _

theorem front_size_pos (b : UInt8) (bs : List UInt8) : 0 < (front (b :: bs)).size := by
  unfold front
  dsimp only
  split
  · exact le_size_extend _ 1 _ _ _ _
  · exact Nat.one_pos

theorem fits_front : Decode.Fits front := by
  intro bs
  cases bs with
  | nil => exact Nat.le_refl 0
  | cons b bs =>
    unfold front
    dsimp only
    split
    · next l _ =>
      have := size_extend_le l.bits 1 l.low l.high l.more bs
      rw [List.length_cons]
      omega
    · exact Nat.succ_pos bs.length

end Lookahead.Utf8
