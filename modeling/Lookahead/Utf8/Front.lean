/-!
# The front of some bytes

A decoder reads the character at the front of some bytes.  How that is done is a parameter: a
`Decode` gives the character, if there is one, and how many bytes it takes.  Where there is none, it
says how many bytes stand in its place, and these read as `replacement`.  At least one byte is taken
in any case.

* `announced`     how many bytes a character has, by its first one;
* `lossy`         the characters of a whole list of bytes, one front after another;
* `Decode.Undoes`, `Decode.Fits`   what can be relied on of the parameter.
-/

namespace Lookahead.Utf8

open String (utf8EncodeChar)

/-- what bytes that are no character read as -/
def replacement : Char := '\uFFFD'

/-- what stands at the front of some bytes -/
structure Front where
  /-- the character, if one stands there -/
  char? : Option Char
  /-- how many bytes it takes, or what stands in its place -/
  size : Nat
  deriving DecidableEq

namespace Front

def char (f : Front) : Char := f.char?.getD replacement

def taken (f : Front) : Nat := max f.size 1

theorem taken_pos (f : Front) : 0 < f.taken := Nat.lt_of_lt_of_le Nat.one_pos (Nat.le_max_right _ _)

theorem taken_of_pos (o : Option Char) {n : Nat} (h : 0 < n) : (Front.mk o n).taken = n :=
  Nat.max_eq_left h

end Front

/-- a way to read the front of some bytes -/
abbrev Decode := List UInt8 → Front

namespace Decode

/-- the bytes of a character are read as it, whatever follows them -/
def Undoes (decode : Decode) : Prop :=
  ∀ (c : Char) (rest : List UInt8),
    decode (utf8EncodeChar c ++ rest) = ⟨some c, (utf8EncodeChar c).length⟩

/-- no more bytes are said to stand at the front than there are -/
def Fits (decode : Decode) : Prop := ∀ bs : List UInt8, (decode bs).size ≤ bs.length

theorem Fits.taken_le {decode : Decode} (h : decode.Fits) (b : UInt8) (bs : List UInt8) :
    (decode (b :: bs)).taken ≤ (b :: bs).length :=
  Nat.max_le.2 ⟨h (b :: bs), Nat.succ_pos bs.length⟩

end Decode

/-- how many bytes the character has that this byte begins; a byte that begins none stands alone -/
def announced (b : UInt8) : Nat :=
  let n := b.toNat
  if 0xC2 ≤ n ∧ n ≤ 0xDF then 2
  else if 0xE0 ≤ n ∧ n ≤ 0xEF then 3
  else if 0xF0 ≤ n ∧ n ≤ 0xF4 then 4
  else 1

theorem announced_le (b : UInt8) : announced b ≤ 4 := by
  unfold announced
  dsimp only
  split
  · decide
  split
  · decide
  split <;> decide

theorem announced_pos (b : UInt8) : 0 < announced b := by
  unfold announced
  dsimp only
  split
  · decide
  split
  · decide
  split <;> decide

/-! ## whole inputs -/

section
variable (decode : Decode)

/-- the characters that some bytes read as -/
def lossy : List UInt8 → List Char
  | [] => []
  | b :: bs => (decode (b :: bs)).char :: lossy ((b :: bs).drop (decode (b :: bs)).taken)
termination_by bs => bs.length
decreasing_by
  have := (decode (b :: bs)).taken_pos
  simp only [List.length_drop, List.length_cons]
  omega

theorem lossy_nil : lossy decode [] = [] := by rw [lossy]

theorem lossy_cons (b : UInt8) (bs : List UInt8) :
    lossy decode (b :: bs) =
      (decode (b :: bs)).char :: lossy decode ((b :: bs).drop (decode (b :: bs)).taken) := by
  rw [lossy]

end

end Lookahead.Utf8
