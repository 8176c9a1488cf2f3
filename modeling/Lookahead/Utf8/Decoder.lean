import Lookahead.Source.Basic
import Lookahead.Utf8.Decode
import Lookahead.Utf8.Feed

/-!
# Bytes as a source of characters

A decoder pulls bytes from a feed one at a time.  To read a character it pulls as many as the first
one announces, or as many as there are, reads the front of them and keeps the others for the next
character.  A failure of the feed leaves the bytes pulled so far where they are, so that the next
read goes on from there.  How a front is read is a parameter, which a run takes to be `front`.
-/

namespace Lookahead.Utf8

structure Decoder (ε : Type) (decode : Decode := front) where
  feed : Feed ε
  /-- bytes that were pulled and belong to no character read so far -/
  pending : List UInt8 := []
  closed : Bool := false

namespace Decoder
variable {ε : Type} {decode : Decode}

def pull : Nat → EStateM ε (Decoder ε decode) Unit
  | 0, d => .ok () d
  | k + 1, d =>
    match d.feed.readByte with
    | .error e f => .error e { d with feed := f }
    | .ok none f => .ok () { d with feed := f }
    | .ok (some b) f => pull k { d with feed := f, pending := d.pending ++ [b] }

/-- sees to it that `n` bytes are pending, or as many as there are -/
def require (n : Nat) : EStateM ε (Decoder ε decode) Unit := fun d =>
  pull (n - d.pending.length) d

/-- takes the character at the front of the pending bytes -/
def takeFront : EStateM ε (Decoder ε decode) (Option Char) := fun d =>
  match d.pending with
  | [] => .ok none d
  | b :: bs =>
    let front := decode (b :: bs)
    .ok (some front.char) { d with pending := (b :: bs).drop front.taken }

/-- pulls the other bytes of the character that the first pending byte begins, and takes it -/
def complete : EStateM ε (Decoder ε decode) (Option Char) := fun d =>
  match d.pending with
  | [] => .ok none d
  | b :: _ =>
    match require (announced b) d with
    | .error e d => .error e d
    | .ok _ d => takeFront d

def readChar : EStateM ε (Decoder ε decode) (Option Char) := fun d =>
  if d.closed then .ok none d
  else
    match require 1 d with
    | .error e d => .error e d
    | .ok _ d => complete d

def ready : EStateM ε (Decoder ε decode) Bool := fun d => .ok (!d.closed && !d.pending.isEmpty) d

def close : EStateM ε (Decoder ε decode) Unit := fun d =>
  .ok () { d with closed := true, pending := [] }

instance : Source (Decoder ε decode) ε where
  readChar := readChar
  ready := ready
  close := close

/-! ## reading comes to an end -/

/-- the answers ahead and the bytes pending -/
def remaining (d : Decoder ε decode) : Nat := d.feed.ahead.length + d.pending.length

theorem remaining_pull (k : Nat) (d : Decoder ε decode) :
    match pull k d with
    | .ok _ t => t.remaining ≤ d.remaining
    | .error _ t => t.remaining < d.remaining := by
  induction k generalizing d with
  | zero => exact Nat.le_refl _
  | succ k ih =>
    have hf := d.feed.ahead_readByte
    rcases hr : d.feed.readByte with ⟨_ | b, f⟩ | ⟨e, f⟩
    · simpa [hr, pull, remaining] using hf
    · have hd := ih { d with feed := f, pending := d.pending ++ [b] }
      simp only [hr] at hf
      simp only [pull, hr]
      revert hd
      split <;> intro hd <;> simp only [remaining, List.length_append, List.length_cons,
        List.length_nil] at hd ⊢ <;> omega
    · simpa [hr, pull, remaining] using hf

theorem remaining_takeFront (d : Decoder ε decode) :
    match takeFront d with
    | .ok (some _) t => t.remaining < d.remaining
    | .ok none _ => True
    | .error _ t => t.remaining < d.remaining := by
  cases hp : d.pending with
  | nil => simp [takeFront, hp]
  | cons b bs =>
    have := (decode (b :: bs)).taken_pos
    simp only [takeFront, hp, remaining, List.length_drop, List.length_cons]
    omega

theorem remaining_complete (d : Decoder ε decode) :
    match complete d with
    | .ok (some _) t => t.remaining < d.remaining
    | .ok none _ => True
    | .error _ t => t.remaining < d.remaining := by
  cases hp : d.pending with
  | nil => simp [complete, hp]
  | cons b bs =>
    have h1 := remaining_pull (announced b - (b :: bs).length) d
    simp only [complete, hp, require]
    rcases hr : pull (announced b - (b :: bs).length) d with ⟨_, t⟩ | ⟨e, t⟩
    · have h2 := remaining_takeFront t
      rw [hr] at h1
      revert h2
      dsimp only
      split <;> intro h2
      · omega
      · trivial
      · omega
    · rw [hr] at h1
      exact h1

theorem remaining_readChar (d : Decoder ε decode) :
    match readChar d with
    | .ok (some _) t => t.remaining < d.remaining
    | .ok none _ => True
    | .error _ t => t.remaining < d.remaining := by
  by_cases hc : d.closed = true
  · simp [readChar, hc]
  have h1 := remaining_pull (1 - d.pending.length) d
  simp only [readChar, hc, require]
  rcases hr : pull (1 - d.pending.length) d with ⟨_, t⟩ | ⟨e, t⟩
  · have h2 := remaining_complete t
    rw [hr] at h1
    revert h2
    simp only [Bool.false_eq_true, ↓reduceIte]
    split <;> intro h2
    · omega
    · trivial
    · omega
  · rw [hr] at h1
    simpa using h1

instance : Exhaustible (Decoder ε decode) where
  remaining := remaining
  remaining_char s t c h := by
    have := remaining_readChar s
    rw [show readChar s = .ok (some c) t from h] at this
    exact this
  remaining_error s t e h := by
    have := remaining_readChar s
    rw [show readChar s = .error e t from h] at this
    exact this

end Decoder

end Lookahead.Utf8
