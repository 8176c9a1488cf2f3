import Lookahead.Source.Bulk

/-!
# Sources of characters

A source is read character by character; it may fail and go on, and it may give characters again
after it has reported its end.  A type of sources has to say how one character is read.  Reading in
bulk and skipping then go character by character, a source does not promise to be ready, and closing
it does nothing, unless the type says otherwise.

* `Exhaustible`        reading a source again and again comes to an end, and how soon at the latest;
* `Source.remainder`   what single reads give up to the end.
-/

namespace Lookahead

/-- sources of type `σ`, failing with an `ε` -/
class Source (σ : Type) (ε : outParam Type) where
  /-- the next character, or nothing at the end of the input -/
  readChar : EStateM ε σ (Option Char)
  /-- writes characters into a destination with so much room -/
  readInto : Nat → σ → Bulk ε × σ := gather readChar
  /-- drops characters, at most so many, and says how many -/
  skip : Nat → EStateM ε σ Nat := discard readChar
  /-- the next character is at hand -/
  ready : EStateM ε σ Bool := pure false
  /-- lets go of the input -/
  close : EStateM ε σ Unit := pure ()

/-- only so many characters and failures come before the end is reported -/
class Exhaustible (σ : Type) {ε : outParam Type} [Source σ ε] where
  /-- a bound on the characters and failures to come -/
  remaining : σ → Nat
  remaining_char : ∀ (s t : σ) (c : Char),
    Source.readChar s = .ok (some c) t → remaining t < remaining s
  remaining_error : ∀ (s t : σ) (e : ε),
    Source.readChar s = .error e t → remaining t < remaining s

/-- what single reads give up to the end: characters, and failures between them -/
def Source.remainder {σ ε : Type} [Source σ ε] [Exhaustible σ] (s : σ) : List (Except ε Char) :=
  match _h : Source.readChar s with
  | .ok none _ => []
  | .ok (some c) t => .ok c :: Source.remainder t
  | .error e t => .error e :: Source.remainder t
termination_by Exhaustible.remaining s
decreasing_by
  · exact Exhaustible.remaining_char s t c _h
  · exact Exhaustible.remaining_error s t e _h

namespace Source
variable {σ ε : Type} [Source σ ε] [Exhaustible σ] {s t : σ}

theorem remainder_none (h : readChar s = .ok none t) : remainder s = [] := by
  rw [remainder]
  split
  · rfl
  · next hx => cases h.symm.trans hx
  · next hx => cases h.symm.trans hx

theorem remainder_some {c : Char} (h : readChar s = .ok (some c) t) :
    remainder s = .ok c :: remainder t := by
  rw [remainder]
  split
  · next hx => cases h.symm.trans hx
  · next hx =>
    cases h.symm.trans hx
    rfl
  · next hx => cases h.symm.trans hx

theorem remainder_error {e : ε} (h : readChar s = .error e t) :
    remainder s = .error e :: remainder t := by
  rw [remainder]
  split
  · next hx => cases h.symm.trans hx
  · next hx => cases h.symm.trans hx
  · next hx =>
    cases h.symm.trans hx
    rfl

theorem remainder_congr (h : readChar s = readChar t) : remainder s = remainder t := by
  rw [remainder]
  split
  · next hx => exact (remainder_none (h.symm.trans hx)).symm
  · next hx => exact (remainder_some (h.symm.trans hx)).symm
  · next hx => exact (remainder_error (h.symm.trans hx)).symm

theorem length_remainder_le (s : σ) : (remainder s).length ≤ Exhaustible.remaining s := by
  fun_induction remainder s with
  | case1 => exact Nat.zero_le _
  | case2 s c t h ih => exact Nat.lt_of_le_of_lt ih (Exhaustible.remaining_char s t c h)
  | case3 s e t h ih => exact Nat.lt_of_le_of_lt ih (Exhaustible.remaining_error s t e h)

end Source

end Lookahead
