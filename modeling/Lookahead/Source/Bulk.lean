/-!
# Bulk reads

A bulk read fills a destination from the front.  What came of it is a `Bulk`: the characters that
were written, whether the input was at its end already, or how it failed and what had been written
by then.  `gather` and `discard` make the bulk read and the skip of anything that is read character
by character.
-/

namespace Lookahead

/-- what came of a bulk read -/
inductive Bulk (ε : Type) where
  /-- these characters were written -/
  | read (cs : List Char)
  /-- nothing was written: the input is at its end -/
  | ended
  /-- these characters were written when the input failed -/
  | failed (cs : List Char) (e : ε)

namespace Bulk
variable {ε δ : Type}

/-- the characters that stand in the destination now -/
def written : Bulk ε → List Char
  | read cs => cs
  | ended => []
  | failed cs _ => cs

/-- the number of characters told to the caller: none at the end of the input -/
def result : Bulk ε → Except ε (Option Nat)
  | read cs => .ok (some cs.length)
  | ended => .ok none
  | failed _ e => .error e

/-- the destination after the read: what was not written is as before -/
def fill (dst : List Char) (b : Bulk ε) : List Char := b.written ++ dst.drop b.written.length

/-- characters, or the end where there are none -/
def ofList : List Char → Bulk ε
  | [] => ended
  | cs => read cs

/-- a bulk read that goes on where `cs` were written before -/
def after (cs : List Char) : Bulk ε → Bulk ε
  | read ds => ofList (cs ++ ds)
  | ended => ofList cs
  | failed ds e => failed (cs ++ ds) e

def mapError (f : ε → δ) : Bulk ε → Bulk δ
  | read cs => read cs
  | ended => ended
  | failed cs e => failed cs (f e)

@[simp] theorem written_ofList (cs : List Char) : (ofList cs : Bulk ε).written = cs := by
  cases cs <;> rfl

@[simp] theorem written_after (cs : List Char) (b : Bulk ε) :
    (b.after cs).written = cs ++ b.written := by
  cases b with
  | read ds => exact written_ofList _
  | ended => simpa [after, written] using written_ofList cs
  | failed ds e => rfl

end Bulk

section
variable {σ ε : Type}

/-- a bulk read by single reads: until the room is used up, the input ends or a read fails -/
def gather (next : EStateM ε σ (Option Char)) : Nat → σ → Bulk ε × σ
  | 0, s => (.read [], s)
  | room + 1, s =>
    match next s with
    | .error e s => (.failed [] e, s)
    | .ok none s => (.ended, s)
    | .ok (some c) s => let (b, s) := gather next room s; (b.after [c], s)

/-- a skip by single reads: how many characters were there, at most `n` -/
def discard (next : EStateM ε σ (Option Char)) : Nat → EStateM ε σ Nat
  | 0, s => .ok 0 s
  | n + 1, s =>
    match next s with
    | .error e s => .error e s
    | .ok none s => .ok 0 s
    | .ok (some _) s => EStateM.map (· + 1) (discard next n) s

end

end Lookahead
