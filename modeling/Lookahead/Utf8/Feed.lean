/-!
# Feeds of bytes

A feed answers one read after another: with a byte, with nothing at its end, by failing, or by
saying that the read was interrupted, which means nothing more than to ask again.  A feed may give
bytes again after it gave nothing.  What it has answered so far stays on record.

* `Feed.readByte`   asks until the answer is not an interruption;
* `Feed.pulled`     the bytes given so far.
-/

namespace Lookahead.Utf8

inductive Event (ε : Type) where
  | byte (b : UInt8)
  | interrupted
  | failure (e : ε)
  /-- there is nothing to read -/
  | nothing

def Event.byte? {ε : Type} : Event ε → Option UInt8
  | .byte b => some b
  | _ => none

structure Feed (ε : Type) where
  /-- the answers to come; after the last one there is nothing to read for good -/
  ahead : List (Event ε)
  /-- the answers given, oldest first -/
  answered : Array (Event ε) := #[]

namespace Feed
variable {ε : Type}

/-- reads once more for each interruption ahead -/
def retry : List (Event ε) → Array (Event ε) → EStateM.Result ε (Feed ε) (Option UInt8)
  | [], past => .ok none ⟨[], past.push .nothing⟩
  | .interrupted :: es, past => retry es (past.push .interrupted)
  | .byte b :: es, past => .ok (some b) ⟨es, past.push (.byte b)⟩
  | .failure e :: es, past => .error e ⟨es, past.push (.failure e)⟩
  | .nothing :: es, past => .ok none ⟨es, past.push .nothing⟩

def readByte : EStateM ε (Feed ε) (Option UInt8) := fun f => retry f.ahead f.answered

/-- the bytes given so far, oldest first -/
def pulled (f : Feed ε) : List UInt8 := f.answered.toList.filterMap Event.byte?

def given (f : Feed ε) : Nat := f.pulled.length

def reads (f : Feed ε) : Nat := f.answered.size

/-! ## what is left to answer -/

theorem ahead_retry (es : List (Event ε)) (past : Array (Event ε)) :
    match retry es past with
    | .ok (some _) f => f.ahead.length < es.length
    | .ok none f => f.ahead.length ≤ es.length
    | .error _ f => f.ahead.length < es.length := by
  fun_induction retry es past with
  | case2 es past ih =>
    revert ih
    split <;> intro ih <;> simp only [List.length_cons] <;> omega
  | _ => simp

theorem ahead_readByte (f : Feed ε) :
    match f.readByte with
    | .ok (some _) g => g.ahead.length < f.ahead.length
    | .ok none g => g.ahead.length ≤ f.ahead.length
    | .error _ g => g.ahead.length < f.ahead.length :=
  ahead_retry f.ahead f.answered

end Feed

end Lookahead.Utf8
