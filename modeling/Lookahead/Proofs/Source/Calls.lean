import Lookahead.Source.Traced

/-!
# What a record of calls says

A call to a source may have reported the end of the input, closed the source, or failed.  These are
the marks by which a record of calls is read: what must not follow what, and which call it was that
made an operation fail.

* `Call.Ends`, `Call.Closes`, `Call.Proper`, `Call.failure?`   what a call was;
* `Orderly`            no call follows one that failed, and its failure is the one told;
* `Traced.calls_of_ok`, and its like   a recorded operation adds one call.
-/

namespace Lookahead

variable {σ ε α : Type}

namespace Call

def Ends : Call ε → Prop
  | readChar (.ok none) => True
  | readInto _ .ended => True
  | _ => False

def Closes : Call ε → Prop
  | close _ => True
  | _ => False

def Proper : Call ε → Prop
  | readInto room _ => 0 < room
  | skip n _ => 0 < n
  | _ => True

def failure? : Call ε → Option ε
  | readChar (.error e) => some e
  | readInto _ (.failed _ e) => some e
  | skip _ (.error e) => some e
  | ready (.error e) => some e
  | close (.error e) => some e
  | _ => none

end Call

/-! ## failures -/

def failure? : Except ε α → Option ε
  | .error e => some e
  | .ok _ => none

def Bulk.failure? : Bulk ε → Option ε
  | failed _ e => some e
  | _ => none

theorem Bulk.failure?_after (cs : List Char) (b : Bulk ε) : (b.after cs).failure? = b.failure? := by
  have hlist : ∀ ds : List Char, (ofList ds : Bulk ε).failure? = none := by
    intro ds
    cases ds <;> rfl
  cases b with
  | read ds => exact hlist _
  | ended => exact hlist _
  | failed ds e => rfl

/-- no call failed, or the last one only, with this failure -/
def Orderly (calls : List (Call ε)) : Option ε → Prop
  | none => ∀ c ∈ calls, c.failure? = none
  | some e => ∃ quiet last, calls = quiet ++ [last] ∧ (∀ c ∈ quiet, c.failure? = none) ∧
      last.failure? = some e

namespace Orderly
variable {calls more : List (Call ε)} {failure : Option ε}

theorem nil : Orderly ([] : List (Call ε)) none := fun _ h => (List.not_mem_nil h).elim

theorem single (c : Call ε) : Orderly [c] c.failure? := by
  cases hc : c.failure? with
  | none =>
    intro d hd
    rwa [List.mem_singleton.1 hd]
  | some e => exact ⟨[], c, rfl, fun _ h => (List.not_mem_nil h).elim, hc⟩

theorem append (h : Orderly calls none) (k : Orderly more failure) :
    Orderly (calls ++ more) failure := by
  cases failure with
  | none =>
    intro c hc
    obtain hc | hc := List.mem_append.1 hc
    · exact h c hc
    · exact k c hc
  | some e =>
    obtain ⟨quiet, last, rfl, hquiet, hlast⟩ := k
    refine ⟨calls ++ quiet, last, (List.append_assoc _ _ _).symm, fun c hc => ?_, hlast⟩
    obtain hc | hc := List.mem_append.1 hc
    · exact h c hc
    · exact hquiet c hc

end Orderly

/-! ## recorded operations -/

namespace Traced
variable {call : Except ε α → Call ε} {x : EStateM ε σ α} {t u : Traced σ ε}

theorem calls_of_ok {a : α} (h : record call x t = .ok a u) :
    u.calls = t.calls.push (call (.ok a)) := by
  unfold record at h
  cases hx : x t.source with
  | ok b s =>
    rw [hx] at h
    cases h
    rfl
  | error e s =>
    rw [hx] at h
    cases h

theorem calls_of_error {e : ε} (h : record call x t = .error e u) :
    u.calls = t.calls.push (call (.error e)) := by
  unfold record at h
  cases hx : x t.source with
  | ok b s =>
    rw [hx] at h
    cases h
  | error e s =>
    rw [hx] at h
    cases h
    rfl

theorem calls_of_readInto [Source σ ε] {room : Nat} {b : Bulk ε}
    (h : Source.readInto room t = (b, u)) : u.calls = t.calls.push (.readInto room b) := by
  obtain ⟨rfl, rfl⟩ := Prod.mk.inj h
  rfl

end Traced

end Lookahead
