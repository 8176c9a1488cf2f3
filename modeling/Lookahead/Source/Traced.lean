import Lookahead.Source.Basic

/-!
# Sources that keep a record

A traced source is a source together with the calls made to it and what came of each, oldest first.
Calls that a source makes to itself, as when a bulk read goes character by character, are not
recorded.
-/

namespace Lookahead

inductive Call (ε : Type) where
  | readChar (result : Except ε (Option Char))
  | readInto (room : Nat) (result : Bulk ε)
  | skip (n : Nat) (result : Except ε Nat)
  | ready (result : Except ε Bool)
  | close (result : Except ε Unit)

structure Traced (σ ε : Type) where
  source : σ
  calls : Array (Call ε) := #[]

namespace Traced
variable {σ ε : Type}

def fresh (t : Traced σ ε) : Traced σ ε := { t with calls := #[] }

def record {α : Type} (call : Except ε α → Call ε) (x : EStateM ε σ α) :
    EStateM ε (Traced σ ε) α := fun t =>
  match x t.source with
  | .ok a s => .ok a ⟨s, t.calls.push (call (.ok a))⟩
  | .error e s => .error e ⟨s, t.calls.push (call (.error e))⟩

theorem record_eq_ok {α : Type} {call : Except ε α → Call ε} {x : EStateM ε σ α}
    {t u : Traced σ ε} {a : α} (h : record call x t = .ok a u) :
    x t.source = .ok a u.source := by
  unfold record at h
  split at h
  · next hx =>
    simp only [EStateM.Result.ok.injEq] at h
    rw [hx, ← h.2, h.1]
  · cases h

theorem record_eq_error {α : Type} {call : Except ε α → Call ε} {x : EStateM ε σ α}
    {t u : Traced σ ε} {e : ε} (h : record call x t = .error e u) :
    x t.source = .error e u.source := by
  unfold record at h
  split at h
  · cases h
  · next hx =>
    simp only [EStateM.Result.error.injEq] at h
    rw [hx, ← h.2, h.1]

variable [Source σ ε]

def readInto (room : Nat) (t : Traced σ ε) : Bulk ε × Traced σ ε :=
  let (b, s) := Source.readInto room t.source
  (b, ⟨s, t.calls.push (.readInto room b)⟩)

instance : Source (Traced σ ε) ε where
  readChar := record .readChar Source.readChar
  readInto := readInto
  skip n := record (.skip n) (Source.skip n)
  ready := record .ready Source.ready
  close := record .close Source.close

instance [Exhaustible σ] : Exhaustible (Traced σ ε) where
  remaining t := Exhaustible.remaining t.source
  remaining_char _ _ c h := Exhaustible.remaining_char _ _ c (record_eq_ok h)
  remaining_error _ _ e h := Exhaustible.remaining_error _ _ e (record_eq_error h)

end Traced

end Lookahead
