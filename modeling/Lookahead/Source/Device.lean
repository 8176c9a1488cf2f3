import Lookahead.Source.Script

/-!
# Devices

A device is a script with a say in everything else: it may hand out less in bulk than there is room
for, skip less than it is asked to, promise to be ready, and fail when it is asked whether it is or
when it is closed.
-/

namespace Lookahead

structure Device (ε : Type) where
  /-- what single reads meet -/
  script : Script ε
  /-- the most that a bulk read hands out -/
  chunk : Option Nat := none
  /-- the most that a skip drops -/
  skipMost : Option Nat := none
  /-- what it says when asked whether it is ready -/
  isReady : Bool := false
  /-- how it fails when asked whether it is ready -/
  readyFailure : Option ε := none
  /-- how it fails when closed -/
  closeFailure : Option ε := none

namespace Device
variable {ε : Type}

/-- the smaller of a limit, if there is one, and a number -/
def cap (limit : Option Nat) (n : Nat) : Nat := min (limit.getD n) n

def readChar : EStateM ε (Device ε) (Option Char) := fun d =>
  match Script.readChar d.script with
  | .ok a s => .ok a { d with script := s }
  | .error e s => .error e { d with script := s }

def readInto (room : Nat) (d : Device ε) : Bulk ε × Device ε := gather readChar (cap d.chunk room) d

def skip (n : Nat) : EStateM ε (Device ε) Nat := fun d => discard readChar (cap d.skipMost n) d

def ready : EStateM ε (Device ε) Bool := fun d =>
  match d.readyFailure with
  | some e => .error e d
  | none => .ok d.isReady d

def close : EStateM ε (Device ε) Unit := fun d =>
  match d.closeFailure with
  | some e => .error e d
  | none => .ok () d

instance : Source (Device ε) ε where
  readChar := readChar
  readInto := readInto
  skip := skip
  ready := ready
  close := close

instance : Exhaustible (Device ε) where
  remaining d := Exhaustible.remaining d.script
  remaining_char s t c h := by
    simp only [Source.readChar, readChar] at h
    split at h
    · next hs =>
      simp only [EStateM.Result.ok.injEq] at h
      rw [h.1] at hs
      simpa [← h.2] using Exhaustible.remaining_char _ _ c hs
    · cases h
  remaining_error s t e h := by
    simp only [Source.readChar, readChar] at h
    split at h
    · cases h
    · next hs =>
      simp only [EStateM.Result.error.injEq] at h
      rw [h.1] at hs
      simpa [← h.2] using Exhaustible.remaining_error _ _ e hs

end Device

end Lookahead
