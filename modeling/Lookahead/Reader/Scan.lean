import Lookahead.Reader.Match

/-!
# Scans

A scan reads on until it meets something.  Nothing bounds beforehand how long that takes, since a
source may go on for ever, so a scan is given a limit: how many rounds each of its loops may make.
A scan that needs more stops with `Halt.limit`; any larger limit gives the same answer as one that
was large enough.  `Reader.rounds` is large enough for a source that comes to an end.

* `Scan.iterate`   the loop that all scans are made of;
* `Reader.skipComment`, `Reader.skipTrivia`   blanks and comments;
* `Reader.takeWhile`, `Reader.rest`           characters of one kind, and all there are.
-/

namespace Lookahead

/-- why a scan stops before it has its answer -/
inductive Halt (ε : Type) where
  | error (e : ReadError ε)
  /-- a loop made all its rounds -/
  | limit

/-- an operation of a reader that may need any number of steps -/
abbrev Scan (σ ε : Type) := EStateM (Halt ε) (Reader σ)

namespace Scan
variable {σ ε α β : Type}

def step (x : Step σ ε α) : Scan σ ε α := fun r =>
  match x r with
  | .ok a r => .ok a r
  | .error e r => .error (.error e) r

/-- runs a scan and keeps its failure as a value -/
def attempt (x : Scan σ ε α) : Scan σ ε (Except (ReadError ε) α) := fun r =>
  match x r with
  | .ok a r => .ok (.ok a) r
  | .error (.error e) r => .ok (.error e) r
  | .error .limit r => .error .limit r

/-- what a round of a loop decides -/
inductive Round (α β : Type) where
  /-- go round again -/
  | again (a : α)
  /-- leave the loop -/
  | done (b : β)

/-- goes round until a round decides to leave, at most so many times -/
def iterate (body : α → Scan σ ε (Round α β)) : Nat → α → Scan σ ε β
  | 0, _ => throw .limit
  | n + 1, a => do
    match ← body a with
    | .again a => iterate body n a
    | .done b => pure b

theorem iterate_succ (body : α → Scan σ ε (Round α β)) (n : Nat) (a : α) (r : Reader σ) :
    iterate body (n + 1) a r =
      match body a r with
      | .ok (.again a) r => iterate body n a r
      | .ok (.done b) r => .ok b r
      | .error e r => .error e r := by
  rw [iterate]
  simp only [bind, EStateM.bind]
  cases body a r with
  | ok c r => cases c <;> rfl
  | error e r => rfl

end Scan

namespace Reader
open Scan

section
variable {σ ε : Type} [Source σ ε]

/-- as many rounds as a scan can need: every round but the last reads a character -/
def rounds [Exhaustible σ] (r : Reader σ) : Nat :=
  r.buffered + Exhaustible.remaining r.source + 1

/-! ## blanks and comments -/

section
variable (rules : Rules) (limit : Nat)

def skipLine : Scan σ ε Unit :=
  iterate (fun _ => do
    if ← step (atLineEnd rules) then return .done ()
    step (onBuffer (Buffer.advance 1))
    return .again ()) limit ()

/-- reads a comment up to the end of its line, if one begins here -/
def skipComment : Scan σ ε Bool := do
  if !(← step (acceptCommentStart rules)) then return false
  skipLine rules limit
  return true

/-- reads the blanks here and says whether there were any -/
def skipBlanks : Scan σ ε Bool :=
  iterate (fun found => do
    if ← step (acceptBlank rules) then return .again true
    return .done found) limit false

/-- reads blanks and comments as long as there are any -/
def skipTrivia : Scan σ ε Unit :=
  iterate (fun _ => do
    let blanks ← skipBlanks rules limit
    let comment ← skipComment rules limit
    return if blanks || comment then .again () else .done ()) limit ()

end

/-! ## runs of characters -/

def takeWhile (p : Char → Bool) (limit : Nat) : Scan σ ε (List Char) :=
  iterate (fun taken => do
    match ← step peek with
    | none => return .done taken.reverse
    | some c =>
      if p c then
        let _ ← step read
        return .again (c :: taken)
      return .done taken.reverse) limit []

def rest (limit : Nat) : Scan σ ε (List Char) :=
  iterate (fun taken => do
    match ← step read with
    | none => return .done taken.reverse
    | some c => return .again (c :: taken)) limit []

/-- what `next` gives, one after another, until it gives nothing or fails, and the failure -/
def collect {α : Type} (next : Scan σ ε (Option α)) (limit : Nat) :
    Scan σ ε (List α × Option (ReadError ε)) :=
  iterate (fun taken => do
    match ← attempt next with
    | .ok (some a) => return .again (a :: taken)
    | .ok none => return .done (taken.reverse, none)
    | .error e => return .done (taken.reverse, some e)) limit []

end

end Reader

end Lookahead
