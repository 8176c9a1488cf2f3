import Lookahead.Buffer.Basic
import Lookahead.Options
import Lookahead.Source.Basic

/-!
# Readers

A reader stands between a source and a parser.  Characters that were looked at but not read wait in
its buffer, whose capacity bounds how far ahead it looks.  It pulls characters one at a time and only
as far as it is asked to look, so that it never reads more of a slow source than was needed.

`ended` is set when the source reports its end, and stays set: the source is not asked again.  Once
closed, a reader is at its end with nothing in the buffer.

While a mark is set, everything that is read goes through the buffer, so that `reset` can give it
back.  Without one, reads beyond the buffered characters go straight to the source.

* `Reader.fill`, `Reader.peekNth`   looking ahead;
* `Reader.read`, `Reader.readInto`, `Reader.skip`   reading;
* `Reader.mark`, `Reader.reset`   going back.
-/

namespace Lookahead

structure Reader (σ : Type) where
  source : σ
  /-- what was pulled but not read -/
  buffer : Buffer
  /-- the source has reported its end, or the reader was closed -/
  ended : Bool
  closed : Bool

abbrev Step (σ ε : Type) := EStateM (ReadError ε) (Reader σ)

namespace Reader

section
variable {σ ε α : Type}

/-! ## making a reader -/

def create (s : σ) (capacity : Nat) : Except BufferError (Reader σ) :=
  match Buffer.create capacity with
  | .error e => .error e
  | .ok b => .ok ⟨s, b, false, false⟩

/-- a reader of a source, made to the options -/
def ofOptions (s : σ) (o : ReaderOptions) : Except BufferError (Reader σ) := create s o.capacity

/-! ## questions -/

def capacity (r : Reader σ) : Nat := r.buffer.capacity

def buffered (r : Reader σ) : Nat := r.buffer.count

/-- the source is not asked any more -/
def isDry (r : Reader σ) : Bool := r.ended || r.closed

def source? (r : Reader σ) : Option σ := if r.closed then none else some r.source

/-! ## working on the parts of a reader -/

def onBuffer (x : EStateM BufferError Buffer α) : Step σ ε α := fun r =>
  match x r.buffer with
  | .ok a b => .ok a { r with buffer := b }
  | .error e b => .error (.buffer e) { r with buffer := b }

def onSource (x : EStateM ε σ α) : Step σ ε α := fun r =>
  match x r.source with
  | .ok a s => .ok a { r with source := s }
  | .error e s => .error (.source e) { r with source := s }

def setEnded : Step σ ε Unit := fun r => .ok () { r with ended := true }

end

section
variable {σ ε : Type} [Source σ ε]

/-! ## looking ahead -/

/-- pulls `k` characters into the buffer, or as many as there are -/
def pullMore : Nat → Step σ ε Unit
  | 0 => pure ()
  | k + 1 => do
    match ← onSource Source.readChar with
    | none => setEnded
    | some c =>
      onBuffer (Buffer.add c)
      pullMore k

/-- sees to it that `n` characters are buffered, or as many as there are -/
def fill (n : Nat) : Step σ ε Unit := do
  let capacity := (← get).capacity
  if capacity < n then throw (.lookahead n capacity)
  if (← get).isDry then return
  pullMore (n - (← get).buffered)

def peekNth (n : Nat) : Step σ ε (Option Char) := do
  fill (min (n + 1) maxCount)
  return (← get).buffer.peekAt n

def peek : Step σ ε (Option Char) := peekNth 0

/-! ## reading -/

/-- reads one character through the buffer -/
def takeBuffered : Step σ ε (Option Char) := do
  fill 1
  if (← get).buffer.isEmpty then return none
  return some (← onBuffer Buffer.remove)

/-- reads one character straight from the source -/
def pull : Step σ ε (Option Char) := do
  if (← get).isDry then return none
  match ← onSource Source.readChar with
  | none =>
    setEnded
    return none
  | some c => return some c

def read : Step σ ε (Option Char) := do
  if !(← get).buffer.isEmpty then return some (← onBuffer Buffer.remove)
  if (← get).buffer.isMarked then takeBuffered else pull

/-- a bulk read straight from the source -/
def pullInto (room : Nat) (r : Reader σ) : Bulk (ReadError ε) × Reader σ :=
  if room = 0 ∨ r.isDry then (.read [], r)
  else
    match Source.readInto room r.source with
    | (.ended, s) => (.ended, { r with source := s, ended := true })
    | (b, s) => (b.mapError .source, { r with source := s })

/-- a bulk read past the buffered characters: one by one through the buffer while a mark is set,
else straight from the source -/
def fetchInto (room : Nat) (r : Reader σ) : Bulk (ReadError ε) × Reader σ :=
  if r.buffer.isMarked then gather takeBuffered room r else pullInto room r

/-- moves characters into a destination with so much room: the buffered ones, then what one bulk
read gives.  Less than the room does not mean that the input has ended. -/
def readInto (room : Nat) (r : Reader σ) : Bulk (ReadError ε) × Reader σ :=
  if room = 0 then (.read [], r)
  else
    let (cs, b) := r.buffer.drain room
    let (rest, r) := fetchInto (room - cs.length) { r with buffer := b }
    (rest.after cs, r)

/-- drops characters past the buffered ones -/
def skipPast (n : Nat) : Step σ ε Nat := do
  if (← get).buffer.isMarked then discard takeBuffered n
  else if n = 0 ∨ (← get).isDry then return 0
  else onSource (Source.skip n)

/-- drops characters, at most `n`, and says how many: the buffered ones first -/
def skip (n : Nat) : Step σ ε Nat := do
  let held := (← get).buffered
  if n < held then
    onBuffer (Buffer.advance n)
    return n
  onBuffer (Buffer.advance held)
  return held + (← skipPast (n - held))

/-- the next `n` characters, failures among them, as far as there are so many -/
def chars : Nat → Reader σ → List (Except (ReadError ε) Char) × Reader σ
  | 0, r => ([], r)
  | n + 1, r =>
    match read r with
    | .ok none r => ([], r)
    | .ok (some c) r => let (cs, r) := chars n r; (.ok c :: cs, r)
    | .error e r => let (cs, r) := chars n r; (.error e :: cs, r)

/-! ## going back -/

def mark (limit : Nat) : Step σ ε Unit := onBuffer (Buffer.setMark limit)

/-- goes back to the mark, which stays set -/
def reset : Step σ ε Unit := onBuffer Buffer.resetToMark

/-! ## the source behind -/

/-- the next read does not wait for the source -/
def ready : Step σ ε Bool := do
  if !(← get).buffer.isEmpty then return true
  if (← get).isDry then return false
  onSource Source.ready

/-- lets go of the buffered characters and closes the source, once -/
def close : Step σ ε Unit := do
  let wasClosed := (← get).closed
  modify fun r => { r with buffer := r.buffer.clear, ended := true, closed := true }
  unless wasClosed do onSource Source.close

end

end Reader

end Lookahead
