import Lookahead.Reader.Operation
import Lookahead.Trivia

/-!
# A reader without a buffer

A `Cursor` is a whole text and a position in it.  It answers the operations of a reader without
slots, source or end: looking ahead is looking at the text, reading is moving the position, going
back is moving it back.  The capacity counts only where the reader must refuse, and `pulled`, how far
into the text anyone has looked, only where a mark is too far behind.

* `Cursor.run`   one operation, with the outcome that a reader over the same text has.
-/

namespace Lookahead

structure Cursor where
  input : List Char
  capacity : Nat
  /-- how many characters were read -/
  position : Nat := 0
  /-- how many characters were looked at or read -/
  pulled : Nat := 0
  /-- where the mark is -/
  mark : Option Nat := none
  closed : Bool := false

namespace Cursor

abbrev Move := EStateM (ReadError Empty) Cursor

def ahead (c : Cursor) : List Char := if c.closed then [] else c.input.drop c.position

/-- how many characters were looked at but not read -/
def buffered (c : Cursor) : Nat := c.pulled - c.position

/-! ## looking -/

/-- `n` characters were looked at, or as many as there are -/
def look (n : Nat) : Move Unit :=
  modify fun c => { c with pulled := max c.pulled (c.position + min n c.ahead.length) }

def fill (n : Nat) : Move Unit := do
  let c ← get
  if c.capacity < n then throw (.lookahead n c.capacity)
  look n

def peekNth (n : Nat) : Move (Option Char) := do
  fill (min (n + 1) maxCount)
  return (← get).ahead[n]?

def peek : Move (Option Char) := peekNth 0

/-- how many characters two texts begin with alike -/
def common : List Char → List Char → Nat
  | a :: as, b :: bs => if a = b then common as bs + 1 else 0
  | _, _ => 0

/-- the text is compared as far as it is alike, and one character further; it must not be alike
over the whole capacity and go on -/
def atText (s : List Char) : Move Bool := do
  let c ← get
  let alike := common s c.ahead
  if s.isEmpty then return (← peek).isSome
  if alike < min s.length c.capacity then
    look (alike + 1)
    return false
  look (min s.length c.capacity)
  if c.capacity < s.length then throw (.lookahead (c.capacity + 1) c.capacity)
  return true

def atWord (rules : Rules) (w : List Char) : Move Bool := do
  if !(← atText w) then return false
  match ← peekNth w.length with
  | none => return true
  | some c => return !rules.isNameChar c

def atComment (rules : Rules) : Move Bool :=
  if rules.commentStart.isEmpty then pure false else atText rules.commentStart

/-! ## moving -/

def advance (n : Nat) : Move (List Char) := do
  look n
  let taken := (← get).ahead.take n
  modify fun c => { c with position := c.position + taken.length }
  return taken

/-- moves to where this much of the text is left -/
def moveTo (left : List Char) : Move Unit := do
  let _ ← advance ((← get).ahead.length - left.length)

def accepting (test : Move Bool) (n : Nat) : Move Bool := do
  if !(← test) then return false
  let _ ← advance n
  return true

def skipComment (rules : Rules) : Move Bool := do
  if !(← accepting (atComment rules) rules.commentStart.length) then return false
  moveTo (rules.dropLine (← get).ahead)
  look 1
  return true

/-- a comment that begins with more characters than can be looked at is never found: its beginning
is refused -/
def skipTrivia (rules : Rules) : Move Unit := do
  let c ← get
  moveTo (if rules.commentStart.length ≤ c.capacity then rules.dropTrivia c.ahead
    else rules.dropBlanks c.ahead)
  look 1
  let _ ← atComment rules

def readInto (room : Nat) : Move (Bulk (ReadError Empty)) := do
  if room = 0 then return .read []
  return .ofList (← advance room)

def setMark (limit : Nat) : Move Unit := do
  let c ← get
  if c.capacity < limit then throw (.buffer (.markLimit limit c.capacity))
  set { c with mark := some c.position }

/-- what was pulled since the mark must not be more than the capacity -/
def reset : Move Unit := do
  let c ← get
  match c.mark with
  | none => throw (.buffer .invalidMark)
  | some m =>
    if c.capacity < c.pulled - m then throw (.buffer .invalidMark)
    set { c with position := m }

def close : Move Unit :=
  modify fun c => { c with position := c.pulled, mark := none, closed := true }

/-! ## operations -/

def perform (rules : Rules) : Reader.Op → Move (Reader.Answer Empty)
  | .fill n => (fun _ => .done) <$> fill n
  | .peek => .char <$> peek
  | .peekNth n => .char <$> peekNth n
  | .read => do return .char (← advance 1).head?
  | .atChar c => do return .flag ((← peek) == some c)
  | .atNth n c => do return .flag ((← peekNth n) == some c)
  | .atText s => .flag <$> atText s
  | .atWord w => .flag <$> atWord rules w
  | .atComment => .flag <$> atComment rules
  | .atEnd => do return .flag (← peek).isNone
  | .atLineEnd => do return .flag ((← peek).all rules.isLineEnd)
  | .atBlank => do return .flag ((← peek).any rules.isBlank)
  | .acceptChar c => .flag <$> accepting (return (← peek) == some c) 1
  | .acceptText s => .flag <$> accepting (atText s) s.length
  | .acceptWord w => .flag <$> accepting (atWord rules w) w.length
  | .acceptBlank => .flag <$> accepting (return (← peek).any rules.isBlank) 1
  | .skipComment => .flag <$> skipComment rules
  | .skipTrivia => (fun _ => .done) <$> skipTrivia rules
  | .readInto room => .bulk <$> readInto room
  | .skip n => do return .count (← advance n).length
  | .mark limit => (fun _ => .done) <$> setMark limit
  | .reset => (fun _ => .done) <$> reset
  | .ready => do return .flag (!(← get).ahead.isEmpty)
  | .chars n => do return .items ((← advance n).map .ok)
  | .rest => do return .text (← advance (← get).ahead.length)
  | .close => (fun _ => .done) <$> close

def run (rules : Rules) (op : Reader.Op) (c : Cursor) : Reader.Outcome Empty × Cursor :=
  match perform rules op c with
  | .ok a c => (.answer a, c)
  | .error e c => (.failed e, c)

end Cursor

end Lookahead
