import Lookahead.Buffer.Operation
import Lookahead.Checked

/-!
# The buffer with its steps checked

The operations of a buffer as a machine carries them out: every slot is looked up in the slots there
are, every stretch of slots is cut out of them, every sum has to be countable and every difference
not below zero, and going back to a mark ends with a check of the tail.  An operation that is refused
is no fault.

* `Checked.apply`   one operation on a ring;
* `Checked.run`     a list of requests.
-/

namespace Lookahead.Buffer.Checked

open Lookahead.Checked (plus minus rem ensure set slice copyInto)

abbrev Outcome (α : Type) := EStateM.Result BufferError Buffer α

def wrap (b : Buffer) (i : Nat) : Except Fault Nat := rem i b.capacity

/-! ## operations that are not refused -/

def consume (n : Nat) (b : Buffer) : Except Fault Buffer := do
  let head ← wrap b (← plus b.head n)
  let count ← minus b.count n
  let rewind ← if b.isMarked then plus b.rewind n else pure b.rewind
  return { b with head, count, rewind }

def push (c : Char) (b : Buffer) : Except Fault Buffer := do
  let slots ← set b.slots b.tail c
  let tail ← wrap b (← plus b.tail 1)
  let count ← plus b.count 1
  return { b with slots, tail, count }

def peekAt (n : Nat) (b : Buffer) : Except Fault (Option Char) := do
  if n < b.count then return some (← Lookahead.Checked.get b.slots (← wrap b (← plus b.head n)))
  return none

/-- moves characters into a destination: how many were moved, and the destination with them -/
def drainInto (dst : List Char) (b : Buffer) : Except Fault ((Nat × List Char) × Buffer) := do
  let n := min dst.length b.count
  let first := min n (← minus b.capacity b.head)
  let dst ← copyInto dst 0 first (← slice b.slots b.head (← plus b.head first))
  let dst ← copyInto dst first n (← slice b.slots 0 (← minus n first))
  return ((n, dst), ← consume n b)

/-! ## operations that may be refused -/

/-- the mark covers every slot; nothing is counted where there is no mark -/
def markAtTail (b : Buffer) : Except Fault Bool := do
  if b.isMarked then return (← plus b.rewind b.count) == b.capacity
  return false

def add (c : Char) (b : Buffer) : Except Fault (Outcome Unit) := do
  if b.isFull then return .error .full b
  if ← markAtTail b then return .ok () (← push c b.clearMark)
  return .ok () (← push c b)

def remove (b : Buffer) : Except Fault (Outcome Char) := do
  if b.isEmpty then return .error .empty b
  return .ok (← Lookahead.Checked.get b.slots b.head) (← consume 1 b)

def advance (n : Nat) (b : Buffer) : Except Fault (Outcome Unit) := do
  if b.count < n then return .error .empty b
  return .ok () (← consume n b)

def resetToMark (b : Buffer) : Except Fault (Outcome Unit) := do
  match b.mark with
  | none => return .error .invalidMark b
  | some m =>
    let count ← plus b.count b.rewind
    ensure (b.tail = (← wrap b (← plus m count)))
    return .ok () { b with head := m, count, rewind := 0 }

def addAll : List Char → Buffer → Except Fault (Outcome Unit)
  | [], b => return .ok () b
  | c :: cs, b => do
    match ← add c b with
    | .ok _ b => addAll cs b
    | .error e b => return .error e b

/-! ## operations and runs -/

def reply {α : Type} (say : α → Reply) (x : Except Fault (Outcome α)) :
    Except Fault (Reply × Buffer) := do
  match ← x with
  | .ok a b => return (say a, b)
  | .error e b => return (.failed e, b)

/-- one operation; those that neither count nor look at a slot are what they are -/
def apply (op : Op) (b : Buffer) : Except Fault (Reply × Buffer) :=
  match op with
  | .add c => reply (fun _ => .done) (add c b)
  | .addAll cs => reply (fun _ => .done) (addAll cs b)
  | .remove => reply (fun c => .char (some c)) (remove b)
  | .advance n => reply (fun _ => .done) (advance n b)
  | .peekAt n => do return (.char (← peekAt n b), b)
  | .drain room => do
    let ((n, dst), b) ← drainInto (List.replicate room '\x00') b
    return (.drained (dst.take n), b)
  | .resetToMark => reply (fun _ => .done) (resetToMark b)
  | .setMark _ | .clearMark | .clear | .capacity => .ok (op.apply b)

/-- one request; to save and to restore a copy takes no counting -/
def step (q : Request) (s : Session Buffer) : Except Fault (Answer × Session Buffer) :=
  match q with
  | .op op => do
    let (r, b) ← apply op s.current
    return (.reply r, { s with current := b })
  | .save | .load => .ok (Session.step Op.apply q s)

/-- the answers to the requests and the session after them, unless a step faults on the way -/
def run : List Request → Session Buffer → Except Fault (List Answer × Session Buffer)
  | [], s => .ok ([], s)
  | q :: qs, s => do
    let (a, s) ← step q s
    let (as, s) ← run qs s
    return (a :: as, s)

end Lookahead.Buffer.Checked
