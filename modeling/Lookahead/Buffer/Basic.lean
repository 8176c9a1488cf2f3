import Lookahead.Error

/-!
# The buffer: a ring of slots with one mark

Characters that were looked at but not read yet stand in a ring of slots, from `head` on, `count` of
them; `tail` is the slot of the next one.  A mark remembers a slot; `rewind` counts what was
consumed since, so that going back to the mark is a matter of moving `head`.  Adding a character
overwrites the marked slot only when the ring holds `rewind + count = capacity` characters worth
keeping: then the mark is given up.

* `Buffer.toList`   the characters held, oldest first: every operation is described through it;
* `Buffer.Valid`    what holds of the fields between two operations.
-/

namespace Lookahead

structure Buffer where
  slots : Array Char
  /-- the slot of the oldest character held -/
  head : Nat
  /-- the slot that the next character goes to -/
  tail : Nat
  /-- how many characters are held -/
  count : Nat
  /-- the marked slot -/
  mark : Option Nat
  /-- how many characters were consumed since the mark was set -/
  rewind : Nat
  deriving DecidableEq

namespace Buffer

/-! ## making a buffer -/

def ofCapacity (n : Nat) : Buffer where
  slots := Array.replicate n '\x00'
  head := 0
  tail := 0
  count := 0
  mark := none
  rewind := 0

def create (n : Nat) : Except BufferError Buffer :=
  if n = 0 then .error .zeroCapacity else .ok (ofCapacity n)

/-! ## questions -/

def capacity (b : Buffer) : Nat := b.slots.size

def isEmpty (b : Buffer) : Bool := b.count == 0

def isFull (b : Buffer) : Bool := b.count == b.capacity

def isMarked (b : Buffer) : Bool := b.mark.isSome

/-- a position on the ring, counted on from its first slot -/
def wrap (b : Buffer) (i : Nat) : Nat := i % b.capacity

def slot (b : Buffer) (i : Nat) : Char := b.slots.getD i '\x00'

def peekAt (n : Nat) (b : Buffer) : Option Char :=
  if n < b.count then some (b.slot (b.wrap (b.head + n))) else none

def toList (b : Buffer) : List Char :=
  (List.range b.count).map fun i => b.slot (b.wrap (b.head + i))

/-! ## operations that cannot fail -/

def clearMark (b : Buffer) : Buffer := { b with mark := none, rewind := 0 }

def clear (b : Buffer) : Buffer := { b with head := 0, tail := 0, count := 0 }.clearMark

/-- lets go of the `n` oldest characters, of which there must be so many -/
def consume (n : Nat) (b : Buffer) : Buffer :=
  { b with
    head := b.wrap (b.head + n)
    count := b.count - n
    rewind := if b.isMarked then b.rewind + n else b.rewind }

/-- puts a character into the slot at the tail -/
def push (c : Char) (b : Buffer) : Buffer :=
  { b with
    slots := b.slots.setIfInBounds b.tail c
    tail := b.wrap (b.tail + 1)
    count := b.count + 1 }

/-- the mark covers every slot, so that the tail has come round to it -/
def markAtTail (b : Buffer) : Bool := b.isMarked && b.rewind + b.count == b.capacity

/-- takes out at most `room` characters, oldest first: those up to the last slot, then those from
the first slot on -/
def drain (room : Nat) (b : Buffer) : List Char × Buffer :=
  let n := min room b.count
  let first := min n (b.capacity - b.head)
  ((b.slots.extract b.head (b.head + first)).toList ++ (b.slots.extract 0 (n - first)).toList,
    b.consume n)

/-! ## operations that may be refused, and then change nothing -/

/-- adds a character after the others; gives up a mark whose slot it needs -/
def add (c : Char) : EStateM BufferError Buffer Unit := fun b =>
  if b.isFull then .error .full b
  else if b.markAtTail then .ok () (b.clearMark.push c)
  else .ok () (b.push c)

def remove : EStateM BufferError Buffer Char := fun b =>
  if b.isEmpty then .error .empty b else .ok (b.slot b.head) (b.consume 1)

def advance (n : Nat) : EStateM BufferError Buffer Unit := fun b =>
  if b.count < n then .error .empty b else .ok () (b.consume n)

/-- marks the place of the oldest character, replacing an earlier mark; `limit` is how many
characters the caller means to read before going back -/
def setMark (limit : Nat) : EStateM BufferError Buffer Unit := fun b =>
  if b.capacity < limit then .error (.markLimit limit b.capacity) b
  else .ok () { b with mark := some b.head, rewind := 0 }

/-- goes back to the mark, which stays set -/
def resetToMark : EStateM BufferError Buffer Unit := fun b =>
  match b.mark with
  | none => .error .invalidMark b
  | some m => .ok () { b with head := m, count := b.count + b.rewind, rewind := 0 }

/-- adds the characters of a text one by one, up to the first refusal -/
def addAll : List Char → EStateM BufferError Buffer Unit
  | [] => pure ()
  | c :: cs => do
    add c
    addAll cs

/-! ## what holds between two operations -/

/-- head and tail are slots, `count` apart on the ring; while a mark is set, what was consumed since
still stands in the slots between the mark and the head -/
structure Valid (b : Buffer) : Prop where
  count_le : b.count ≤ b.capacity
  head_lt : b.head < b.capacity
  tail_lt : b.tail < b.capacity
  tail_eq : b.tail = b.wrap (b.head + b.count)
  rewind_eq : b.mark = none → b.rewind = 0
  mark_lt : ∀ m, b.mark = some m → m < b.capacity
  mark_eq : ∀ m, b.mark = some m → b.wrap (m + b.rewind) = b.head
  rewind_le : b.isMarked = true → b.rewind + b.count ≤ b.capacity

theorem valid_ofCapacity {n : Nat} (h : 0 < n) : (ofCapacity n).Valid where
  count_le := Nat.zero_le _
  head_lt := by simpa [ofCapacity, capacity] using h
  tail_lt := by simpa [ofCapacity, capacity] using h
  tail_eq := by simp [ofCapacity, wrap]
  rewind_eq := fun _ => rfl
  mark_lt := fun m hm => by simp [ofCapacity] at hm
  mark_eq := fun m hm => by simp [ofCapacity] at hm
  rewind_le := fun hm => by simp [ofCapacity, isMarked] at hm

theorem length_toList (b : Buffer) : b.toList.length = b.count := by simp [toList]

theorem peekAt_eq_getElem? (b : Buffer) (n : Nat) : b.peekAt n = b.toList[n]? := by
  unfold peekAt toList
  split
  · next h => simp [h]
  · next h => simp [h]

end Buffer

end Lookahead
