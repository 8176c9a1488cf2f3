import Lookahead.Buffer.Operation

/-!
# The buffer without its ring

A `Window` says what a buffer of a given capacity does in terms of two lists: the characters held,
and, while a mark is set, those consumed since.  Together they are never longer than the capacity:
where a character needs the room, the past is given up.

* `Window.apply`   one operation on a window;
* `Buffer.window`  the window that a ring stands for, its past read from the slots between the mark
  and the head.
-/

namespace Lookahead

structure Window where
  /-- what was consumed since the mark, if there is one -/
  past : Option (List Char)
  /-- what is held, oldest first -/
  queue : List Char
  deriving DecidableEq

namespace Window

def empty : Window := ⟨none, []⟩

/-- how many characters are worth keeping -/
def size (w : Window) : Nat := (w.past.getD []).length + w.queue.length

def isEmpty (w : Window) : Bool := w.queue.isEmpty

def isFull (n : Nat) (w : Window) : Bool := w.queue.length == n

def isMarked (w : Window) : Bool := w.past.isSome

def peekAt (i : Nat) (w : Window) : Option Char := w.queue[i]?

/-- the first `k` characters of the queue go over to the past -/
def consume (k : Nat) (w : Window) : Window :=
  ⟨w.past.map (· ++ w.queue.take k), w.queue.drop k⟩

def add (n : Nat) (c : Char) : EStateM BufferError Window Unit := fun w =>
  if w.queue.length = n then .error .full w
  else if w.size = n then .ok () ⟨none, w.queue ++ [c]⟩
  else .ok () ⟨w.past, w.queue ++ [c]⟩

def addAll (n : Nat) : List Char → EStateM BufferError Window Unit
  | [] => pure ()
  | c :: cs => do
    add n c
    addAll n cs

def remove : EStateM BufferError Window Char := fun w =>
  match w.queue with
  | [] => .error .empty w
  | c :: _ => .ok c (w.consume 1)

def advance (k : Nat) : EStateM BufferError Window Unit := fun w =>
  if w.queue.length < k then .error .empty w else .ok () (w.consume k)

def drain (room : Nat) (w : Window) : List Char × Window := (w.queue.take room, w.consume room)

def setMark (n limit : Nat) : EStateM BufferError Window Unit := fun w =>
  if n < limit then .error (.markLimit limit n) w else .ok () ⟨some [], w.queue⟩

def resetToMark : EStateM BufferError Window Unit := fun w =>
  match w.past with
  | none => .error .invalidMark w
  | some p => .ok () ⟨some [], p ++ w.queue⟩

def clearMark (w : Window) : Window := ⟨none, w.queue⟩

/-- one operation on a window of capacity `n` -/
def apply (n : Nat) : Buffer.Op → Window → Buffer.Reply × Window
  | .add c, w => Buffer.Reply.of (fun _ => .done) (add n c) w
  | .addAll cs, w => Buffer.Reply.of (fun _ => .done) (addAll n cs) w
  | .remove, w => Buffer.Reply.of (fun c => .char (some c)) remove w
  | .advance k, w => Buffer.Reply.of (fun _ => .done) (advance k) w
  | .peekAt i, w => (.char (w.peekAt i), w)
  | .drain room, w => let (cs, w) := w.drain room; (.drained cs, w)
  | .setMark limit, w => Buffer.Reply.of (fun _ => .done) (setMark n limit) w
  | .resetToMark, w => Buffer.Reply.of (fun _ => .done) resetToMark w
  | .clearMark, w => (.done, w.clearMark)
  | .clear, _ => (.done, empty)
  | .capacity, w => (.count n, w)

end Window

namespace Buffer

/-- the characters of the `k` slots from position `i` on, around the ring -/
def around (b : Buffer) (i k : Nat) : List Char :=
  (List.range k).map fun j => b.slot (b.wrap (i + j))

theorem around_head_count (b : Buffer) : b.around b.head b.count = b.toList := rfl

/-- the window that the ring stands for -/
def window (b : Buffer) : Window where
  past := b.mark.map fun m => b.around m b.rewind
  queue := b.toList

theorem window_ofCapacity (n : Nat) : (ofCapacity n).window = Window.empty := rfl

theorem isMarked_window (b : Buffer) : b.window.isMarked = b.isMarked := by
  simp [window, Window.isMarked, isMarked]

theorem peekAt_window (b : Buffer) (i : Nat) : b.window.peekAt i = b.peekAt i := by
  rw [peekAt_eq_getElem?]
  rfl

end Buffer

end Lookahead
