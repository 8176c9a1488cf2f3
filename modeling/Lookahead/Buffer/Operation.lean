import Lookahead.Buffer.Basic

/-!
# Buffer operations as data

A run of a buffer is a list of operations.  What an operation answers is a `Reply`, so that a run on
the ring and a run on anything else that understands the operations can be laid side by side.

* `Buffer.Op.apply`     one operation on a ring;
* `Buffer.Session`      a store together with the copy that was saved last;
* `Buffer.Session.run`  a list of requests, for any store.
-/

namespace Lookahead.Buffer

inductive Op where
  | add (c : Char)
  | addAll (cs : List Char)
  | remove
  | advance (n : Nat)
  | peekAt (n : Nat)
  | drain (room : Nat)
  | setMark (limit : Nat)
  | resetToMark
  | clearMark
  | clear
  | capacity
  deriving DecidableEq

inductive Reply where
  /-- it was done and has nothing to tell -/
  | done
  | char (c : Option Char)
  | drained (cs : List Char)
  | count (n : Nat)
  /-- it was refused -/
  | failed (e : BufferError)
  deriving DecidableEq

/-- runs an operation that may be refused and words its value as a reply -/
def Reply.of {α β : Type} (say : α → Reply) (x : EStateM BufferError β α) (b : β) : Reply × β :=
  match x b with
  | .ok a b => (say a, b)
  | .error e b => (.failed e, b)

def Op.apply : Op → Buffer → Reply × Buffer
  | .add c, b => Reply.of (fun _ => .done) (Buffer.add c) b
  | .addAll cs, b => Reply.of (fun _ => .done) (Buffer.addAll cs) b
  | .remove, b => Reply.of (fun c => .char (some c)) Buffer.remove b
  | .advance n, b => Reply.of (fun _ => .done) (Buffer.advance n) b
  | .peekAt n, b => (.char (b.peekAt n), b)
  | .drain room, b => let (cs, b) := b.drain room; (.drained cs, b)
  | .setMark limit, b => Reply.of (fun _ => .done) (Buffer.setMark limit) b
  | .resetToMark, b => Reply.of (fun _ => .done) Buffer.resetToMark b
  | .clearMark, b => (.done, b.clearMark)
  | .clear, b => (.done, b.clear)
  | .capacity, b => (.count b.capacity, b)

/-! ## saving and restoring -/

/-- a store and the copy of it that was saved last -/
structure Session (β : Type) where
  current : β
  saved : Option β

/-- an operation on the store, or on the saved copy -/
inductive Request where
  | op (o : Op)
  /-- keep a copy -/
  | save
  /-- go back to the copy kept last -/
  | load
  deriving DecidableEq

/-- what a request answers -/
inductive Answer where
  | reply (r : Reply)
  /-- a copy was kept -/
  | saved
  /-- whether there was a copy to go back to -/
  | loaded (found : Bool)
  deriving DecidableEq

namespace Session
variable {β : Type}

def start (b : β) : Session β := ⟨b, none⟩

def step (apply : Op → β → Reply × β) (q : Request) (s : Session β) : Answer × Session β :=
  match q with
  | .op o => let (r, b) := apply o s.current; (.reply r, { s with current := b })
  | .save => (.saved, { s with saved := some s.current })
  | .load =>
    match s.saved with
    | none => (.loaded false, s)
    | some b => (.loaded true, { s with current := b })

def run (apply : Op → β → Reply × β) : List Request → Session β → List Answer × Session β
  | [], s => ([], s)
  | q :: qs, s =>
    let (a, s) := step apply q s
    let (as, s) := run apply qs s
    (a :: as, s)

theorem run_cons (apply : Op → β → Reply × β) (q : Request) (qs : List Request) (s : Session β) :
    run apply (q :: qs) s =
      ((step apply q s).1 :: (run apply qs (step apply q s).2).1,
        (run apply qs (step apply q s).2).2) := rfl

end Session

end Lookahead.Buffer
