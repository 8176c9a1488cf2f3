/-!
# What can go wrong

Errors are causes: a buffer refuses an operation, a reader is asked to look further ahead than its
buffer reaches, or the source fails.  `message` words each cause in one sentence, `kind` says how a
caller may react to it.
-/

namespace Lookahead

/-- how a caller may react to an error -/
inductive ErrorKind where
  /-- a limit was larger than the buffer: ask for a larger buffer -/
  | configuration
  /-- the buffer was used against its state -/
  | state
  /-- there is no mark to go back to -/
  | mark
  /-- the source failed -/
  | stream
  deriving DecidableEq

/-- why a buffer refuses an operation -/
inductive BufferError where
  /-- a buffer needs a slot -/
  | zeroCapacity
  /-- every slot holds a character that is still to be read -/
  | full
  /-- fewer characters are held than were asked for -/
  | empty
  /-- a mark was asked to hold over more characters than there are slots -/
  | markLimit (limit capacity : Nat)
  /-- no mark is set, or it was overwritten -/
  | invalidMark
  deriving DecidableEq

/-- why a reader fails; `ε` is what its source fails with -/
inductive ReadError (ε : Type) where
  /-- more characters were asked for than the buffer holds -/
  | lookahead (requested capacity : Nat)
  /-- the buffer refused -/
  | buffer (e : BufferError)
  /-- the source failed -/
  | source (e : ε)
  deriving DecidableEq

/-! ## kinds -/

def BufferError.kind : BufferError → ErrorKind
  | .zeroCapacity | .markLimit .. => .configuration
  | .full | .empty => .state
  | .invalidMark => .mark

def ReadError.kind {ε : Type} : ReadError ε → ErrorKind
  | .lookahead .. => .configuration
  | .buffer e => e.kind
  | .source _ => .stream

/-! ## messages -/

def BufferError.message : BufferError → String
  | .zeroCapacity => "buffer capacity must be greater than zero"
  | .full => "buffer full"
  | .empty => "buffer empty"
  | .markLimit limit capacity =>
    "mark limit " ++ toString limit ++ " exceeds buffer capacity " ++ toString capacity
  | .invalidMark => "not marked or mark invalidated"

/-- the sentence for an error, `describe` wording the failures of the source -/
def ReadError.message {ε : Type} (describe : ε → String) : ReadError ε → String
  | .lookahead requested capacity =>
    "requested lookahead exceeds buffer capacity (" ++ toString requested ++ " > " ++
      toString capacity ++ ")"
  | .buffer e => e.message
  | .source e => "source error: " ++ describe e

end Lookahead
