import Lookahead.Checked
import Lookahead.Utf8.Decoder

/-!
# Pending bytes in four slots

A decoder as a machine carries it out: the bytes pending stand in four slots, from the first one on,
and `len` counts them.  A byte pulled goes to the slot after them; where a character is taken, the
bytes that are left move to the front.  Every slot that is written or read has to be there, and no
more can be taken off than is pending.  A failure of the feed is no fault.

* `Slots.readChar`     one read of a character;
* `Slots.reads`        so many of them.
-/

namespace Lookahead.Utf8

/-- a decoder and its four slots -/
structure Slots (ε : Type) (decode : Decode) where
  feed : Feed ε
  slots : Array UInt8 := Array.replicate 4 0
  /-- how many slots hold bytes that are pending -/
  len : Nat := 0
  closed : Bool := false

namespace Slots

open Lookahead.Checked (plus minus set slice copyWithin)

variable {ε : Type} {decode : Decode}

/-- what comes of reading, which the feed can fail -/
abbrev Outcome (ε : Type) (decode : Decode) (α : Type) := EStateM.Result ε (Slots ε decode) α

def keep (b : UInt8) (s : Slots ε decode) : Except Fault (Slots ε decode) := do
  let slots ← set s.slots s.len b
  let len ← plus s.len 1
  return { s with slots, len }

def pull : Nat → Slots ε decode → Except Fault (Outcome ε decode Unit)
  | 0, s => return .ok () s
  | k + 1, s =>
    match s.feed.readByte with
    | .error e f => return .error e { s with feed := f }
    | .ok none f => return .ok () { s with feed := f }
    | .ok (some b) f => do pull k (← keep b { s with feed := f })

/-- takes the character at the front, at least one byte of it, and moves the others there -/
def takeFront (s : Slots ε decode) : Except Fault (Outcome ε decode (Option Char)) := do
  let front := decode (← slice s.slots 0 s.len)
  let slots ← copyWithin s.slots front.taken s.len 0
  let len ← minus s.len front.taken
  return .ok (some front.char) { s with slots, len }

/-- pulls the other bytes of the character that the first slot begins, and takes it -/
def complete (s : Slots ε decode) : Except Fault (Outcome ε decode (Option Char)) := do
  let lead ← Lookahead.Checked.get s.slots 0
  match ← pull (announced lead - s.len) s with
  | .error e s => return .error e s
  | .ok _ s => takeFront s

def readChar (s : Slots ε decode) : Except Fault (Outcome ε decode (Option Char)) := do
  if s.closed then return .ok none s
  if s.len = 0 then
    match ← pull 1 s with
    | .error e s => return .error e s
    | .ok _ s => if s.len = 0 then return .ok none s else complete s
  else complete s

/-- what `k` reads come to, failed ones among them, and the machine after them -/
def reads : Nat → Slots ε decode → Except Fault (List (Except ε (Option Char)) × Slots ε decode)
  | 0, s => return ([], s)
  | k + 1, s => do
    let (os, s) ← reads k s
    match ← readChar s with
    | .ok o s => return (os ++ [.ok o], s)
    | .error e s => return (os ++ [.error e], s)

end Slots

end Lookahead.Utf8
