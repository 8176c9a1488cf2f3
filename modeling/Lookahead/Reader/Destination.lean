import Lookahead.Reader.Basic

/-!
# Reading into a destination

A bulk read as it is carried out.  The caller hands over a destination, which is written over from
the front, and gets it back with the number of characters written, or the end, or a failure.  The
characters come in one of three ways: those that are held are copied in two stretches, up to the last
slot and from the first one on; while a mark is set the others are put in one by one; else the source
writes them into what is left of the destination.  How a source does that is a parameter.

* `overwrite`            a destination with some characters in it;
* `fillSingly`           single reads into a destination;
* `Source.writeSingly`   a source that reads in bulk by single reads;
* `Reader.writeInto`     a reader.
-/

namespace Lookahead

/-- the destination with these characters in it, from place `i` on -/
def overwrite (dst : List Char) (i : Nat) (cs : List Char) : List Char :=
  dst.take i ++ cs ++ dst.drop (i + cs.length)

/-- what a bulk read tells, the destination after it, and where it leaves what was read from -/
abbrev Written (σ ε : Type) := Except ε (Option Nat) × List Char × σ

section
variable {σ ε : Type}

/-- Single reads into a destination: `room` places are left from place `n` on.  Tells how many
characters are in it in the end. -/
def fillSingly (next : EStateM ε σ (Option Char)) :
    Nat → Nat → List Char → σ → Except ε Nat × List Char × σ
  | 0, n, dst, s => (.ok n, dst, s)
  | room + 1, n, dst, s =>
    match next s with
    | .error e s => (.error e, dst, s)
    | .ok none s => (.ok n, dst, s)
    | .ok (some c) s => fillSingly next room (n + 1) (dst.set n c) s

/-- tells the end where there was room and nothing was read -/
def Source.writeSingly [Source σ ε] (dst : List Char) (s : σ) : Written σ ε :=
  match fillSingly Source.readChar dst.length 0 dst s with
  | (.error e, out, s) => (.error e, out, s)
  | (.ok n, out, s) => (.ok (if n = 0 ∧ 0 < dst.length then none else some n), out, s)

end

/-- moves characters into a destination, and says how many -/
def Buffer.drainInto (dst : List Char) (b : Buffer) : Nat × List Char × Buffer :=
  let n := min dst.length b.count
  let first := min n (b.capacity - b.head)
  let dst := overwrite dst 0 (b.slots.extract b.head (b.head + first)).toList
  let dst := overwrite dst first (b.slots.extract 0 (n - first)).toList
  (n, dst, b.consume n)

namespace Reader
variable {σ ε : Type} [Source σ ε]

/-- the count that is told: none where nothing was written -/
def told (n : Nat) : Option Nat := if 0 < n then some n else none

/-- goes on past the buffered characters, of which `n` are in the destination: how many are there in
the end; `write` is how the source writes into one -/
def writePast (write : List Char → σ → Written σ ε) (n : Nat) (dst : List Char) (r : Reader σ) :
    Except (ReadError ε) Nat × List Char × Reader σ :=
  if r.buffer.isMarked then fillSingly takeBuffered (dst.length - n) n dst r
  else if n < dst.length ∧ r.isDry = false then
    match write (dst.drop n) r.source with
    | (.error e, rest, s) => (.error (.source e), dst.take n ++ rest, { r with source := s })
    | (.ok none, rest, s) => (.ok n, dst.take n ++ rest, { r with source := s, ended := true })
    | (.ok (some k), rest, s) => (.ok (n + k), dst.take n ++ rest, { r with source := s })
  else (.ok n, dst, r)

/-- moves characters into a destination: the buffered ones, then what comes past them -/
def writeInto (write : List Char → σ → Written σ ε) (dst : List Char) (r : Reader σ) :
    Written (Reader σ) (ReadError ε) :=
  if dst.length = 0 then (.ok (some 0), dst, r)
  else
    let (n, dst, b) := r.buffer.drainInto dst
    match writePast write n dst { r with buffer := b } with
    | (.error e, dst, r) => (.error e, dst, r)
    | (.ok n, dst, r) => (.ok (told n), dst, r)

end Reader

end Lookahead
