import Lookahead.Reader.Scan

/-!
# Reader operations as data

A run of a reader is a list of operations.  What an operation gives is an `Answer`; how it went as a
whole, failures included, is an `Outcome`, so that the runs of two readers can be laid side by side.

* `Reader.Op.perform`   one operation;
* `Reader.run`          a list of operations, the ones after a failure included.
-/

namespace Lookahead.Reader

/-- what can be asked of a reader -/
inductive Op where
  | fill (n : Nat)
  | peek
  | peekNth (n : Nat)
  | read
  | atChar (c : Char)
  | atNth (n : Nat) (c : Char)
  | atText (s : List Char)
  | atWord (w : List Char)
  | atComment
  | atEnd
  | atLineEnd
  | atBlank
  | acceptChar (c : Char)
  | acceptText (s : List Char)
  | acceptWord (w : List Char)
  | acceptBlank
  | skipComment
  | skipTrivia
  | readInto (room : Nat)
  | skip (n : Nat)
  | mark (limit : Nat)
  | reset
  | ready
  | chars (n : Nat)
  | rest
  | close
  deriving DecidableEq

/-- what an operation gives -/
inductive Answer (ε : Type) where
  /-- it was done and has nothing to tell -/
  | done
  | char (c : Option Char)
  | flag (b : Bool)
  | count (n : Nat)
  /-- a bulk read, which shows also when it failed what was written by then -/
  | bulk (b : Bulk (ReadError ε))
  | items (is : List (Except (ReadError ε) Char))
  | text (cs : List Char)

inductive Outcome (ε : Type) where
  | answer (a : Answer ε)
  | failed (e : ReadError ε)
  /-- a scan made all the rounds it was given -/
  | unfinished

section
variable {σ ε α : Type}

/-- an operation that always gives something -/
def always (f : Reader σ → α × Reader σ) : Step σ ε α := fun r => let (a, r) := f r; .ok a r

variable [Source σ ε] (rules : Rules) (limit : Nat)

/-- performs an operation under the given rules, the loops of a scan limited to so many rounds -/
def Op.perform : Op → Scan σ ε (Answer ε)
  | .fill n => (fun _ => .done) <$> Scan.step (Reader.fill n)
  | .peek => .char <$> Scan.step Reader.peek
  | .peekNth n => .char <$> Scan.step (Reader.peekNth n)
  | .read => .char <$> Scan.step Reader.read
  | .atChar c => .flag <$> Scan.step (Reader.atChar c)
  | .atNth n c => .flag <$> Scan.step (Reader.atNth n c)
  | .atText s => .flag <$> Scan.step (Reader.atText s)
  | .atWord w => .flag <$> Scan.step (Reader.atWord rules w)
  | .atComment => .flag <$> Scan.step (Reader.atComment rules)
  | .atEnd => .flag <$> Scan.step Reader.atEnd
  | .atLineEnd => .flag <$> Scan.step (Reader.atLineEnd rules)
  | .atBlank => .flag <$> Scan.step (Reader.atBlank rules)
  | .acceptChar c => .flag <$> Scan.step (Reader.acceptChar c)
  | .acceptText s => .flag <$> Scan.step (Reader.acceptText s)
  | .acceptWord w => .flag <$> Scan.step (Reader.acceptWord rules w)
  | .acceptBlank => .flag <$> Scan.step (Reader.acceptBlank rules)
  | .skipComment => .flag <$> Reader.skipComment rules limit
  | .skipTrivia => (fun _ => .done) <$> Reader.skipTrivia rules limit
  | .readInto room => .bulk <$> Scan.step (always (Reader.readInto room))
  | .skip n => .count <$> Scan.step (Reader.skip n)
  | .mark n => (fun _ => .done) <$> Scan.step (Reader.mark n)
  | .reset => (fun _ => .done) <$> Scan.step Reader.reset
  | .ready => .flag <$> Scan.step Reader.ready
  | .chars n => .items <$> Scan.step (always (Reader.chars n))
  | .rest => .text <$> Reader.rest limit
  | .close => (fun _ => .done) <$> Scan.step Reader.close

def Op.run (op : Op) (r : Reader σ) : Outcome ε × Reader σ :=
  match op.perform rules limit r with
  | .ok a r => (.answer a, r)
  | .error (.error e) r => (.failed e, r)
  | .error .limit r => (.unfinished, r)

def run : List Op → Reader σ → List (Outcome ε) × Reader σ
  | [], r => ([], r)
  | op :: ops, r =>
    let (o, r) := op.run rules limit r
    let (os, r) := run ops r
    (o :: os, r)

end

end Lookahead.Reader
