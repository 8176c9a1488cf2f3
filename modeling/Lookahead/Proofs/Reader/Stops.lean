import Lookahead.Proofs.Reader.Composed
import Lookahead.Proofs.Source.Calls

/-!
# An operation stops at the first failure

Within one operation no call to the source follows a call that failed, and the failure is what the
operation tells.  This goes through sequencing, so it is shown for single calls and holds of what is
composed of them.  Reading several characters as items is the exception: it goes on after a failure,
and each item answers for the calls made for it.

* `Made`            the calls made between two readers;
* `Stops`           a program makes no call after a failure, and fails with it;
* `Op.explained`    what an operation tells is what its calls came to.
-/

namespace Lookahead

namespace Reader

variable {σ ε η α β : Type} {f : η → Option ε} {r s t : Reader (Traced σ ε)}

/-- these calls were made on the way from one reader to the other -/
def Made (r s : Reader (Traced σ ε)) (calls : List (Call ε)) : Prop :=
  s.source.calls.toList = r.source.calls.toList ++ calls

namespace Made
variable {calls more : List (Call ε)}

theorem none (h : s.source = r.source) : Made r s [] := by
  rw [Made, h, List.append_nil]

theorem one {c : Call ε} (h : s.source.calls = r.source.calls.push c) : Made r s [c] := by
  rw [Made, h, Array.toList_push]

theorem trans (h : Made r s calls) (k : Made s t more) : Made r t (calls ++ more) := by
  rw [Made, k, h, List.append_assoc]

theorem unique (h : Made r s calls) (k : Made r s more) : calls = more :=
  List.append_cancel_left (h.symm.trans k)

end Made

/-- calls were made from `r` on, and no failure but the one of the last call, which is this one -/
def Stopped (r s : Reader (Traced σ ε)) (failure : Option ε) : Prop :=
  ∃ calls, Made r s calls ∧ Orderly calls failure

namespace Stopped
variable {failure : Option ε}

theorem quiet (h : s.source = r.source) : Stopped r s none := ⟨[], Made.none h, Orderly.nil⟩

theorem call {c : Call ε} (h : s.source.calls = r.source.calls.push c)
    (hc : c.failure? = failure) : Stopped r s failure := ⟨[c], Made.one h, hc ▸ Orderly.single c⟩

theorem trans (h : Stopped r s none) (k : Stopped s t failure) : Stopped r t failure := by
  obtain ⟨calls, hmade, horder⟩ := h
  obtain ⟨more, hmade', horder'⟩ := k
  exact ⟨calls ++ more, hmade.trans hmade', horder.append horder'⟩

end Stopped

def failed? (f : η → Option ε) : EStateM.Result η (Reader (Traced σ ε)) α → Option ε
  | .ok _ _ => none
  | .error e _ => f e

/-- no call follows one that failed, and the program ends with its failure -/
def Stops (f : η → Option ε) (x : EStateM η (Reader (Traced σ ε)) α) : Prop :=
  ∀ r, Stopped r (finalState (x r)) (failed? f (x r))

/-! ## programs -/

section
variable {x : EStateM η (Reader (Traced σ ε)) α}

theorem stops_pure (a : α) : Stops f (pure a : EStateM η (Reader (Traced σ ε)) α) :=
  fun _ => Stopped.quiet rfl

theorem stops_get : Stops f (get : EStateM η (Reader (Traced σ ε)) _) := fun _ => Stopped.quiet rfl

theorem Stops.bind {g : α → EStateM η (Reader (Traced σ ε)) β} (hx : Stops f x)
    (hg : ∀ a, Stops f (g a)) : Stops f (x >>= g) := by
  intro r
  have hr := hx r
  rw [bind_apply]
  cases hxr : x r with
  | ok a s =>
    rw [hxr] at hr
    exact hr.trans (hg a s)
  | error e s =>
    rw [hxr] at hr
    exact hr

theorem Stops.map (g : α → β) (hx : Stops f x) : Stops f (g <$> x) :=
  hx.bind fun a => stops_pure (g a)

theorem stops_step {x : Step (Traced σ ε) ε α} (hx : Stops ReadError.failure? x) :
    Stops Halt.failure? (Scan.step x) := by
  intro r
  have hr := hx r
  rw [Scan.step_apply]
  cases hxr : x r with
  | ok a s =>
    rw [hxr] at hr
    exact hr
  | error e s =>
    rw [hxr] at hr
    exact hr

theorem stops_setEnded : Stops ReadError.failure? (setEnded : Step (Traced σ ε) ε Unit) :=
  fun _ => Stopped.quiet rfl

theorem stops_onBuffer (x : EStateM BufferError Buffer α) :
    Stops ReadError.failure? (onBuffer x : Step (Traced σ ε) ε α) := by
  intro r
  unfold onBuffer
  cases x r.buffer with
  | ok a b => exact Stopped.quiet rfl
  | error e b => exact Stopped.quiet rfl

theorem stops_record {call : Except ε α → Call ε} (hok : ∀ a, (call (.ok a)).failure? = none)
    (herror : ∀ e, (call (.error e)).failure? = some e) (x : EStateM ε σ α) :
    Stops ReadError.failure? (onSource (Traced.record call x)) := by
  intro r
  unfold onSource
  cases hx : Traced.record call x r.source with
  | ok a s => exact Stopped.call (Traced.calls_of_ok hx) (hok a)
  | error e s => exact Stopped.call (Traced.calls_of_error hx) (herror e)

end

/-! ## single calls -/

variable [Source σ ε]

theorem stops_readChar :
    Stops ReadError.failure? (onSource Source.readChar : Step (Traced σ ε) ε (Option Char)) :=
  stops_record (fun o => by cases o <;> rfl) (fun _ => rfl) _

theorem stops_sourceSkip (n : Nat) :
    Stops ReadError.failure? (onSource (Source.skip n) : Step (Traced σ ε) ε Nat) :=
  stops_record (fun _ => rfl) (fun _ => rfl) _

theorem stops_sourceReady :
    Stops ReadError.failure? (onSource Source.ready : Step (Traced σ ε) ε Bool) :=
  stops_record (fun _ => rfl) (fun _ => rfl) _

theorem stops_sourceClose :
    Stops ReadError.failure? (onSource Source.close : Step (Traced σ ε) ε Unit) :=
  stops_record (fun _ => rfl) (fun _ => rfl) _

/-! ## looking ahead and reading -/

theorem stops_pullMore (k : Nat) :
    Stops ReadError.failure? (pullMore k : Step (Traced σ ε) ε Unit) := by
  induction k with
  | zero => exact stops_pure ()
  | succ k ih =>
    refine stops_readChar.bind fun o => ?_
    cases o with
    | none => exact stops_setEnded
    | some c => exact (stops_onBuffer (Buffer.add c)).bind fun _ => ih

theorem stops_fill (n : Nat) : Stops ReadError.failure? (fill n : Step (Traced σ ε) ε Unit) := by
  intro r
  rw [fill_eq]
  by_cases hc : r.capacity < n
  · rw [if_pos hc]
    exact Stopped.quiet rfl
  · rw [if_neg hc]
    by_cases hd : r.isDry = true
    · rw [if_pos hd]
      exact Stopped.quiet rfl
    · rw [if_neg hd]
      exact stops_pullMore _ r

theorem stops_peekNth (n : Nat) :
    Stops ReadError.failure? (peekNth n : Step (Traced σ ε) ε (Option Char)) :=
  (stops_fill _).bind fun _ => stops_get.bind fun r => stops_pure (r.buffer.peekAt n)

theorem stops_takeBuffered :
    Stops ReadError.failure? (takeBuffered : Step (Traced σ ε) ε (Option Char)) := by
  refine (stops_fill 1).bind fun _ => stops_get.bind fun r => ?_
  by_cases he : r.buffer.isEmpty = true
  · rw [if_pos he]
    exact stops_pure none
  · rw [if_neg he]
    exact (stops_onBuffer Buffer.remove).bind fun c => stops_pure (some c)

theorem stops_pull : Stops ReadError.failure? (pull : Step (Traced σ ε) ε (Option Char)) := by
  refine stops_get.bind fun r => ?_
  by_cases hd : r.isDry = true
  · rw [if_pos hd]
    exact stops_pure none
  · rw [if_neg hd]
    refine stops_readChar.bind fun o => ?_
    cases o with
    | none => exact stops_setEnded.bind fun _ => stops_pure none
    | some c => exact stops_pure (some c)

theorem stops_read : Stops ReadError.failure? (read : Step (Traced σ ε) ε (Option Char)) := by
  intro r
  rw [read_eq]
  by_cases he : r.buffer.isEmpty = true
  · rw [if_pos he]
    by_cases hm : r.buffer.isMarked = true
    · rw [if_pos hm]
      exact stops_takeBuffered r
    · rw [if_neg hm]
      exact stops_pull r
  · rw [if_neg he]
    exact Stopped.quiet rfl

/-! ## several characters -/

omit [Source σ ε] in
theorem Stops.discard {next : Step (Traced σ ε) ε (Option Char)}
    (h : Stops ReadError.failure? next) (n : Nat) :
    Stops ReadError.failure? (discard next n) := by
  induction n with
  | zero => exact fun _ => Stopped.quiet rfl
  | succ n ih =>
    intro r
    have hr := h r
    unfold Lookahead.discard
    cases hx : next r with
    | error e s =>
      rw [hx] at hr
      exact hr
    | ok o s =>
      rw [hx] at hr
      cases o with
      | none => exact hr
      | some c => exact hr.trans ((ih.bind fun k => stops_pure (k + 1)) s)

omit [Source σ ε] in
theorem Stops.gather {next : Step (Traced σ ε) ε (Option Char)}
    (h : Stops ReadError.failure? next) (room : Nat) (r : Reader (Traced σ ε)) :
    Stopped r (gather next room r).2 ((gather next room r).1.failure?.bind ReadError.failure?) := by
  induction room generalizing r with
  | zero => exact Stopped.quiet rfl
  | succ room ih =>
    have hr := h r
    unfold Lookahead.gather
    cases hx : next r with
    | error e s =>
      rw [hx] at hr
      exact hr
    | ok o s =>
      rw [hx] at hr
      cases o with
      | none => exact hr
      | some c =>
        refine hr.trans ?_
        have hs := ih s
        dsimp only
        rwa [Bulk.failure?_after]

theorem stopped_pullInto (room : Nat) (r : Reader (Traced σ ε)) :
    Stopped r (pullInto room r).2 ((pullInto room r).1.failure?.bind ReadError.failure?) := by
  unfold pullInto
  by_cases hc : room = 0 ∨ r.isDry = true
  · rw [if_pos hc]
    exact Stopped.quiet rfl
  · rw [if_neg hc]
    rcases hs : Source.readInto room r.source with ⟨b, s⟩
    have hcalls := Traced.calls_of_readInto hs
    cases b with
    | read cs => exact Stopped.call hcalls rfl
    | ended => exact Stopped.call hcalls rfl
    | failed cs e => exact Stopped.call hcalls rfl

theorem stopped_readInto (room : Nat) (r : Reader (Traced σ ε)) :
    Stopped r (readInto room r).2 ((readInto room r).1.failure?.bind ReadError.failure?) := by
  unfold readInto
  by_cases h0 : room = 0
  · rw [if_pos h0]
    exact Stopped.quiet rfl
  · rw [if_neg h0]
    rcases r.buffer.drain room with ⟨cs, b⟩
    dsimp only
    rw [Bulk.failure?_after]
    unfold fetchInto
    by_cases hm : b.isMarked = true
    · rw [if_pos hm]
      exact stops_takeBuffered.gather _ _
    · rw [if_neg hm]
      exact stopped_pullInto _ _

theorem stops_skipPast (n : Nat) :
    Stops ReadError.failure? (skipPast n : Step (Traced σ ε) ε Nat) := by
  intro r
  rw [skipPast_eq]
  by_cases hm : r.buffer.isMarked = true
  · rw [if_pos hm]
    exact stops_takeBuffered.discard n r
  · rw [if_neg hm]
    by_cases hc : n = 0 ∨ r.isDry = true
    · rw [if_pos hc]
      exact Stopped.quiet rfl
    · rw [if_neg hc]
      exact stops_sourceSkip n r

theorem stops_skip (n : Nat) : Stops ReadError.failure? (skip n : Step (Traced σ ε) ε Nat) := by
  refine stops_get.bind fun r => ?_
  by_cases hn : n < r.buffered
  · rw [if_pos hn]
    exact (stops_onBuffer (Buffer.advance n)).bind fun _ => stops_pure n
  · rw [if_neg hn]
    refine (stops_onBuffer (Buffer.advance r.buffered)).bind fun _ => ?_
    exact (stops_skipPast (n - r.buffered)).bind fun k => stops_pure (r.buffered + k)

/-- the calls of a reading as items: each item answers for those made for it, and those made last
found the end without failing -/
def Itemwise : List (Except (ReadError ε) Char) → List (Call ε) → Prop
  | [], calls => Orderly calls none
  | i :: is, calls => ∃ own later, calls = own ++ later ∧
      Orderly own ((Lookahead.failure? i).bind ReadError.failure?) ∧ Itemwise is later

theorem itemwise_chars (n : Nat) (r : Reader (Traced σ ε)) :
    ∃ calls, Made r (chars n r).2 calls ∧ Itemwise (chars n r).1 calls := by
  induction n generalizing r with
  | zero => exact ⟨[], Made.none rfl, Orderly.nil⟩
  | succ n ih =>
    have hr := stops_read r
    rw [chars]
    cases hx : read r with
    | error e s =>
      rw [hx] at hr
      obtain ⟨own, hmade, horder⟩ := hr
      obtain ⟨later, hmade', horder'⟩ := ih s
      exact ⟨own ++ later, hmade.trans hmade', own, later, rfl, horder, horder'⟩
    | ok o s =>
      rw [hx] at hr
      cases o with
      | none => exact hr
      | some c =>
        obtain ⟨own, hmade, horder⟩ := hr
        obtain ⟨later, hmade', horder'⟩ := ih s
        exact ⟨own ++ later, hmade.trans hmade', own, later, rfl, horder, horder'⟩

/-! ## the source behind -/

theorem stops_ready : Stops ReadError.failure? (ready : Step (Traced σ ε) ε Bool) := by
  intro r
  rw [ready_eq]
  by_cases he : r.buffer.isEmpty = true
  · rw [if_pos he]
    by_cases hd : r.isDry = true
    · rw [if_pos hd]
      exact Stopped.quiet rfl
    · rw [if_neg hd]
      exact stops_sourceReady r
  · rw [if_neg he]
    exact Stopped.quiet rfl

theorem stops_close : Stops ReadError.failure? (close : Step (Traced σ ε) ε Unit) := by
  intro r
  rw [close_eq]
  by_cases hc : r.closed = true
  · rw [if_pos hc]
    exact Stopped.quiet rfl
  · rw [if_neg hc]
    exact stops_sourceClose { r with buffer := r.buffer.clear, ended := true, closed := true }

/-! ## operations -/

theorem stops_scans : ForScans (σ := Traced σ ε) (τ := Traced σ ε) (ε := ε) (δ := ε)
    (fun x _ => Stops Halt.failure? x) where
  pure := stops_pure
  bind hx hg := hx.bind hg
  peekNth n := stops_step (stops_peekNth n)
  unfinished := fun _ => Stopped.quiet rfl
  advance n := stops_step (stops_onBuffer (Buffer.advance n))
  read := stops_step stops_read

def Outcome.failure? : Outcome ε → Option ε
  | .failed e => e.failure?
  | .answer (.bulk b) => b.failure?.bind ReadError.failure?
  | _ => none

/-- the calls came to what the outcome tells: those of a reading as items item by item, those of any
other operation to its failure or to none -/
def Outcome.Explains (o : Outcome ε) (calls : List (Call ε)) : Prop :=
  match o with
  | .answer (.items is) => Itemwise is calls
  | o => Orderly calls o.failure?

/-- the answers that tell of no failure -/
def Answer.Plain : Answer ε → Prop
  | .bulk _ => False
  | .items _ => False
  | _ => True

/-- the operations with such answers: all but reading in bulk and reading as items -/
def Op.Plain : Op → Prop
  | .readInto _ => False
  | .chars _ => False
  | _ => True

section
variable {op : Op} {rules : Rules} {limit : Nat}

omit [Source σ ε] in
theorem plain_of_map {y : Scan (Traced σ ε) ε α} {g : α → Answer ε} {a : Answer ε}
    (h : (g <$> y) r = .ok a s) (hg : ∀ b, (g b).Plain) : a.Plain := by
  rw [map_apply] at h
  cases hx : y r with
  | ok b t =>
    rw [hx] at h
    cases h
    exact hg b
  | error e t =>
    rw [hx] at h
    cases h

theorem Op.Plain.answer (hop : op.Plain) {a : Answer ε}
    (h : op.perform rules limit r = .ok a s) : a.Plain := by
  cases op with
  | readInto room => exact hop.elim
  | chars n => exact hop.elim
  | _ => exact plain_of_map h fun _ => trivial

theorem Op.Plain.stops (hop : op.Plain) (rules : Rules) (limit : Nat) :
    Stops Halt.failure? (op.perform rules limit : Scan (Traced σ ε) ε _) := by
  cases op with
  | fill n => exact (stops_step (stops_fill n)).map _
  | readInto room => exact hop.elim
  | skip n => exact (stops_step (stops_skip n)).map _
  | mark n => exact (stops_step (stops_onBuffer (Buffer.setMark n))).map _
  | reset => exact (stops_step (stops_onBuffer Buffer.resetToMark)).map _
  | ready => exact (stops_step stops_ready).map _
  | chars n => exact hop.elim
  | close => exact (stops_step stops_close).map _
  | _ => exact stops_scans.perform rules limit trivial

theorem Op.Plain.explained (hop : op.Plain) (r : Reader (Traced σ ε)) :
    ∃ calls, Made r (op.run rules limit r).2 calls ∧
      (op.run rules limit r).1.Explains calls := by
  have hr := hop.stops rules limit r
  rw [Op.run]
  cases hx : op.perform rules limit r with
  | ok a s =>
    rw [hx] at hr
    obtain ⟨calls, hmade, horder⟩ := hr
    refine ⟨calls, hmade, ?_⟩
    have ha := hop.answer hx
    cases a with
    | bulk b => exact ha.elim
    | items is => exact ha.elim
    | _ => exact horder
  | error e s =>
    rw [hx] at hr
    cases e with
    | error e => exact hr
    | limit => exact hr

end

/-- what an operation tells is what the calls made in it came to -/
theorem Op.explained (op : Op) (rules : Rules) (limit : Nat) (r : Reader (Traced σ ε)) :
    ∃ calls, Made r (op.run rules limit r).2 calls ∧
      (op.run rules limit r).1.Explains calls := by
  by_cases hop : op.Plain
  · exact hop.explained r
  · cases op with
    | readInto room => exact stopped_readInto room r
    | chars n => exact itemwise_chars n r
    | _ => exact absurd trivial hop

end Reader

end Lookahead
