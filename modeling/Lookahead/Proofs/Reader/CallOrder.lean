import Lookahead.Proofs.Reader.Discipline
import Lookahead.Proofs.Reader.Stops
import Lookahead.Source.Device

/-!
# The calls of a run

A fresh reader has made no calls, so after any run its source has been called in order.  Every call
is made in a certain situation: for a look ahead that has room for a character, or with nothing held
and no mark set, past the buffer.  To say so of the calls that were recorded, each is put with the
reader that made it, as it stood before and after, and the calls of an operation are met one after
the other on the path that it follows.

* `Visit.Fair`       a call is made in the situation that is meant for it;
* `Walk`             a path together with the calls made on it;
* `Path.walk`        on every path all calls are fair;
* `Op.visited`       so are those of every operation;
* `calls_in_order`   every call to a source, whatever the source does.
-/

namespace Lookahead.Reader

variable {σ ε : Type} {r s t : Reader (Traced σ ε)}

/-! ## where calls are made -/

/-- a call, and the reader that makes it before and after -/
structure Visit (σ ε : Type) where
  before : Reader (Traced σ ε)
  call : Call ε
  after : Reader (Traced σ ε)

/-- A character is asked for to go into the buffer, or past it: then nothing stands between the
source and the caller, as it does for bulk reads and skips, which ask for something.  A reader that
holds something, or is at its end, does not ask whether the source is ready.  What is closed was open
and is left empty. -/
def Visit.Fair (v : Visit σ ε) : Prop :=
  match v.call with
  | .readChar (.ok (some c)) =>
    Buffer.add c v.before.buffer = .ok () v.after.buffer ∨
      v.before.Direct ∧ v.after.buffer = v.before.buffer
  | .readChar _ =>
    (v.before.buffered < v.before.capacity ∨ v.before.Direct) ∧ v.after.buffer = v.before.buffer
  | .readInto room _ => 0 < room ∧ v.before.Direct ∧ v.after.buffer = v.before.buffer
  | .skip n _ => 0 < n ∧ v.before.Direct ∧ v.after.buffer = v.before.buffer
  | .ready _ => v.before.isDry = false ∧ v.before.buffer.isEmpty = true
  | .close _ => v.before.closed = false ∧ v.after.closed = true ∧ v.after.buffer.isEmpty = true

/-- the calls met on a path, each with the reader that makes it: every move calls the source once and
says so, or leaves the source alone -/
inductive Walk [Source σ ε] :
    List (Visit σ ε) → Reader (Traced σ ε) → Reader (Traced σ ε) → Prop where
  | refl (r : Reader (Traced σ ε)) : Walk [] r r
  | quiet {visits : List (Visit σ ε)} {cs : List (Option Char)} {r s t : Reader (Traced σ ε)}
      (h : Walk visits r s) (m : Move cs s t) (same : t.source = s.source) : Walk visits r t
  | called {visits : List (Visit σ ε)} {cs : List (Option Char)} {r s t : Reader (Traced σ ε)}
      {c : Call ε} (h : Walk visits r s) (m : Move cs s t)
      (made : t.source.calls = s.source.calls.push c) : Walk (visits ++ [⟨s, c, t⟩]) r t

/-- these are the calls that an operation made from `r` to `s`: they are fair and are met on the path
that it follows; of the operations that follow none only closing makes a call -/
structure Visited [Source σ ε] (op : Op) (visits : List (Visit σ ε)) (r s : Reader (Traced σ ε)) :
    Prop where
  made : Made r s (visits.map Visit.call)
  fair : ∀ v ∈ visits, v.Fair
  walk : op.Forward → Walk visits r s
  closing : ¬ op.Forward → ∀ v ∈ visits, op = .close ∧ v.before = r ∧ v.after = s

section
variable [Source σ ε] {visits : List (Visit σ ε)} {cs : List (Option Char)}

theorem Walk.made (w : Walk visits r s) : Made r s (visits.map Visit.call) := by
  induction w with
  | refl r => exact Made.none rfl
  | quiet _ _ same ih =>
    have hall := ih.trans (Made.none same)
    rwa [List.append_nil] at hall
  | called _ _ made ih =>
    rw [List.map_append]
    exact ih.trans (Made.one made)

/-- a move leaves the source alone or makes one call, which is fair -/
theorem Move.visit (m : Move cs r s) : s.source = r.source ∨
    ∃ c, s.source.calls = r.source.calls.push c ∧ (⟨r, c, s⟩ : Visit σ ε).Fair := by
  cases m with
  | pulled _ _ hs hb => exact .inr ⟨_, Traced.calls_of_ok hs, .inl hb⟩
  | ended _ fit hs => exact .inr ⟨_, Traced.calls_of_ok hs, fit, rfl⟩
  | failed _ fit hs => exact .inr ⟨_, Traced.calls_of_error hs, fit, rfl⟩
  | taken _ => exact .inl rfl
  | passed hd hs => exact .inr ⟨_, Traced.calls_of_ok hs, .inr ⟨hd, rfl⟩⟩
  | wrote hd hpos hs _ => exact .inr ⟨_, Traced.calls_of_readInto hs, hpos, hd, rfl⟩
  | dropped hd hpos hs => exact .inr ⟨_, Traced.calls_of_ok hs, hpos, hd, rfl⟩
  | notDropped hd hpos hs => exact .inr ⟨_, Traced.calls_of_error hs, hpos, hd, rfl⟩
  | @asked _ x hwet hempty hs =>
    cases x with
    | ok _ _ => exact .inr ⟨_, Traced.calls_of_ok hs, hwet, hempty⟩
    | error _ _ => exact .inr ⟨_, Traced.calls_of_error hs, hwet, hempty⟩

theorem Path.walk (p : Path cs r s) :
    ∃ visits : List (Visit σ ε), Walk visits r s ∧ ∀ v ∈ visits, v.Fair := by
  induction p with
  | refl r => exact ⟨[], Walk.refl r, fun _ hv => absurd hv List.not_mem_nil⟩
  | tail _ m ih =>
    -- a move makes one call at most, so that the walk goes on by one visit or by none
    obtain ⟨visits, hwalk, hfair⟩ := ih
    obtain hsame | ⟨c, hmade, hc⟩ := m.visit
    · exact ⟨visits, hwalk.quiet m hsame, hfair⟩
    · refine ⟨_, hwalk.called m hmade, fun v hv => ?_⟩
      obtain hv | hv := List.mem_append.1 hv
      · exact hfair v hv
      · rwa [List.mem_singleton.1 hv]

theorem Visited.silent (op : Op) (hop : ¬ op.Forward) (h : s.source = r.source) :
    Visited (ε := ε) op [] r s :=
  ⟨Made.none h, fun _ hv => absurd hv List.not_mem_nil, fun hf => absurd hf hop,
    fun _ _ hv => absurd hv List.not_mem_nil⟩

theorem Visited.close {c : Call ε} (h : s.source.calls = r.source.calls.push c)
    (hc : (⟨r, c, s⟩ : Visit σ ε).Fair) : Visited .close [⟨r, c, s⟩] r s := by
  refine ⟨Made.one h, fun v hv => ?_, False.elim, fun _ v hv => ?_⟩
  · rwa [List.mem_singleton.1 hv]
  · rw [List.mem_singleton.1 hv]
    exact ⟨rfl, rfl, rfl⟩

theorem Op.visited (op : Op) (rules : Rules) (limit : Nat) (hv : r.buffer.Valid) :
    ∃ visits, Visited op visits r (op.run rules limit r).2 := by
  by_cases hop : op.Forward
  · obtain ⟨_, hp, -⟩ := Op.told rules limit hop hv
    obtain ⟨visits, hwalk, hfair⟩ := hp.walk
    exact ⟨visits, hwalk.made, hfair, fun _ => hwalk, fun hno => absurd hop hno⟩
  · cases op with
    | mark n =>
      refine ⟨[], Visited.silent _ hop ?_⟩
      rw [Op.run_mark]
      by_cases hn : r.capacity < n
      · rw [if_pos hn]
      · rw [if_neg hn]
    | reset =>
      refine ⟨[], Visited.silent _ hop ?_⟩
      rw [Op.run_reset]
      cases hp : r.buffer.window.past with
      | none => rw [reset_none hp]
      | some p =>
        obtain ⟨b, hb, -⟩ := reset_some (ε := ε) hv hp
        rw [hb]
    | close =>
      rw [Op.run_step (x := Reader.close) r (fun _ => .done) rfl, close_eq]
      by_cases hc : r.closed = true
      · rw [if_pos hc]
        exact ⟨[], Visited.silent _ hop rfl⟩
      · rw [if_neg hc]
        have hopen : r.closed = false := by simpa using hc
        unfold onSource
        cases hx : Source.close r.source with
        | ok _ u => exact ⟨_, Visited.close (Traced.calls_of_ok hx) ⟨hopen, rfl, rfl⟩⟩
        | error e u => exact ⟨_, Visited.close (Traced.calls_of_error hx) ⟨hopen, rfl, rfl⟩⟩
    | _ => exact absurd trivial hop

end

/-! ## runs -/

theorem Disciplined.fresh (s : σ) (b : Buffer) :
    Disciplined (⟨⟨s, #[]⟩, b, false, false⟩ : Reader (Traced σ ε)) where
  order := List.Pairwise.nil
  proper := fun _ hc => (List.not_mem_nil hc).elim
  ended_iff := iff_of_false Bool.false_ne_true fun
    | .inl ⟨_, hc, _⟩ => List.not_mem_nil hc
    | .inr h => Bool.false_ne_true h
  closed_iff := iff_of_false Bool.false_ne_true fun ⟨_, hc, _⟩ => List.not_mem_nil hc

/-- **A source is called in order.**  Whatever the source does, after any operations: no call but
one to close follows a call that reported the end, and none follows one to close; bulk reads and
skips ask for something; the reader is at its end if the end was reported or it was closed, and it is
closed if it was asked to be, even when that failed.  The calls of one more operation, or of one
more item, end with the first that fails, and that failure is what is told.  Each of them is made
where it should be: bulk reads and skips only with nothing held and no mark set, and single
characters are read there, or for the buffer while it has room. -/
theorem calls_in_order [Source σ ε] (s : σ) {n : Nat} (hn : 0 < n) (rules : Rules) (limit : Nat) :
    ∃ r₀, create (⟨s, #[]⟩ : Traced σ ε) n = .ok r₀ ∧
      ∀ ops, ∃ r, (run rules limit ops r₀).2 = r ∧
        Disciplined r ∧ (r.closed = true ↔ Op.close ∈ ops) ∧
        ∀ op : Op, ∃ visits : List (Visit σ ε), Visited op visits r (op.run rules limit r).2 ∧
          (op.run rules limit r).1.Explains (visits.map Visit.call) := by
  let r₀ : Reader (Traced σ ε) := ⟨⟨s, #[]⟩, Buffer.ofCapacity n, false, false⟩
  have hv : r₀.buffer.Valid := Buffer.valid_ofCapacity hn
  refine ⟨r₀, create_eq _ hn, fun ops => ⟨_, rfl, ?_⟩⟩
  obtain ⟨hend, hclosed⟩ := run_disciplined rules limit ops hv (Disciplined.fresh s _)
  refine ⟨hend, hclosed.trans (or_iff_right Bool.false_ne_true), fun op => ?_⟩
  obtain ⟨visits, hvisited⟩ := op.visited rules limit (valid_run rules limit ops hv).1
  obtain ⟨calls, hmade, hexplains⟩ := op.explained rules limit (run rules limit ops r₀).2
  exact ⟨visits, hvisited, hmade.unique hvisited.made ▸ hexplains⟩

/-- a device that fails while a text is compared, ends in a bulk read and fails to close -/
theorem calls_in_order_abc :
    let device : Device String :=
      { script := ⟨[.char 'a', .failure "slow", .char 'b', .char 'c', .stop, .char 'd']⟩
        closeFailure := some "stuck" }
    let ops := [Op.atText ['a', 'b'], .acceptText ['a', 'b'], .readInto 2, .read, .readInto 4, .close]
    0 < 2 ∧ ∃ r₀, create (⟨device, #[]⟩ : Traced (Device String) String) 2 = .ok r₀ ∧
      ∃ r, (run Rules.standard 9 ops r₀).2 = r ∧
        r.source.calls.size = 7 ∧ Disciplined r ∧ r.closed = true := by
  intro device ops
  obtain ⟨r₀, hr₀, hrun⟩ := calls_in_order device Nat.two_pos Rules.standard 9
  obtain ⟨r, hr, hdisciplined, hclosed, -⟩ := hrun ops
  refine ⟨Nat.two_pos, r₀, hr₀, r, hr, ?_, hdisciplined, hclosed.2 (by decide)⟩
  cases hr₀
  rw [← hr]
  decide +kernel

end Lookahead.Reader
