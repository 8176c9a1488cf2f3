import Lookahead.Proofs.Buffer.Stands
import Lookahead.Reader.Operation

/-!
# Operations applied to a reader

The operations of a reader are written as programs.  Here each of them is given a reader and what it
does is told case by case, so that no later proof has to run a program.

* `pullMore_succ`, `fill_eq`, `peekNth_eq`   looking ahead;
* `takeBuffered_eq`, `pull_eq`, `read_eq`    reading one character;
* `skip_eq`, `accepting_eq`                  letting go of several;
* `iterate_restRound`, `iterate_collectRound`   one round of reading on to the end.
-/

namespace Lookahead

/-! ## running a program -/

section
variable {ε σ α β : Type}

theorem pure_apply (a : α) (s : σ) : (pure a : EStateM ε σ α) s = .ok a s := rfl

theorem get_apply (s : σ) : (get : EStateM ε σ σ) s = .ok s s := rfl

theorem modify_apply (f : σ → σ) (s : σ) : (modify f : EStateM ε σ Unit) s = .ok () (f s) := rfl

theorem bind_apply (x : EStateM ε σ α) (f : α → EStateM ε σ β) (s : σ) :
    (x >>= f) s = match x s with
      | .ok a s => f a s
      | .error e s => .error e s := rfl

theorem map_apply (f : α → β) (x : EStateM ε σ α) (s : σ) :
    (f <$> x) s = match x s with
      | .ok a s => .ok (f a) s
      | .error e s => .error e s := rfl

theorem finalState_map (f : α → β) (x : EStateM ε σ α) (s : σ) :
    finalState ((f <$> x) s) = finalState (x s) := by
  rw [map_apply]
  cases x s <;> rfl

end

/-! ## failures of the source -/

def ReadError.failure? {ε : Type} : ReadError ε → Option ε
  | source e => some e
  | _ => none

def Halt.failure? {ε : Type} : Halt ε → Option ε
  | error e => e.failure?
  | limit => none

theorem Halt.eq_of_failure? {ε : Type} {d : Halt ε} {e : ε} (h : d.failure? = some e) :
    d = .error (.source e) := by
  cases d with
  | limit => cases h
  | error d =>
    cases d with
    | source e =>
      cases h
      rfl
    | _ => cases h

namespace Reader

variable {σ ε : Type} [Source σ ε] (r : Reader σ)

/-! ## looking ahead -/

theorem pullMore_succ (k : Nat) :
    pullMore (k + 1) r =
      match Source.readChar r.source with
      | .error e s => .error (.source e) { r with source := s }
      | .ok none s => .ok () { r with source := s, ended := true }
      | .ok (some c) s =>
        match Buffer.add c r.buffer with
        | .error e b => .error (.buffer e) { r with source := s, buffer := b }
        | .ok () b => pullMore k { r with source := s, buffer := b } := by
  simp only [pullMore, bind_apply, onSource]
  cases Source.readChar r.source with
  | error e s => rfl
  | ok o s =>
    cases o with
    | none => rfl
    | some c =>
      simp only [bind_apply, onBuffer]
      cases Buffer.add c r.buffer <;> rfl

theorem fill_eq (n : Nat) :
    fill n r =
      if r.capacity < n then .error (.lookahead n r.capacity) r
      else if r.isDry then .ok () r
      else pullMore (n - r.buffered) r := by
  simp only [fill, bind_apply, get_apply]
  split
  · rfl
  · simp only [bind_apply, get_apply]
    split <;> rfl

theorem peekNth_eq (n : Nat) :
    peekNth n r =
      match fill (min (n + 1) maxCount) r with
      | .ok _ r => .ok (r.buffer.peekAt n) r
      | .error e r => .error e r := by
  simp only [peekNth, bind_apply]
  cases fill (min (n + 1) maxCount) r <;> rfl

/-! ## reading one character -/

theorem takeBuffered_eq :
    takeBuffered r =
      match fill 1 r with
      | .ok _ r => if r.buffer.isEmpty then .ok none r else
          .ok (some (r.buffer.slot r.buffer.head)) { r with buffer := r.buffer.consume 1 }
      | .error e r => .error e r := by
  simp only [takeBuffered, bind_apply, get_apply]
  cases fill 1 r with
  | error e r => rfl
  | ok _ r =>
    by_cases h : r.buffer.isEmpty = true
    · simp only [if_pos h, pure_apply]
    · simp only [if_neg h, bind_apply, onBuffer, Buffer.remove, pure_apply]

theorem pull_eq :
    pull r =
      if r.isDry then .ok none r
      else
        match Source.readChar r.source with
        | .error e s => .error (.source e) { r with source := s }
        | .ok none s => .ok none { r with source := s, ended := true }
        | .ok (some c) s => .ok (some c) { r with source := s } := by
  simp only [pull, bind_apply, get_apply]
  split
  · rfl
  · simp only [bind_apply, onSource]
    cases Source.readChar r.source with
    | error e s => rfl
    | ok o s => cases o <;> rfl

theorem read_eq :
    read r =
      if r.buffer.isEmpty then (if r.buffer.isMarked then takeBuffered r else pull r)
      else .ok (some (r.buffer.slot r.buffer.head)) { r with buffer := r.buffer.consume 1 } := by
  simp only [read, bind_apply, get_apply]
  by_cases h : r.buffer.isEmpty = true
  · rw [if_neg (by simp [h]), if_pos h]
    simp only [bind_apply, get_apply]
    split <;> rfl
  · rw [if_pos (by simp [h]), if_neg h]
    simp only [bind_apply, onBuffer, Buffer.remove, if_neg h, pure_apply]

/-! ## dropping several -/

theorem fetchInto_zero (r : Reader σ) : fetchInto (ε := ε) 0 r = (.read [], r) := by
  unfold fetchInto pullInto
  rw [if_pos (Or.inl rfl), gather]
  exact ite_self _

theorem skipPast_eq (n : Nat) :
    skipPast n r =
      if r.buffer.isMarked then discard takeBuffered n r
      else if n = 0 ∨ r.isDry then .ok 0 r
      else onSource (Source.skip n) r := by
  simp only [skipPast, bind_apply, get_apply]
  split
  · rfl
  · simp only [bind_apply, get_apply]
    split <;> rfl

theorem skip_eq (n : Nat) :
    skip n r =
      if n < r.buffered then .ok n { r with buffer := r.buffer.consume n }
      else
        match skipPast (n - r.buffered) { r with buffer := r.buffer.consume r.buffered } with
        | .ok k r' => .ok (r.buffered + k) r'
        | .error e r' => .error e r' := by
  simp only [skip, bind_apply, get_apply]
  by_cases h : n < r.buffered
  · have hn : ¬ r.buffer.count < n := Nat.not_lt.2 (Nat.le_of_lt h)
    simp only [h, if_true, bind_apply, onBuffer, Buffer.advance, hn, if_false, pure_apply]
  · have hn : ¬ r.buffer.count < r.buffered := Nat.lt_irrefl _
    simp only [h, if_false, bind_apply, onBuffer, Buffer.advance, hn, pure_apply]
    cases skipPast (n - r.buffered) { r with buffer := r.buffer.consume r.buffered } <;> rfl

/-! ## the source behind -/

theorem ready_eq :
    ready r =
      if r.buffer.isEmpty then (if r.isDry then .ok false r else onSource Source.ready r)
      else .ok true r := by
  simp only [ready, bind_apply, get_apply]
  by_cases h : r.buffer.isEmpty = true
  · rw [if_neg (by simp [h]), if_pos h]
    simp only [bind_apply, get_apply]
    split <;> rfl
  · rw [if_pos (by simp [h]), if_neg h]
    rfl

theorem close_eq :
    close r =
      if r.closed then .ok () { r with buffer := r.buffer.clear, ended := true, closed := true }
      else
        onSource Source.close
          { r with buffer := r.buffer.clear, ended := true, closed := true } := by
  simp only [close, bind_apply, get_apply, modify_apply]
  split <;> rfl

/-! ## letting go of what a test has found -/

theorem advance_of_le {σ ε : Type} {r : Reader σ} {n : Nat} (h : n ≤ r.buffered) :
    (onBuffer (Buffer.advance n) : Step σ ε Unit) r =
      .ok () { r with buffer := r.buffer.consume n } := by
  unfold onBuffer Buffer.advance
  simp only [show ¬ r.buffer.count < n from Nat.not_lt.2 h, if_false]

theorem accepting_eq {σ ε : Type} (test : Step σ ε Bool) (n : Nat) (r : Reader σ) :
    accepting test n r =
      match test r with
      | .ok true r =>
        if r.buffered < n then .error (.buffer .empty) r
        else .ok true { r with buffer := r.buffer.consume n }
      | .ok false r => .ok false r
      | .error e r => .error e r := by
  simp only [accepting, bind_apply]
  cases test r with
  | error e r => rfl
  | ok b r =>
    cases b with
    | false => rfl
    | true =>
      show (onBuffer (Buffer.advance n) >>= fun _ => pure true : Step σ ε Bool) r = _
      simp only [bind_apply, onBuffer, Buffer.advance]
      by_cases h : r.buffer.count < n
      · simp only [if_pos h]
        exact (if_pos h).symm
      · simp only [if_neg h, pure_apply]
        exact (if_neg h).symm

/-! ## going back -/

theorem mark_eq {σ ε : Type} (limit : Nat) (r : Reader σ) :
    (mark limit : Step σ ε Unit) r =
      if r.capacity < limit then .error (.buffer (.markLimit limit r.capacity)) r
      else .ok () { r with buffer := r.buffer.markHead } := by
  unfold mark onBuffer Buffer.setMark
  by_cases h : r.buffer.capacity < limit
  · simp only [if_pos h]
    exact (if_pos h).symm
  · simp only [if_neg h]
    exact (if_neg h).symm

theorem reset_none {σ ε : Type} {r : Reader σ} (hp : r.buffer.window.past = none) :
    (reset : Step σ ε Unit) r = .error (.buffer .invalidMark) r := by
  have hm : r.buffer.mark = none := by
    cases hm : r.buffer.mark with
    | none => rfl
    | some m =>
      rw [Buffer.past_of_marked hm] at hp
      cases hp
  have hb : Buffer.resetToMark r.buffer = .error .invalidMark r.buffer := by
    unfold Buffer.resetToMark
    rw [hm]
  unfold reset onBuffer
  rw [hb]

theorem reset_some {σ ε : Type} {r : Reader σ} (h : r.buffer.Valid) {p : List Char}
    (hp : r.buffer.window.past = some p) :
    ∃ b, (reset : Step σ ε Unit) r = .ok () { r with buffer := b } ∧
      Buffer.Stands r.capacity b ⟨some [], p ++ r.buffer.toList⟩ := by
  have hw : Window.resetToMark r.buffer.window = .ok () ⟨some [], p ++ r.buffer.toList⟩ := by
    unfold Window.resetToMark
    rw [hp]
    rfl
  have hsame := Buffer.agree_resetToMark r.buffer r.buffer.window ⟨h, rfl, rfl⟩
  rw [hw] at hsame
  obtain ⟨_, b, _, hb, hok, hst⟩ | ⟨_, _, _, _, hno, _⟩ := hsame.cases
  · cases hok
    refine ⟨b, ?_, hst⟩
    unfold reset onBuffer
    rw [hb]
  · cases hno

theorem marked_stands {r : Reader σ} (h : r.buffer.Valid) :
    Buffer.Stands r.capacity r.buffer.markHead ⟨some [], r.buffer.toList⟩ :=
  ⟨h.markHead, rfl, rfl⟩

theorem create_eq {σ : Type} (s : σ) {n : Nat} (h : 0 < n) :
    create s n = .ok ⟨s, Buffer.ofCapacity n, false, false⟩ := by
  rw [create, Buffer.create, if_neg (Nat.ne_of_gt h)]

/-! ## operations and rounds -/

theorem Scan.step_apply {σ ε α : Type} (x : Step σ ε α) (r : Reader σ) :
    Scan.step x r = match x r with
      | .ok a s => .ok a s
      | .error e s => .error (.error e) s := rfl

theorem Scan.step_bind {σ ε α β : Type} (x : Step σ ε α) (f : α → Step σ ε β) :
    Scan.step (x >>= f) = Scan.step x >>= fun a => Scan.step (f a) := by
  funext r
  rw [Scan.step_apply, bind_apply, bind_apply, Scan.step_apply]
  cases x r <;> rfl

theorem Op.run_step {op : Op} {rules : Rules} {limit : Nat} {α : Type} {x : Step σ ε α}
    (f : α → Answer ε) (h : op.perform rules limit = f <$> Scan.step x) :
    op.run rules limit r =
      match x r with
      | .ok a s => (.answer (f a), s)
      | .error e s => (.failed e, s) := by
  rw [Op.run, h, map_apply, Scan.step_apply]
  cases x r <;> rfl

theorem Op.run_mark (rules : Rules) (limit n : Nat) :
    (Op.mark n).run rules limit r =
      if r.capacity < n then (.failed (.buffer (.markLimit n r.capacity)), r)
      else (.answer .done, { r with buffer := r.buffer.markHead }) := by
  rw [Op.run_step (x := Reader.mark n) r (fun _ => .done) rfl, mark_eq]
  by_cases h : r.capacity < n
  · rw [if_pos h, if_pos h]
  · rw [if_neg h, if_neg h]

theorem Op.run_reset (rules : Rules) (limit : Nat) :
    Op.reset.run rules limit r = match (Reader.reset : Step σ ε Unit) r with
      | .ok _ s => (.answer .done, s)
      | .error e s => (.failed e, s) := by
  rw [Op.run_step (x := Reader.reset) r (fun _ => .done) rfl]
  cases (Reader.reset : Step σ ε Unit) r <;> rfl

theorem Op.run_snd (op : Op) (rules : Rules) (limit : Nat) :
    (op.run rules limit r).2 = finalState (op.perform rules limit r) := by
  rw [Op.run]
  cases op.perform rules limit r with
  | ok a s => rfl
  | error e s => cases e <;> rfl

theorem run_cons (rules : Rules) (limit : Nat) (op : Op) (ops : List Op) :
    run rules limit (op :: ops) r =
      ((op.run rules limit r).1 :: (run rules limit ops (op.run rules limit r).2).1,
        (run rules limit ops (op.run rules limit r).2).2) := rfl

theorem Op.buffer_run_close (rules : Rules) (limit : Nat) :
    (Op.close.run rules limit r).2.buffer = r.buffer.clear := by
  rw [Op.run_step (x := Reader.close) r (fun _ => .done) rfl, close_eq]
  by_cases h : r.closed = true
  · rw [if_pos h]
  · rw [if_neg h]
    unfold onSource
    cases Source.close r.source <;> rfl

def restRound (taken : List Char) : Scan σ ε (Scan.Round (List Char) (List Char)) := do
  match ← Scan.step read with
  | none => return .done taken.reverse
  | some c => return .again (c :: taken)

theorem rest_eq (limit : Nat) :
    (rest limit : Scan σ ε (List Char)) = Scan.iterate restRound limit [] := rfl

theorem iterate_restRound (limit : Nat) (taken : List Char) :
    Scan.iterate restRound (limit + 1) taken r =
      match read r with
      | .ok none s => .ok taken.reverse s
      | .ok (some c) s => Scan.iterate restRound limit (c :: taken) s
      | .error e s => .error (.error e) s := by
  rw [Scan.iterate_succ, restRound, bind_apply, Scan.step_apply]
  cases read r with
  | error e s => rfl
  | ok o s => cases o <;> rfl

def collectRound {α : Type} (next : Scan σ ε (Option α)) (taken : List α) :
    Scan σ ε (Scan.Round (List α) (List α × Option (ReadError ε))) := do
  match ← Scan.attempt next with
  | .ok (some a) => return .again (a :: taken)
  | .ok none => return .done (taken.reverse, none)
  | .error e => return .done (taken.reverse, some e)

omit [Source σ ε] in
theorem collect_eq {α : Type} (next : Scan σ ε (Option α)) (limit : Nat) :
    collect next limit = Scan.iterate (collectRound next) limit [] := rfl

omit [Source σ ε] in
theorem iterate_collectRound {α : Type} (next : Scan σ ε (Option α)) (limit : Nat)
    (taken : List α) :
    Scan.iterate (collectRound next) (limit + 1) taken r =
      match next r with
      | .ok (some a) s => Scan.iterate (collectRound next) limit (a :: taken) s
      | .ok none s => .ok (taken.reverse, none) s
      | .error (.error e) s => .ok (taken.reverse, some e) s
      | .error .limit s => .error .limit s := by
  rw [Scan.iterate_succ, collectRound, bind_apply, Scan.attempt]
  cases next r with
  | ok o s => cases o <;> rfl
  | error e s => cases e <;> rfl

end Reader

end Lookahead
