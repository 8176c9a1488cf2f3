import Lookahead.Proofs.Reader.Composed
import Lookahead.Proofs.Source.Alike

/-!
# Readers over sources that answer alike

A reader does to its source what the answers so far make it do.  Over sources that answer alike,
readers that began alike stay alike and cannot be told apart by anything that is asked of them,
scans included, but for how the sources tell their failures.  Only whether the next read has to wait
is asked of the source in words of its own, so that it is left out, or has to be shown alike apart.

* `Alike`            two readers that differ in nothing but their sources, which are alike;
* `Op.alike`         one operation keeps them alike and gives the same outcome;
* `run_alike`        so does a run;
* `run_traced`       a run over a source with a record is a run over the source.
-/

namespace Lookahead.Reader

open Lookahead.Scan (step)

variable {σ τ ε δ α β : Type} {f : ε → δ} {R : Bool → σ → τ → Prop}

/-- the readers differ in nothing but their sources, and these are related, as sources that are open
or as sources that are closed -/
structure Alike (R : Bool → σ → τ → Prop) (r : Reader σ) (q : Reader τ) : Prop where
  source : R r.closed r.source q.source
  buffer : r.buffer = q.buffer
  ended : r.ended = q.ended
  closed : r.closed = q.closed

namespace Alike
variable {r : Reader σ} {q : Reader τ}

theorem isDry (h : Alike R r q) : r.isDry = q.isDry := by
  rw [Reader.isDry, h.ended, h.closed]
  rfl

theorem capacity (h : Alike R r q) : r.capacity = q.capacity := congrArg Buffer.capacity h.buffer

theorem buffered (h : Alike R r q) : r.buffered = q.buffered := congrArg Buffer.count h.buffer

theorem withBuffer (h : Alike R r q) (b : Buffer) :
    Alike R { r with buffer := b } { q with buffer := b } := ⟨h.source, rfl, h.ended, h.closed⟩

theorem withEnded (h : Alike R r q) (e : Bool) :
    Alike R { r with ended := e } { q with ended := e } := ⟨h.source, h.buffer, rfl, h.closed⟩

theorem withSource (h : Alike R r q) (hopen : r.closed = false) {s : σ} {t : τ}
    (hs : R false s t) : Alike R { r with source := s } { q with source := t } :=
  ⟨by rwa [hopen], h.buffer, h.ended, h.closed⟩

theorem sourceOpen (h : Alike R r q) (hopen : r.closed = false) : R false r.source q.source :=
  hopen ▸ h.source

theorem open_of_wet (h : Alike R r q) (hwet : ¬ q.isDry = true) : r.closed = false := by
  rw [← h.isDry, Reader.isDry, Bool.or_eq_true, not_or] at hwet
  exact Bool.eq_false_iff.2 hwet.2

end Alike

/-! ## the parts of a reader -/

theorem alike_onBuffer (x : EStateM BufferError Buffer α) :
    Agree (Alike R) (translate (ReadError.map f) (onBuffer x : Step σ ε α))
      (onBuffer x : Step τ δ α) := by
  intro r q h
  rw [translate_apply]
  unfold onBuffer
  rw [h.buffer]
  cases x q.buffer with
  | ok a b => exact Same.ok a (h.withBuffer b)
  | error e b => exact Same.error _ (h.withBuffer b)

theorem alike_onSource {x : EStateM ε σ α} {y : EStateM δ τ α}
    (hxy : Agree (R false) (translate f x) y) {r : Reader σ} {q : Reader τ} (h : Alike R r q)
    (hopen : r.closed = false) :
    Same (Alike R) (translate (ReadError.map f) (onSource x : Step σ ε α) r) (onSource y q) := by
  rw [translate_apply]
  unfold onSource
  obtain ⟨a, s, t, hx, hy, hst⟩ | ⟨e, s, t, hx, hy, hst⟩ := (hxy _ _ (h.sourceOpen hopen)).told
  · rw [hx, hy]
    exact Same.ok a (h.withSource hopen hst)
  · rw [hx, hy]
    exact Same.error _ (h.withSource hopen hst)

section
variable [Source σ ε] [Source τ δ] (hs : Source.Alike f R)
include hs

/-! ## looking ahead -/

theorem alike_pullMore (k : Nat) {r : Reader σ} {q : Reader τ} (h : Alike R r q)
    (hopen : r.closed = false) :
    Same (Alike R) (translate (ReadError.map f) (pullMore k : Step σ ε Unit) r)
      (pullMore k q) := by
  induction k generalizing r q with
  | zero => exact Same.ok () h
  | succ k ih =>
    have hread := hs.readChar _ _ (h.sourceOpen hopen)
    rw [translate_apply, pullMore_succ, pullMore_succ]
    obtain ⟨o, s, t, hx, hy, hst⟩ | ⟨e, s, t, hx, hy, hst⟩ := hread.told
    · rw [hx, hy]
      have hnext := h.withSource hopen hst
      cases o with
      | none => exact Same.ok () (hnext.withEnded true)
      | some c =>
        dsimp only
        rw [h.buffer]
        cases Buffer.add c q.buffer with
        | error e b => exact Same.error _ (hnext.withBuffer b)
        | ok _ b => exact ih (hnext.withBuffer b) hopen
    · rw [hx, hy]
      exact Same.error _ (h.withSource hopen hst)

theorem alike_fill (n : Nat) :
    Agree (Alike R) (translate (ReadError.map f) (fill n : Step σ ε Unit)) (fill n) := by
  intro r q h
  rw [translate_apply, fill_eq, fill_eq, h.capacity, h.isDry, h.buffered]
  by_cases hc : q.capacity < n
  · rw [if_pos hc, if_pos hc]
    exact Same.error _ h
  · rw [if_neg hc, if_neg hc]
    by_cases hd : q.isDry = true
    · rw [if_pos hd, if_pos hd]
      exact Same.ok () h
    · rw [if_neg hd, if_neg hd]
      exact alike_pullMore hs _ h (h.open_of_wet hd)

theorem alike_peekNth (n : Nat) :
    Agree (Alike R) (translate (ReadError.map f) (peekNth n : Step σ ε (Option Char)))
      (peekNth n) := by
  intro r q h
  rw [translate_apply, peekNth_eq, peekNth_eq]
  obtain ⟨_, r', q', hr, hq, h'⟩ | ⟨e, r', q', hr, hq, h'⟩ := (alike_fill hs _ r q h).told
  · rw [hr, hq]
    dsimp only
    rw [h'.buffer]
    exact Same.ok _ h'
  · rw [hr, hq]
    exact Same.error _ h'

/-! ## reading -/

theorem alike_takeBuffered :
    Agree (Alike R) (translate (ReadError.map f) (takeBuffered : Step σ ε (Option Char)))
      takeBuffered := by
  intro r q h
  rw [translate_apply, takeBuffered_eq, takeBuffered_eq]
  obtain ⟨_, r', q', hr, hq, h'⟩ | ⟨e, r', q', hr, hq, h'⟩ := (alike_fill hs 1 r q h).told
  · rw [hr, hq]
    dsimp only
    rw [h'.buffer]
    by_cases he : q'.buffer.isEmpty = true
    · rw [if_pos he, if_pos he]
      exact Same.ok none h'
    · rw [if_neg he, if_neg he]
      exact Same.ok _ (h'.withBuffer _)
  · rw [hr, hq]
    exact Same.error _ h'

theorem alike_pull :
    Agree (Alike R) (translate (ReadError.map f) (pull : Step σ ε (Option Char))) pull := by
  intro r q h
  rw [translate_apply, pull_eq, pull_eq, h.isDry]
  by_cases hd : q.isDry = true
  · rw [if_pos hd, if_pos hd]
    exact Same.ok none h
  · have hopen := h.open_of_wet hd
    rw [if_neg hd, if_neg hd]
    obtain ⟨o, s, t, hx, hy, hst⟩ | ⟨e, s, t, hx, hy, hst⟩ :=
      (hs.readChar _ _ (h.sourceOpen hopen)).told
    · rw [hx, hy]
      cases o with
      | none => exact Same.ok none ((h.withSource hopen hst).withEnded true)
      | some c => exact Same.ok (some c) (h.withSource hopen hst)
    · rw [hx, hy]
      exact Same.error _ (h.withSource hopen hst)

theorem alike_read :
    Agree (Alike R) (translate (ReadError.map f) (read : Step σ ε (Option Char))) read := by
  intro r q h
  have htake := alike_takeBuffered hs r q h
  have hpull := alike_pull hs r q h
  rw [translate_apply] at htake hpull ⊢
  rw [read_eq, read_eq, h.buffer]
  by_cases he : q.buffer.isEmpty = true
  · rw [if_pos he, if_pos he]
    by_cases hm : q.buffer.isMarked = true
    · rw [if_pos hm, if_pos hm]
      exact htake
    · rw [if_neg hm, if_neg hm]
      exact hpull
  · rw [if_neg he, if_neg he]
    exact Same.ok _ (h.withBuffer _)

theorem alike_pullInto (room : Nat) {r : Reader σ} {q : Reader τ} (h : Alike R r q) :
    Beside (Alike R) ((pullInto room r).map (Bulk.mapError (ReadError.map f)) id)
      (pullInto room q) := by
  unfold pullInto
  rw [h.isDry]
  by_cases hnone : room = 0 ∨ q.isDry = true
  · rw [if_pos hnone, if_pos hnone]
    exact ⟨rfl, h⟩
  · have hopen := h.open_of_wet fun hd => hnone (.inr hd)
    rw [if_neg hnone, if_neg hnone]
    have hboth := hs.readInto room _ _ (h.sourceOpen hopen)
    rcases hx : Source.readInto room r.source with ⟨b, s⟩
    rcases hy : Source.readInto room q.source with ⟨b', t⟩
    rw [hx, hy] at hboth
    obtain ⟨hb, hst⟩ := hboth
    obtain rfl : b.mapError f = b' := hb
    cases b with
    | ended => exact ⟨rfl, (h.withSource hopen hst).withEnded true⟩
    | read cs => exact ⟨rfl, h.withSource hopen hst⟩
    | failed cs e => exact ⟨rfl, h.withSource hopen hst⟩

theorem alike_fetchInto (room : Nat) {r : Reader σ} {q : Reader τ} (h : Alike R r q) :
    Beside (Alike R) ((fetchInto room r).map (Bulk.mapError (ReadError.map f)) id)
      (fetchInto room q) := by
  unfold fetchInto
  rw [h.buffer]
  by_cases hm : q.buffer.isMarked = true
  · rw [if_pos hm, if_pos hm, ← gather_translate]
    exact (alike_takeBuffered hs).gather room h
  · rw [if_neg hm, if_neg hm]
    exact alike_pullInto hs room h

theorem alike_readInto (room : Nat) {r : Reader σ} {q : Reader τ} (h : Alike R r q) :
    Beside (Alike R) ((readInto room r).map (Bulk.mapError (ReadError.map f)) id)
      (readInto room q) := by
  unfold readInto
  rw [h.buffer]
  by_cases hroom : room = 0
  · rw [if_pos hroom, if_pos hroom]
    exact ⟨rfl, h⟩
  · rw [if_neg hroom, if_neg hroom]
    rcases q.buffer.drain room with ⟨cs, b⟩
    obtain ⟨hb, hend⟩ := alike_fetchInto hs (room - cs.length) (h.withBuffer b)
    exact ⟨(Bulk.mapError_after _ _ _).trans (congrArg (Bulk.after cs) hb), hend⟩

theorem alike_skipPast (n : Nat) :
    Agree (Alike R) (translate (ReadError.map f) (skipPast n : Step σ ε Nat)) (skipPast n) := by
  intro r q h
  have hdiscard := (alike_takeBuffered hs).discard n r q h
  have hskip := alike_onSource (hs.skip n) h
  rw [← translate_discard] at hdiscard
  rw [translate_apply] at hdiscard hskip ⊢
  rw [skipPast_eq, skipPast_eq, h.buffer, h.isDry]
  by_cases hm : q.buffer.isMarked = true
  · rw [if_pos hm, if_pos hm]
    exact hdiscard
  · rw [if_neg hm, if_neg hm]
    by_cases hnone : n = 0 ∨ q.isDry = true
    · rw [if_pos hnone, if_pos hnone]
      exact Same.ok 0 h
    · rw [if_neg hnone, if_neg hnone]
      exact hskip (h.open_of_wet fun hd => hnone (.inr hd))

theorem alike_skip (n : Nat) :
    Agree (Alike R) (translate (ReadError.map f) (skip n : Step σ ε Nat)) (skip n) := by
  intro r q h
  rw [translate_apply, skip_eq, skip_eq, h.buffered, h.buffer]
  by_cases hn : n < q.buffered
  · rw [if_pos hn, if_pos hn]
    exact Same.ok n (h.withBuffer _)
  · rw [if_neg hn, if_neg hn]
    have hpast := alike_skipPast hs (n - q.buffered) _ _
      (h.withBuffer (q.buffer.consume q.buffered))
    obtain ⟨k, r', q', hr, hq, h'⟩ | ⟨e, r', q', hr, hq, h'⟩ := hpast.told
    · rw [hr, hq]
      exact Same.ok _ h'
    · rw [hr, hq]
      exact Same.error _ h'

/-! ## the source behind -/

omit hs in
theorem alike_ready
    (hready : Agree (R false) (translate f Source.ready) (Source.ready : EStateM δ τ _)) :
    Agree (Alike R) (translate (ReadError.map f) (ready : Step σ ε Bool)) ready := by
  intro r q h
  have hsource := alike_onSource hready h
  rw [translate_apply] at hsource ⊢
  rw [ready_eq, ready_eq, h.buffer, h.isDry]
  by_cases he : q.buffer.isEmpty = true
  · rw [if_pos he, if_pos he]
    by_cases hd : q.isDry = true
    · rw [if_pos hd, if_pos hd]
      exact Same.ok false h
    · rw [if_neg hd, if_neg hd]
      exact hsource (h.open_of_wet hd)
  · rw [if_neg he, if_neg he]
    exact Same.ok true h

theorem alike_close :
    Agree (Alike R) (translate (ReadError.map f) (close : Step σ ε Unit)) close := by
  intro r q h
  rw [translate_apply, close_eq, close_eq, ← h.closed, h.buffer]
  cases hc : r.closed with
  | true =>
    rw [if_pos rfl, if_pos rfl]
    exact Same.ok () ⟨hc ▸ h.source, rfl, rfl, rfl⟩
  | false =>
    rw [if_neg Bool.false_ne_true, if_neg Bool.false_ne_true]
    unfold onSource
    obtain ⟨_, s, t, hx, hy, hst⟩ | ⟨e, s, t, hx, hy, hst⟩ :=
      (hs.close _ _ (h.sourceOpen hc)).told
    · rw [hx, hy]
      exact Same.ok () ⟨hst, rfl, rfl, rfl⟩
    · rw [hx, hy]
      exact Same.error _ ⟨hst, rfl, rfl, rfl⟩

end

/-! ## scans -/

theorem translate_step (x : Step σ ε α) :
    translate (Halt.map f) (step x) = step (translate (ReadError.map f) x) := by
  funext r
  rw [translate_apply, Scan.step_apply, Scan.step_apply, translate_apply]
  cases x r <;> rfl

theorem alike_step {x : Step σ ε α} {y : Step τ δ α}
    (hxy : Agree (Alike R) (translate (ReadError.map f) x) y) :
    Agree (Alike R) (translate (Halt.map f) (step x)) (step y) := by
  rw [translate_step]
  exact agree_step hxy

theorem alike_always {g : Reader σ → α × Reader σ} {g' : Reader τ → β × Reader τ} {m : α → β}
    (hg : ∀ r q, Alike R r q → Beside (Alike R) ((g r).map m id) (g' q)) :
    Agree (Alike R) (translate (Halt.map f) (m <$> step (always g : Step σ ε α)))
      (step (always g')) := by
  intro r q h
  obtain ⟨ha, h'⟩ := hg r q h
  show Same (Alike R) (.ok (m (g r).1) (g r).2) (.ok (g' q).1 (g' q).2)
  rw [← ha]
  exact Same.ok _ h'

section
variable [Source σ ε] [Source τ δ] (hs : Source.Alike f R)
include hs

theorem alike_scans :
    ForScans (σ := σ) (τ := τ) (ε := ε) (δ := δ)
      (fun x y => Agree (Alike R) (translate (Halt.map f) x) y) where
  pure := Agree.pure
  bind hx hg := by
    rw [translate_bind]
    exact hx.bind hg
  peekNth n := alike_step (alike_peekNth hs n)
  unfinished := Agree.throw Halt.limit
  advance n := alike_step (alike_onBuffer (Buffer.advance n))
  read := alike_step (alike_read hs)

/-! ## operations and runs -/

variable (rules : Rules) (limit : Nat)

theorem Op.alike_perform (op : Op) (hready : op = .ready →
      Agree (R false) (translate f Source.ready) (Source.ready : EStateM δ τ _)) :
    Agree (Alike R) (translate (Halt.map f) (Answer.mapError f <$> op.perform rules limit))
      (op.perform rules limit) := by
  have hscans := alike_scans hs
  have htold : ∀ {α : Type} {g : α → Answer ε} {g' : α → Answer δ} {x : Step σ ε α}
      {y : Step τ δ α}, (∀ a, (g a).mapError f = g' a) →
      Agree (Alike R) (translate (ReadError.map f) x) y →
      Agree (Alike R) (translate (Halt.map f) (Answer.mapError f <$> (g <$> step x)))
        (g' <$> step y) := fun hg hxy =>
    hscans.map_told (m := id) hg (by
      rw [id_map]
      exact alike_step hxy)
  cases op with
  | fill n => exact htold (fun _ => rfl) (alike_fill hs n)
  | readInto room =>
    exact hscans.map_told (fun _ => rfl) (alike_always fun _ _ => alike_readInto hs room)
  | skip n => exact htold (fun _ => rfl) (alike_skip hs n)
  | mark n => exact htold (fun _ => rfl) (alike_onBuffer (Buffer.setMark n))
  | reset => exact htold (fun _ => rfl) (alike_onBuffer Buffer.resetToMark)
  | ready => exact htold (fun _ => rfl) (alike_ready (hready rfl))
  | chars n => exact hscans.map_told (fun _ => rfl) (alike_always fun _ _ => chars_told (alike_read hs) n)
  | close => exact htold (fun _ => rfl) (alike_close hs)
  | _ => exact hscans.perform_told f rules limit trivial

theorem Op.alike (op : Op) (hready : op = .ready →
      Agree (R false) (translate f Source.ready) (Source.ready : EStateM δ τ _))
    {r : Reader σ} {q : Reader τ} (h : Alike R r q) :
    Beside (Alike R) ((op.run rules limit r).map (Outcome.mapError f) id)
      (op.run rules limit q) := by
  have hop := op.alike_perform hs rules limit hready r q h
  rw [translate_apply, map_apply] at hop
  unfold Op.run
  cases hr : op.perform rules limit r with
  | ok a r' =>
    rw [hr] at hop
    obtain ⟨q', hq, h'⟩ := hop.of_ok rfl
    rw [hq]
    exact ⟨rfl, h'⟩
  | error e r' =>
    rw [hr] at hop
    obtain ⟨_, _, _, hno, _⟩ | ⟨_, _, q', he, hq, h'⟩ := hop.cases
    · cases hno
    · cases he
      rw [hq]
      cases e with
      | error e => exact ⟨rfl, h'⟩
      | limit => exact ⟨rfl, h'⟩

/-- readers over sources that answer alike cannot be told apart -/
theorem run_alike (ops : List Op) (hready : .ready ∈ ops →
      Agree (R false) (translate f Source.ready) (Source.ready : EStateM δ τ _))
    {r : Reader σ} {q : Reader τ} (h : Alike R r q) :
    Beside (Alike R) ((run rules limit ops r).map (List.map (Outcome.mapError f)) id)
      (run rules limit ops q) := by
  induction ops generalizing r q with
  | nil => exact ⟨rfl, h⟩
  | cons op ops ih =>
    obtain ⟨ho, h'⟩ := op.alike hs rules limit (fun hop => hready (hop ▸ List.mem_cons_self)) h
    obtain ⟨hos, hend⟩ := ih (fun hop => hready (List.mem_cons_of_mem op hop)) h'
    rw [run_cons, run_cons, ← ho, ← hos]
    exact ⟨rfl, hend⟩

end

/-- a run over a source with a record goes as the run over the source -/
theorem run_traced [Source σ ε] (rules : Rules) (limit : Nat) (ops : List Op) (r : Reader σ)
    (calls : Array (Call ε)) :
    let traced := run rules limit ops { r with source := (⟨r.source, calls⟩ : Traced σ ε) }
    let plain := run rules limit ops r
    traced.1 = plain.1 ∧ traced.2.source.source = plain.2.source ∧
      traced.2.buffer = plain.2.buffer ∧ traced.2.ended = plain.2.ended ∧
      traced.2.closed = plain.2.closed := by
  intro traced plain
  have halike : Alike (fun _ => Traced.Of) r
      { r with source := (⟨r.source, calls⟩ : Traced σ ε) } := ⟨rfl, rfl, rfl, rfl⟩
  obtain ⟨hout, hend⟩ := run_alike Traced.alike rules limit ops (fun _ => Traced.agree_ready) halike
  have hid : Outcome.mapError (id : ε → ε) = id := funext Outcome.mapError_id
  have houts : plain.1.map (Outcome.mapError id) = traced.1 := hout
  rw [hid, List.map_id] at houts
  exact ⟨houts.symm, hend.source, hend.buffer.symm, hend.ended.symm, hend.closed.symm⟩

end Lookahead.Reader
