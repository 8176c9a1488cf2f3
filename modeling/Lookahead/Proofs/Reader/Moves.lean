import Lookahead.Proofs.Reader.Composed

/-!
# What a reader can do

Whatever is asked of a reader, it does a few single things to its source and its buffer, one after
the other.  A `Move` is one of them, a `Path` is any number of them, each with the characters that
are passed over on the way.  What every move keeps is kept by every operation but `mark`, `reset`
and `close`, which are no paths.

* `Move`, `Path`               one thing and any number of them;
* `Path.valid`                 a well-formed buffer stays well-formed along a path;
* `Looks`, `Drifts`            programs that pass over nothing, or over something;
* `looks_fill`, `looks`         looking ahead and the tests pass over nothing.
-/

namespace Lookahead.Reader

variable {σ ε : Type} [Source σ ε]

/-! ## moves and paths -/

/-- nothing stands between the source and the caller -/
structure Direct (r : Reader σ) : Prop where
  wet : r.isDry = false
  empty : r.buffer.isEmpty = true
  unmarked : r.buffer.isMarked = false

/-- one thing that a reader does, with the characters passed over: `none` is one that the source
dropped unseen -/
inductive Move : List (Option Char) → Reader σ → Reader σ → Prop where
  /-- a character goes into the buffer -/
  | pulled {r : Reader σ} {c : Char} {s : σ} {b : Buffer} (wet : r.isDry = false)
      (room : r.buffered < r.capacity) (source : Source.readChar r.source = .ok (some c) s)
      (buffer : Buffer.add c r.buffer = .ok () b) : Move [] r { r with source := s, buffer := b }
  /-- the source reports its end, when a character was to go into the buffer or by it -/
  | ended {r : Reader σ} {s : σ} (wet : r.isDry = false)
      (fit : r.buffered < r.capacity ∨ r.Direct)
      (source : Source.readChar r.source = .ok none s) :
      Move [] r { r with source := s, ended := true }
  /-- the source fails, when a character was to go into the buffer or by it -/
  | failed {r : Reader σ} {e : ε} {s : σ} (wet : r.isDry = false)
      (fit : r.buffered < r.capacity ∨ r.Direct)
      (source : Source.readChar r.source = .error e s) : Move [] r { r with source := s }
  /-- buffered characters are let go of -/
  | taken {r : Reader σ} {k : Nat} (held : k ≤ r.buffered) :
      Move ((r.buffer.toList.take k).map some) r { r with buffer := r.buffer.consume k }
  /-- a character goes by the buffer -/
  | passed {r : Reader σ} {c : Char} {s : σ} (direct : r.Direct)
      (source : Source.readChar r.source = .ok (some c) s) : Move [some c] r { r with source := s }
  /-- the source writes into a destination -/
  | wrote {r : Reader σ} {room : Nat} {b : Bulk ε} {s : σ} {e : Bool} (direct : r.Direct)
      (room_pos : 0 < room) (source : Source.readInto room r.source = (b, s))
      (ended : e = true ↔ b = .ended) :
      Move (b.written.map some) r { r with source := s, ended := e }
  /-- the source drops characters -/
  | dropped {r : Reader σ} {n k : Nat} {s : σ} (direct : r.Direct) (pos : 0 < n)
      (source : Source.skip n r.source = .ok k s) :
      Move (List.replicate k none) r { r with source := s }
  /-- the source fails to drop characters -/
  | notDropped {r : Reader σ} {n : Nat} {e : ε} {s : σ} (direct : r.Direct) (pos : 0 < n)
      (source : Source.skip n r.source = .error e s) : Move [] r { r with source := s }
  /-- the source is asked whether it is ready -/
  | asked {r : Reader σ} {x : EStateM.Result ε σ Bool} (wet : r.isDry = false)
      (empty : r.buffer.isEmpty = true) (source : Source.ready r.source = x) :
      Move [] r { r with source := finalState x }

/-- moves one after the other, with all that is passed over -/
inductive Path : List (Option Char) → Reader σ → Reader σ → Prop where
  | refl (r : Reader σ) : Path [] r r
  | tail {cs ds : List (Option Char)} {r s t : Reader σ} (h : Path cs r s) (m : Move ds s t) :
      Path (cs ++ ds) r t

theorem Move.path {cs : List (Option Char)} {r s : Reader σ} (m : Move cs r s) : Path cs r s := by
  have := Path.tail (Path.refl r) m
  rwa [List.nil_append] at this

theorem Path.trans {cs ds : List (Option Char)} {r s t : Reader σ} (h : Path cs r s)
    (k : Path ds s t) : Path (cs ++ ds) r t := by
  induction k with
  | refl r => rwa [List.append_nil]
  | tail _ m ih =>
    rw [← List.append_assoc]
    exact Path.tail (ih h) m

theorem Path.after {cs : List (Option Char)} {r s t : Reader σ} (h : Path [] r s)
    (k : Path cs s t) : Path cs r t := h.trans k

theorem Path.cast {cs ds : List (Option Char)} {r s : Reader σ} (h : Path cs r s) (e : cs = ds) :
    Path ds r s := e ▸ h

theorem Move.valid {cs : List (Option Char)} {r s : Reader σ} (m : Move cs r s)
    (h : r.buffer.Valid) : s.buffer.Valid := by
  cases m with
  | pulled _ _ _ hb => exact (h.stands.add hb).valid
  | taken hk => exact h.consume hk
  | _ => exact h

theorem Path.valid {cs : List (Option Char)} {r s : Reader σ} (p : Path cs r s)
    (h : r.buffer.Valid) : s.buffer.Valid := by
  induction p with
  | refl r => exact h
  | tail _ m ih => exact m.valid (ih h)

theorem Move.capacity {cs : List (Option Char)} {r s : Reader σ} (m : Move cs r s) :
    s.capacity = r.capacity := by
  cases m with
  | pulled _ hr _ hb =>
    obtain ⟨b, hb', -, hc⟩ := Buffer.add_of_lt _ hr
    cases hb.symm.trans hb'
    exact hc
  | _ => rfl

theorem Path.capacity {cs : List (Option Char)} {r s : Reader σ} (p : Path cs r s) :
    s.capacity = r.capacity := by
  induction p with
  | refl r => rfl
  | tail _ m ih => exact m.capacity.trans ih

theorem Move.closed {cs : List (Option Char)} {r s : Reader σ} (m : Move cs r s) :
    s.closed = r.closed := by
  cases m <;> rfl

theorem Path.closed {cs : List (Option Char)} {r s : Reader σ} (p : Path cs r s) :
    s.closed = r.closed := by
  induction p with
  | refl r => rfl
  | tail _ m ih => exact m.closed.trans ih

/-! ## programs that pass over nothing -/

/-- the program passes over nothing, whether it fails or not -/
def Looks {η α : Type} (x : EStateM η (Reader σ) α) : Prop := ∀ r, Path [] r (finalState (x r))

/-- the program passes over something or nothing -/
def Drifts {η α : Type} (x : EStateM η (Reader σ) α) : Prop :=
  ∀ r, ∃ cs, Path cs r (finalState (x r))

section
variable {η α β : Type} {x : EStateM η (Reader σ) α}

theorem Looks.drifts (h : Looks x) : Drifts x := fun r => ⟨[], h r⟩

theorem looks_pure (a : α) : Looks (pure a : EStateM η (Reader σ) α) := fun r => Path.refl r

theorem looks_get : Looks (get : EStateM η (Reader σ) (Reader σ)) := fun r => Path.refl r

theorem Looks.bind {f : α → EStateM η (Reader σ) β} (hx : Looks x) (hf : ∀ a, Looks (f a)) :
    Looks (x >>= f) := by
  intro r
  rw [bind_apply]
  have hr := hx r
  cases hxr : x r with
  | ok a s =>
    rw [hxr] at hr
    exact hr.after (hf a s)
  | error e s =>
    rw [hxr] at hr
    exact hr

theorem Drifts.bind {f : α → EStateM η (Reader σ) β} (hx : Drifts x) (hf : ∀ a, Drifts (f a)) :
    Drifts (x >>= f) := by
  intro r
  rw [bind_apply]
  obtain ⟨cs, hr⟩ := hx r
  cases hxr : x r with
  | ok a s =>
    rw [hxr] at hr
    obtain ⟨ds, hs⟩ := hf a s
    exact ⟨cs ++ ds, hr.trans hs⟩
  | error e s =>
    rw [hxr] at hr
    exact ⟨cs, hr⟩

end

/-! ## looking ahead -/

theorem pullMore_path (k : Nat) (r : Reader σ) (hd : r.isDry = false)
    (hk : r.buffered + k ≤ r.capacity) : Path [] r (finalState (pullMore k r)) := by
  induction k generalizing r with
  | zero => exact Path.refl r
  | succ k ih =>
    have hroom : r.buffered < r.capacity := by omega
    rw [pullMore_succ]
    cases hs : Source.readChar r.source with
    | error e s => exact (Move.failed hd (.inl hroom) hs).path
    | ok o s =>
      cases o with
      | none => exact (Move.ended hd (.inl hroom) hs).path
      | some c =>
        obtain ⟨b, hb, hcount, hcap⟩ := Buffer.add_of_lt c hroom
        simp only [hb]
        refine (Move.pulled hd hroom hs hb).path.after (ih _ hd ?_)
        show b.count + k ≤ b.capacity
        rw [hcount, hcap]
        have : r.buffer.count + (k + 1) ≤ r.buffer.capacity := hk
        omega

theorem looks_fill (n : Nat) : Looks (fill n : Step σ ε Unit) := by
  intro r
  rw [fill_eq]
  by_cases hc : r.capacity < n
  · rw [if_pos hc]
    exact Path.refl r
  · rw [if_neg hc]
    by_cases hd : r.isDry = true
    · rw [if_pos hd]
      exact Path.refl r
    · rw [if_neg hd]
      by_cases hn : r.buffered ≤ n
      · exact pullMore_path _ r (by simpa using hd) (by omega)
      · rw [show n - r.buffered = 0 by omega]
        exact Path.refl r

theorem looks_peekNth (n : Nat) : Looks (peekNth n : Step σ ε (Option Char)) :=
  (looks_fill _).bind fun _ => looks_get.bind fun r => looks_pure (r.buffer.peekAt n)

/-! ## tests -/

theorem finalState_step {σ ε α : Type} (x : Step σ ε α) (r : Reader σ) :
    finalState (Scan.step x r) = finalState (x r) := by
  rw [Scan.step_apply]
  cases x r <;> rfl

theorem Looks.step {α : Type} {x : Step σ ε α} (h : Looks x) : Looks (Scan.step x) := by
  intro r
  rw [finalState_step]
  exact h r

theorem Looks.of_step {α : Type} {x : Step σ ε α} (h : Looks (Scan.step x)) : Looks x := by
  intro r
  rw [← finalState_step]
  exact h r

theorem looks : ForTests (σ := σ) (τ := σ) (ε := ε) (δ := ε) (fun x _ => Looks x) where
  pure := looks_pure
  bind hx hf := hx.bind hf
  peekNth n := (looks_peekNth n).step

end Lookahead.Reader
