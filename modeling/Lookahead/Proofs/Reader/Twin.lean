import Lookahead.Proofs.Buffer.Twin
import Lookahead.Proofs.Reader.Composed
import Lookahead.Proofs.Source.Steady

/-!
# Readers that hold the same

Two readers over a steady source are twins when they hold the same characters and the same is left to
read.  Their marks may differ, and one of them only may have noticed the end of the input.  Twins
look ahead alike, and asking for the source or closing it tells nothing apart either.

* `Twin`               the same is held and left;
* `Twin.readChar`      what comes next is the same for twins;
* `agree_unlessDry`    it does not matter which of them knows of the end;
* `twin_peekNth`, `twin_ready`, `twin_close`   operations that keep twins.
-/

namespace Lookahead

namespace Reader

variable {σ ε α : Type} [Source σ ε] {E : σ → σ → Prop}

/-- the readers hold the same and leave the same to read; the end of the input, once it is reached,
may be known to one of them only -/
structure Twin (E : σ → σ → Prop) (r q : Reader σ) : Prop where
  source : E r.source q.source
  buffer : r.buffer.Twin q.buffer
  closed : r.closed = q.closed
  ended : r.ended = q.ended ∨ Source.Done E r.source

section
variable (hE : Source.Steady E)
include hE

namespace Twin
variable {r q p : Reader σ}

theorem symm (h : Twin E r q) : Twin E q r where
  source := hE.symm h.source
  buffer := h.buffer.symm
  closed := h.closed.symm
  ended := h.ended.imp Eq.symm (hE.done h.source)

theorem trans (h : Twin E r q) (k : Twin E q p) : Twin E r p where
  source := hE.trans h.source k.source
  buffer := h.buffer.trans k.buffer
  closed := h.closed.trans k.closed
  ended := by
    obtain hrq | hdone := h.ended
    · exact k.ended.imp hrq.trans (hE.done (hE.symm h.source))
    · exact .inr hdone

omit hE in
theorem withBuffer {b b' : Buffer} (h : Twin E r q) (hb : b.Twin b') :
    Twin E { r with buffer := b } { q with buffer := b' } := ⟨h.source, hb, h.closed, h.ended⟩

omit hE in
theorem capacity (h : Twin E r q) : r.capacity = q.capacity := h.buffer.capacity

omit hE in
theorem buffered (h : Twin E r q) : r.buffered = q.buffered := h.buffer.count

theorem readChar (h : Twin E r q) :
    (∃ s t, Source.readChar r.source = .ok none s ∧ Source.readChar q.source = .ok none t ∧
      Twin E { r with source := s, ended := true } { q with source := t, ended := true }) ∨
    (∃ c s t, Source.readChar r.source = .ok (some c) s ∧
      Source.readChar q.source = .ok (some c) t ∧
      Twin E { r with source := s } { q with source := t }) ∨
    (∃ e s t, Source.readChar r.source = .error e s ∧ Source.readChar q.source = .error e t ∧
      Twin E { r with source := s } { q with source := t }) := by
  obtain ⟨o, s, t, hs, ht, hst⟩ | ⟨e, s, t, hs, ht, hst⟩ := (hE.readChar _ _ h.source).cases
  · cases o with
    | none => exact .inl ⟨s, t, hs, ht, hst, h.buffer, h.closed, .inl rfl⟩
    | some c =>
      refine .inr (.inl ⟨c, s, t, hs, ht, hst, h.buffer, h.closed, h.ended.imp_right ?_⟩)
      rintro ⟨u, hu, -⟩
      cases hs.symm.trans hu
  · refine .inr (.inr ⟨e, s, t, hs, ht, hst, h.buffer, h.closed, h.ended.imp_right ?_⟩)
    rintro ⟨u, hu, -⟩
    cases hs.symm.trans hu

/-- where only one of two twins asks the source any more, the input is at its end -/
theorem done (h : Twin E r q) (hr : r.isDry = true) (hq : ¬ q.isDry = true) :
    Source.Done E q.source := by
  obtain hended | hdone := h.ended
  · refine absurd ?_ hq
    unfold isDry at hr ⊢
    rwa [← hended, ← h.closed]
  · exact hE.done h.source hdone

theorem asked (h : Twin E r q) (hq : Source.Done E q.source) {t : σ} {ended : Bool}
    (ht : E q.source t) : Twin E r { q with source := t, ended } :=
  ⟨hE.trans h.source ht, h.buffer, h.closed, .inr (hE.done (hE.symm h.source) hq)⟩

end Twin

/-! ## looking ahead -/

omit hE in
theorem twin_onBuffer {x : EStateM BufferError Buffer α}
    (hx : Agree Buffer.Twin x x) : Agree (Twin E) (onBuffer x : Step σ ε α) (onBuffer x) := by
  intro r q h
  unfold onBuffer
  obtain ⟨a, b, b', hb, hb', hbb⟩ | ⟨e, b, b', hb, hb', hbb⟩ := (hx _ _ h.buffer).cases
  · rw [hb, hb']
    exact Same.ok a (h.withBuffer hbb)
  · rw [hb, hb']
    exact Same.error _ (h.withBuffer hbb)

theorem twin_pullMore (k : Nat) : Agree (Twin E) (pullMore k : Step σ ε Unit) (pullMore k) := by
  induction k with
  | zero => exact Agree.pure ()
  | succ k ih =>
    intro r q h
    rw [pullMore_succ, pullMore_succ]
    obtain ⟨s, t, hs, ht, h'⟩ | ⟨c, s, t, hs, ht, h'⟩ | ⟨e, s, t, hs, ht, h'⟩ := h.readChar hE
    · rw [hs, ht]
      exact Same.ok () h'
    · rw [hs, ht]
      dsimp only
      obtain ⟨_, b, b', hb, hb', hbb⟩ | ⟨e, b, b', hb, hb', hbb⟩ := (h.buffer.add c).cases
      · rw [hb, hb']
        exact ih _ _ (h'.withBuffer hbb)
      · rw [hb, hb']
        exact Same.error _ (h'.withBuffer hbb)
    · rw [hs, ht]
      exact Same.error _ h'

/-- what is done by readers that still ask the source, and is nothing at the end of the input, agrees
for all readers -/
theorem agree_unlessDry {P : Reader σ → Reader σ → Prop} (hsymm : ∀ r q, P r q → P q r)
    (htwin : ∀ r q, P r q → Twin E r q) {a : α} {x : Step σ ε α} (hx : Agree P x x)
    (hdone : ∀ r q, P r q → Source.Done E q.source → Same P (.ok a r) (x q)) {r q : Reader σ}
    (h : P r q) :
    Same P (if r.isDry then .ok a r else x r) (if q.isDry then .ok a q else x q) := by
  by_cases hr : r.isDry = true
  · rw [if_pos hr]
    by_cases hq : q.isDry = true
    · rw [if_pos hq]
      exact Same.ok a h
    · rw [if_neg hq]
      exact hdone r q h ((htwin r q h).done hE hr hq)
  · rw [if_neg hr]
    by_cases hq : q.isDry = true
    · rw [if_pos hq]
      have h' := hsymm r q h
      exact (hdone q r h' ((htwin q r h').done hE hq hr)).symm hsymm
    · rw [if_neg hq]
      exact hx r q h

theorem twin_fill (n : Nat) : Agree (Twin E) (fill n : Step σ ε Unit) (fill n) := by
  intro r q h
  rw [fill_eq, fill_eq, h.capacity, h.buffered]
  by_cases hc : q.capacity < n
  · rw [if_pos hc, if_pos hc]
    exact Same.error _ h
  · rw [if_neg hc, if_neg hc]
    generalize n - q.buffered = m
    refine agree_unlessDry hE (fun _ _ k => k.symm hE) (fun _ _ k => k) (twin_pullMore hE m)
      (fun r q k hdone => ?_) h
    -- at the end of the input no character can be pulled any more
    cases m with
    | zero => exact Same.ok () k
    | succ m =>
      obtain ⟨t, ht, hqt⟩ := id hdone
      rw [pullMore_succ, ht]
      exact Same.ok () (k.asked hE hdone hqt)

theorem twin_peekNth (n : Nat) :
    Agree (Twin E) (peekNth n : Step σ ε (Option Char)) (peekNth n) := by
  intro r q h
  rw [peekNth_eq, peekNth_eq]
  obtain ⟨_, r', q', hr, hq, h'⟩ | ⟨e, r', q', hr, hq, h'⟩ :=
    (twin_fill hE (min (n + 1) maxCount) r q h).cases
  · rw [hr, hq]
    dsimp only
    rw [h'.buffer.peekAt]
    exact Same.ok _ h'
  · rw [hr, hq]
    exact Same.error e h'

/-! ## the source behind -/

theorem twin_ready : Agree (Twin E) (ready : Step σ ε Bool) ready := by
  intro r q h
  rw [ready_eq, ready_eq, h.buffer.isEmpty]
  by_cases he : q.buffer.isEmpty = true
  · rw [if_pos he, if_pos he]
    refine agree_unlessDry hE (fun _ _ k => k.symm hE) (fun _ _ k => k)
      (fun r q k => ?_) (fun r q k hdone => ?_) h
    · unfold onSource
      obtain ⟨b, s, t, hs, ht, hst⟩ | ⟨e, s, t, hs, ht, hst⟩ := (hE.ready _ _ k.source).cases
      · rw [hs, ht]
        refine Same.ok b ⟨hst, k.buffer, k.closed, k.ended.imp_right fun hdone => ?_⟩
        obtain ⟨u, hu, hru⟩ := hE.unready hdone
        cases hs.symm.trans hu
        exact hE.done hru hdone
      · rw [hs, ht]
        refine Same.error _ ⟨hst, k.buffer, k.closed, k.ended.imp_right fun hdone => ?_⟩
        obtain ⟨u, hu, -⟩ := hE.unready hdone
        cases hs.symm.trans hu
    · unfold onSource
      obtain ⟨t, ht, hqt⟩ := hE.unready hdone
      rw [ht]
      exact Same.ok false (k.asked hE hdone hqt)
  · rw [if_neg he, if_neg he]
    exact Same.ok true h

theorem twin_close : Agree (Twin E) (close : Step σ ε Unit) close := by
  intro r q h
  rw [close_eq, close_eq, h.closed]
  by_cases hc : q.closed = true
  · rw [if_pos hc, if_pos hc]
    exact Same.ok () ⟨h.source, h.buffer.clear, rfl, .inl rfl⟩
  · rw [if_neg hc, if_neg hc]
    unfold onSource
    obtain ⟨_, s, t, hs, ht, hst⟩ | ⟨e, s, t, hs, ht, hst⟩ := (hE.close _ _ h.source).cases
    · dsimp only
      rw [hs, ht]
      exact Same.ok () ⟨hst, h.buffer.clear, rfl, .inl rfl⟩
    · dsimp only
      rw [hs, ht]
      exact Same.error _ ⟨hst, h.buffer.clear, rfl, .inl rfl⟩

end

end Reader

end Lookahead
