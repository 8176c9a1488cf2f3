import Lookahead.Proofs.Buffer.Twin
import Lookahead.Proofs.Reader.Steps

/-!
# Readers of one source that hold more or less

Two readers stand one behind the other when they have the same source in the same state and the first
one holds some characters more.  With nothing more held they read alike, whether a mark is set or
not: a character that goes through the buffer is the one that the source gives next.

* `Behind`   a reader that holds some characters and then is as another one;
* `Hollow`   two readers that hold nothing and differ in their marks at most;
* `hollow_takeBuffered`   through the buffer goes what comes straight from the source;
* `agree_read`            readers that hold the same read the same.
-/

namespace Lookahead.Reader

variable {σ ε : Type} {r q s : Reader σ} {p : List Char}

/-! ## one behind the other -/

/-- the first reader holds these characters and then what the second one holds; what comes after
that is the same for both, and only their marks may differ -/
structure Behind (p : List Char) (q r : Reader σ) : Prop where
  source : q.source = r.source
  ended : q.ended = r.ended
  closed : q.closed = r.closed
  capacity : q.capacity = r.capacity
  valid : q.buffer.Valid
  valid' : r.buffer.Valid
  held : q.buffer.toList = p ++ r.buffer.toList

/-- neither reader holds anything -/
def Hollow (q r : Reader σ) : Prop := Behind [] q r ∧ r.buffer.isEmpty = true

namespace Behind

theorem isDry (h : Behind p q r) : q.isDry = r.isDry := by
  rw [Reader.isDry, Reader.isDry, h.ended, h.closed]

theorem twin (h : Behind [] q r) : q.buffer.Twin r.buffer :=
  ⟨h.valid, h.valid', h.capacity, h.held⟩

theorem refl (h : r.buffer.Valid) : Behind [] r r := ⟨rfl, rfl, rfl, rfl, h, h, rfl⟩

theorem symm (h : Behind [] q r) : Behind [] r q :=
  ⟨h.source.symm, h.ended.symm, h.closed.symm, h.capacity.symm, h.valid', h.valid, h.held.symm⟩

theorem trans (h : Behind p q r) (k : Behind [] r s) : Behind p q s :=
  ⟨h.source.trans k.source, h.ended.trans k.ended, h.closed.trans k.closed,
    h.capacity.trans k.capacity, h.valid, k.valid', h.held.trans (congrArg (p ++ ·) k.held)⟩

theorem withSource (h : Behind p q r) (t : σ) :
    Behind p { q with source := t } { r with source := t } :=
  ⟨rfl, h.ended, h.closed, h.capacity, h.valid, h.valid', h.held⟩

theorem withEnded (h : Behind p q r) (e : Bool) :
    Behind p { q with ended := e } { r with ended := e } :=
  ⟨h.source, rfl, h.closed, h.capacity, h.valid, h.valid', h.held⟩

theorem withBuffer (h : Behind p q r) {b b' : Buffer} (hb : b.Twin b') :
    Behind [] { q with buffer := b } { r with buffer := b' } :=
  ⟨h.source, h.ended, h.closed, hb.capacity, hb.valid, hb.valid', hb.held⟩

end Behind

theorem Hollow.refl (h : r.buffer.Valid) (he : r.buffer.isEmpty = true) : Hollow r r :=
  ⟨Behind.refl h, he⟩

theorem Hollow.empty (h : Hollow q r) : q.buffer.isEmpty = true := h.1.twin.isEmpty.trans h.2

theorem Hollow.symm (h : Hollow q r) : Hollow r q := ⟨h.1.symm, h.empty⟩

theorem Hollow.trans (h : Hollow q r) (k : Hollow r s) : Hollow q s := ⟨h.1.trans k.1, k.2⟩

/-! ## reading one character -/

section
variable [Source σ ε]

theorem hollow_pull : Agree Hollow (pull : Step σ ε (Option Char)) pull := by
  rintro q r ⟨h, he⟩
  rw [pull_eq, pull_eq, h.isDry, h.source]
  by_cases hd : r.isDry = true
  · rw [if_pos hd, if_pos hd]
    exact Same.ok none ⟨h, he⟩
  · rw [if_neg hd, if_neg hd]
    cases Source.readChar r.source with
    | error e t => exact Same.error _ ⟨h.withSource t, he⟩
    | ok o t =>
      cases o with
      | none => exact Same.ok none ⟨(h.withSource t).withEnded true, he⟩
      | some c => exact Same.ok (some c) ⟨h.withSource t, he⟩

/-- with nothing held, a character that goes through the buffer is the one that comes next -/
theorem hollow_takeBuffered : Agree Hollow (takeBuffered : Step σ ε (Option Char)) pull := by
  rintro q r ⟨h, he⟩
  have hempty := Hollow.empty ⟨h, he⟩
  have hpos : ¬ q.capacity < 1 := Nat.not_lt.2 h.valid.capacity_pos
  rw [takeBuffered_eq, fill_eq, if_neg hpos, pull_eq, h.isDry]
  by_cases hd : r.isDry = true
  · rw [if_pos hd, if_pos hd]
    dsimp only
    rw [if_pos hempty]
    exact Same.ok none ⟨h, he⟩
  · rw [if_neg hd, if_neg hd, show q.buffered = 0 from Buffer.isEmpty_iff.1 hempty, pullMore_succ,
      h.source]
    cases Source.readChar r.source with
    | error e t => exact Same.error _ ⟨h.withSource t, he⟩
    | ok o t =>
      cases o with
      | none =>
        dsimp only
        rw [if_pos hempty]
        exact Same.ok none ⟨(h.withSource t).withEnded true, he⟩
      | some c =>
        obtain ⟨b, hb, hfull, hslot, hout⟩ := h.valid.through hempty c
        dsimp only
        rw [hb]
        dsimp only [pullMore, pure_apply]
        rw [if_neg hfull, hslot]
        exact Same.ok (some c) ⟨(h.withSource t).withBuffer (hout.trans h.twin), he⟩

theorem hollow_read : Agree Hollow (read : Step σ ε (Option Char)) pull := by
  intro q r h
  rw [read_eq, if_pos h.empty]
  by_cases hm : q.buffer.isMarked = true
  · rw [if_pos hm]
    exact hollow_takeBuffered q r h
  · rw [if_neg hm]
    exact hollow_pull q r h

theorem read_of_held {c : Char} {xs : List Char} (h : r.buffer.Valid)
    (hc : r.buffer.toList = c :: xs) :
    (read r : EStateM.Result (ReadError ε) _ _) =
        .ok (some c) { r with buffer := r.buffer.consume 1 } ∧
      1 ≤ r.buffer.count ∧ (r.buffer.consume 1).toList = xs := by
  have hcount : 1 ≤ r.buffer.count := by
    rw [← Buffer.length_toList, hc]
    exact Nat.succ_pos _
  have he : ¬ r.buffer.isEmpty = true := fun hno =>
    absurd (Buffer.isEmpty_iff.1 hno) (Nat.ne_of_gt hcount)
  have hslot := h.slot_head he
  rw [hc] at hslot
  refine ⟨?_, hcount, ?_⟩
  · rw [read_eq, if_neg he, ← Option.some.inj hslot]
  · rw [Buffer.toList_consume h hcount, hc]
    rfl

theorem agree_read : Agree (Behind []) (read : Step σ ε (Option Char)) read := by
  intro q r h
  cases hr : r.buffer.toList with
  | nil =>
    have he : r.buffer.isEmpty = true := by
      rw [Buffer.isEmpty_iff, ← Buffer.length_toList, hr]
      rfl
    have hboth := (hollow_read (ε := ε) r r (Hollow.refl h.valid' he)).symm
      fun _ _ k => Hollow.symm k
    exact ((hollow_read (ε := ε) q r ⟨h, he⟩).trans hboth fun _ _ _ => Hollow.trans).mono
      fun _ _ k => k.1
  | cons c xs =>
    obtain ⟨hread, hone, -⟩ := read_of_held (ε := ε) h.valid' hr
    obtain ⟨hread', hone', -⟩ := read_of_held (ε := ε) h.valid (h.held.trans hr)
    rw [hread, hread']
    exact Same.ok (some c) (h.withBuffer (h.twin.consume hone'))

end

end Lookahead.Reader
