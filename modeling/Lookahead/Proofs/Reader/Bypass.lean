import Lookahead.Proofs.Reader.Behind
import Lookahead.Proofs.Reader.Twin

/-!
# The way through the buffer and the way past it

While a mark is set, a reader reads through its buffer; without one it reads straight from the
source.  With nothing held, both ways give the same, also when the source fails midway: each is the
same as reading one character after another straight from the source.  So twins, one of which is
marked and the other not, stay twins.

* `agree_straight`     one character through the buffer is one straight from the source;
* `fetchInto_straight`, `skipPast_straight`   so are bulk reads and skips;
* `twin_read`, `twin_readInto`, `twin_skip`   reading keeps twins;
* `Op.twin`            so does every operation but `reset`, and its outcome is the same for both.
-/

namespace Lookahead.Reader

variable {σ ε α : Type} [Source σ ε] {E : σ → σ → Prop}

/-- what a reader that does not know of an end does for one character straight from the source -/
def ask : Step σ ε (Option Char) := fun r =>
  match Source.readChar r.source with
  | .error e s => .error (.source e) { r with source := s }
  | .ok none s => .ok none { r with source := s, ended := true }
  | .ok (some c) s => .ok (some c) { r with source := s }

theorem pull_eq_ask (r : Reader σ) :
    (pull r : EStateM.Result (ReadError ε) _ _) = if r.isDry then .ok none r else ask r :=
  pull_eq r

section
variable (hE : Source.Steady E)
include hE

/-! ## reading with nothing held -/

/-- twins that hold nothing -/
def Bare (E : σ → σ → Prop) (r q : Reader σ) : Prop := Twin E r q ∧ r.buffer.isEmpty = true

theorem Bare.symm {r q : Reader σ} (h : Bare E r q) : Bare E q r :=
  ⟨h.1.symm hE, h.1.buffer.isEmpty ▸ h.2⟩

theorem Bare.trans {r q p : Reader σ} (h : Bare E r q) (k : Bare E q p) : Bare E r p :=
  ⟨h.1.trans hE k.1, h.2⟩

omit hE in
theorem Hollow.bare {s t : Reader σ} (h : Hollow s t) (ht : Bare E t t) : Bare E s t := by
  refine ⟨⟨?_, h.1.twin, h.1.closed, .inl h.1.ended⟩, h.empty⟩
  rw [h.1.source]
  exact ht.1.source

theorem bare_pull : Agree (Bare E) (pull : Step σ ε (Option Char)) pull := by
  intro r q h
  rw [pull_eq_ask, pull_eq_ask]
  refine agree_unlessDry hE (fun _ _ k => k.symm hE) (fun _ _ k => k.1)
    (fun r q k => ?_) (fun r q k hdone => ?_) h
  · unfold ask
    obtain ⟨s, t, hs, ht, k'⟩ | ⟨c, s, t, hs, ht, k'⟩ | ⟨e, s, t, hs, ht, k'⟩ := k.1.readChar hE
    · rw [hs, ht]
      exact Same.ok none ⟨k', k.2⟩
    · rw [hs, ht]
      exact Same.ok (some c) ⟨k', k.2⟩
    · rw [hs, ht]
      exact Same.error _ ⟨k', k.2⟩
  · obtain ⟨t, ht, hqt⟩ := id hdone
    rw [ask, ht]
    exact Same.ok none ⟨k.1.asked hE hdone hqt, k.2⟩

theorem straight {r : Reader σ} (h : Bare E r r) :
    Same (Bare E) (takeBuffered r : EStateM.Result (ReadError ε) _ _) (pull r) := by
  have hpast := bare_pull (ε := ε) hE r r h
  obtain ⟨o, s, t, hs, ht, k⟩ | ⟨e, s, t, hs, ht, k⟩ :=
    (hollow_takeBuffered (ε := ε) r r (Hollow.refl h.1.buffer.valid h.2)).cases
  · rw [ht] at hpast
    rw [hs, ht]
    exact Same.ok o (k.bare hpast.2)
  · rw [ht] at hpast
    rw [hs, ht]
    exact Same.error e (k.bare hpast.2)

theorem agree_straight : Agree (Bare E) (takeBuffered : Step σ ε (Option Char)) pull :=
  fun r q h => (straight hE (h.trans hE (h.symm hE))).trans (bare_pull hE r q h)
    fun _ _ _ k k' => k.trans hE k'

/-! ## reading -/

theorem bare_read {r : Reader σ} (h : Bare E r r) :
    Same (Bare E) (read r : EStateM.Result (ReadError ε) _ _) (pull r) := by
  rw [read_eq, if_pos h.2]
  by_cases hm : r.buffer.isMarked = true
  · rw [if_pos hm]
    exact straight hE h
  · rw [if_neg hm]
    exact bare_pull hE r r h

theorem agree_of_straight {x : Step σ ε α} {y : Step σ ε α} (hy : Agree (Bare E) y y)
    (hx : ∀ r, Bare E r r → Same (Bare E) (x r) (y r)) : Agree (Bare E) x x := by
  intro r q h
  have htrans : ∀ r q p : Reader σ, Bare E r q → Bare E q p → Bare E r p :=
    fun _ _ _ k k' => k.trans hE k'
  have hr := hx r (h.trans hE (h.symm hE))
  have hq := (hx q ((h.symm hE).trans hE h)).symm fun _ _ k => k.symm hE
  exact (hr.trans (hy r q h) htrans).trans hq htrans

theorem twin_read : Agree (Twin E) (read : Step σ ε (Option Char)) read := by
  intro r q h
  by_cases he : r.buffer.isEmpty = true
  · exact (agree_of_straight hE (bare_pull hE) (fun _ k => bare_read hE k) r q ⟨h, he⟩).mono
      fun _ _ k => k.1
  · have hpos : 1 ≤ r.buffer.count := Nat.pos_of_ne_zero (mt Buffer.isEmpty_iff.2 he)
    rw [read_eq, read_eq, if_neg he, if_neg (h.buffer.isEmpty ▸ he), h.buffer.slot_head he]
    exact Same.ok _ (h.withBuffer (h.buffer.consume hpos))

/-! ## bulk reads and skips -/

omit [Source σ ε] hE in
theorem gather_onSource (next : EStateM ε σ (Option Char)) (room : Nat) (r : Reader σ) :
    gather (onSource next) room r =
      ((gather next room r.source).1.mapError .source,
        { r with source := (gather next room r.source).2 }) := by
  induction room generalizing r with
  | zero => rfl
  | succ room ih =>
    rw [gather, gather]
    unfold onSource
    cases next r.source with
    | error e s => rfl
    | ok o s =>
      cases o with
      | none => rfl
      | some c =>
        have hnext := ih { r with source := s }
        unfold onSource at hnext
        dsimp only
        rw [hnext, Bulk.mapError_after]

omit [Source σ ε] hE in
theorem onSource_eq (x : EStateM ε σ α) (r : Reader σ) :
    onSource x r = match x r.source with
      | .ok a s => .ok a { r with source := s }
      | .error e s => .error (.source e) { r with source := s } := rfl

omit [Source σ ε] hE in
theorem discard_onSource (next : EStateM ε σ (Option Char)) (n : Nat) (r : Reader σ) :
    discard (onSource next) n r = onSource (discard next n) r := by
  induction n generalizing r with
  | zero => rfl
  | succ n ih =>
    rw [discard, onSource_eq, onSource_eq, discard]
    cases next r.source with
    | error e s => rfl
    | ok o s =>
      cases o with
      | none => rfl
      | some c =>
        have hnext := ih { r with source := s }
        dsimp only
        unfold EStateM.map
        rw [hnext, onSource_eq]
        dsimp only
        cases discard next n s <;> rfl

theorem pull_onSource :
    Agree (fun r q => Bare E r q ∧ q.isDry = false) (pull : Step σ ε (Option Char))
      (onSource Source.readChar) := by
  rintro r q ⟨h, hq⟩
  rw [pull_eq]
  unfold onSource
  by_cases hr : r.isDry = true
  · rw [if_pos hr]
    have hdone := h.1.done hE hr (by rw [hq]; exact Bool.false_ne_true)
    obtain ⟨t, ht, hqt⟩ := id hdone
    rw [ht]
    exact Same.ok none ⟨⟨h.1.asked hE hdone hqt, h.2⟩, hq⟩
  · rw [if_neg hr]
    obtain ⟨s, t, hs, ht, h'⟩ | ⟨c, s, t, hs, ht, h'⟩ | ⟨e, s, t, hs, ht, h'⟩ := h.1.readChar hE
    · rw [hs, ht]
      have hdone : Source.Done E s := hE.sticky (hE.left h.1.source) hs
      exact Same.ok none ⟨⟨⟨h'.source, h'.buffer, h'.closed, .inr hdone⟩, h.2⟩, hq⟩
    · rw [hs, ht]
      exact Same.ok (some c) ⟨⟨h', h.2⟩, hq⟩
    · rw [hs, ht]
      exact Same.error _ ⟨⟨h', h.2⟩, hq⟩

/-- what two bulk reads have written is the same, and twins that hold nothing are left -/
def Level (E : σ → σ → Prop) (p p' : Bulk (ReadError ε) × Reader σ) : Prop :=
  p.1.after [] = p'.1.after [] ∧ Bare E p.2 p'.2

namespace Level
variable {p p' p'' : Bulk (ReadError ε) × Reader σ}

omit hE in
theorem of_beside (h : Beside (Bare E) p p') : Level E p p' :=
  ⟨congrArg (Bulk.after []) h.1, h.2⟩

theorem symm (h : Level E p p') : Level E p' p := ⟨h.1.symm, h.2.symm hE⟩

theorem trans (h : Level E p p') (k : Level E p' p'') : Level E p p'' :=
  ⟨h.1.trans k.1, h.2.trans hE k.2⟩

omit hE in
theorem after (h : Level E p p') (cs : List Char) : p.1.after cs = p'.1.after cs := by
  have hcs := congrArg (Bulk.after cs) h.1
  rwa [Bulk.after_after, Bulk.after_after, List.append_nil] at hcs

end Level

/-- with nothing held, a bulk read writes what single reads straight from the source give -/
theorem fetchInto_straight (room : Nat) {r : Reader σ} (h : Bare E r r) :
    Level E (fetchInto (ε := ε) room r) (gather pull room r) := by
  unfold fetchInto
  by_cases hm : r.buffer.isMarked = true
  · rw [if_pos hm]
    exact Level.of_beside ((agree_straight hE).gather room h)
  · rw [if_neg hm]
    unfold pullInto
    cases room with
    | zero =>
      rw [if_pos (.inl rfl)]
      exact ⟨rfl, h⟩
    | succ room =>
      by_cases hd : r.isDry = true
      · rw [if_pos (.inr hd), gather, pull_eq, if_pos hd]
        exact ⟨rfl, h⟩
      · rw [if_neg (by simp [hd]), hE.readInto]
        obtain ⟨hbulk, hend⟩ := (pull_onSource hE).gather (room + 1) ⟨h, by simpa using hd⟩
        rw [gather_onSource] at hbulk hend
        refine Level.symm hE ⟨?_, ?_⟩
        · rw [hbulk]
          rcases gather Source.readChar (room + 1) r.source with ⟨b | _ | _, s⟩ <;> rfl
        · rcases hg : gather Source.readChar (room + 1) r.source with ⟨b | _ | _, s⟩
          · rw [hg] at hend
            exact hend.1
          · rw [hg] at hend
            have hdone := hE.sticky (hE.left h.1.source) (gather_ended hg)
            obtain ⟨⟨k, hk⟩, -⟩ := hend
            exact ⟨⟨k.source, k.buffer, k.closed, .inr (hE.done (hE.symm k.source) hdone)⟩, hk⟩
          · rw [hg] at hend
            exact hend.1

theorem level_fetchInto (room : Nat) {r q : Reader σ} (h : Bare E r q) :
    Level E (fetchInto (ε := ε) room r) (fetchInto room q) := by
  have hr := fetchInto_straight hE (ε := ε) room (h.trans hE (h.symm hE))
  have hq := fetchInto_straight hE (ε := ε) room ((h.symm hE).trans hE h)
  exact (hr.trans hE (Level.of_beside ((bare_pull hE).gather room h))).trans hE (hq.symm hE)

theorem twin_readInto (room : Nat) {r q : Reader σ} (h : Twin E r q) :
    Beside (Twin E) (readInto (ε := ε) room r) (readInto room q) := by
  unfold readInto
  by_cases hroom : room = 0
  · rw [if_pos hroom, if_pos hroom]
    exact ⟨rfl, h⟩
  · rw [if_neg hroom, if_neg hroom, Buffer.drain_eq h.buffer.valid,
      Buffer.drain_eq h.buffer.valid', h.buffer.held, ← h.buffer.count]
    have hle : min room r.buffer.count ≤ r.buffer.count := Nat.min_le_right _ _
    have hlen : (q.buffer.toList.take room).length = min room r.buffer.count := by
      rw [List.length_take, Buffer.length_toList, h.buffer.count]
    have h' := h.withBuffer (h.buffer.consume hle)
    dsimp only
    rw [hlen]
    by_cases hmore : r.buffer.count < room
    · -- everything that was held has been written
      have hbare : Bare E { r with buffer := r.buffer.consume (min room r.buffer.count) }
          { q with buffer := q.buffer.consume (min room r.buffer.count) } :=
        ⟨h', Buffer.isEmpty_consume (Nat.le_min.2 ⟨Nat.le_of_lt hmore, Nat.le_refl _⟩)⟩
      have hlevel := level_fetchInto hE (ε := ε) (room - min room r.buffer.count) hbare
      exact ⟨hlevel.after _, hlevel.2.1⟩
    · rw [show room - min room r.buffer.count = 0 by omega, fetchInto_zero, fetchInto_zero]
      exact ⟨rfl, h'⟩

theorem skipPast_straight (n : Nat) {r : Reader σ} (h : Bare E r r) :
    Same (Bare E) (skipPast n r : EStateM.Result (ReadError ε) _ _) (discard pull n r) := by
  rw [skipPast_eq]
  by_cases hm : r.buffer.isMarked = true
  · rw [if_pos hm]
    exact (agree_straight hE).discard n r r h
  · rw [if_neg hm]
    cases n with
    | zero =>
      rw [if_pos (.inl rfl)]
      exact Same.ok 0 h
    | succ n =>
      by_cases hd : r.isDry = true
      · rw [if_pos (.inr hd), discard, pull_eq, if_pos hd]
        exact Same.ok 0 h
      · rw [if_neg (by simp [hd])]
        have hboth := (pull_onSource hE).discard (n + 1) r r ⟨h, by simpa using hd⟩
        rw [discard_onSource, ← funext (hE.skip (n + 1))] at hboth
        exact hboth.symm fun _ _ k => k.1.symm hE

theorem twin_skip (n : Nat) : Agree (Twin E) (skip n : Step σ ε Nat) (skip n) := by
  intro r q h
  rw [skip_eq, skip_eq, ← h.buffered]
  by_cases hn : n < r.buffered
  · rw [if_pos hn, if_pos hn]
    exact Same.ok n (h.withBuffer (h.buffer.consume (Nat.le_of_lt hn)))
  · rw [if_neg hn, if_neg hn]
    have h' := h.withBuffer (h.buffer.consume (Nat.le_refl r.buffered))
    have hbare : Bare E { r with buffer := r.buffer.consume r.buffered }
        { q with buffer := q.buffer.consume r.buffered } :=
      ⟨h', Buffer.isEmpty_consume (Nat.le_refl _)⟩
    have hpast := agree_of_straight hE ((bare_pull hE).discard (n - r.buffered))
      (fun _ k => skipPast_straight hE (n - r.buffered) k) _ _ hbare
    obtain ⟨k, r', q', hr, hq, k'⟩ | ⟨e, r', q', hr, hq, k'⟩ := hpast.cases
    · rw [hr, hq]
      exact Same.ok _ k'.1
    · rw [hr, hq]
      exact Same.error e k'.1

/-! ## operations -/

theorem Op.twin_perform (rules : Rules) (limit : Nat) {op : Op} (hop : op ≠ .reset) :
    Agree (Twin E) (op.perform rules limit : Scan σ ε (Answer ε)) (op.perform rules limit) := by
  have hscans := ForScans.agree (twin_peekNth hE)
    (fun n => twin_onBuffer (ε := ε) fun _ _ k => k.advance n) (twin_read hE)
  cases op with
  | fill n => exact (agree_step (twin_fill hE n)).map _
  | readInto room => exact (agree_step (agree_always fun _ _ => twin_readInto hE room)).map _
  | skip n => exact (agree_step (twin_skip hE n)).map _
  | mark n => exact (agree_step (twin_onBuffer fun _ _ k => k.setMark n)).map _
  | reset => exact absurd rfl hop
  | ready => exact (agree_step (twin_ready hE)).map _
  | chars n => exact (agree_step (agree_always fun _ _ => agree_chars (twin_read hE) n)).map _
  | close => exact (agree_step (twin_close hE)).map _
  | _ => exact hscans.perform rules limit trivial

/-- an operation that does not go back keeps twins and has the same outcome for both -/
theorem Op.twin (rules : Rules) (limit : Nat) {op : Op} (hop : op ≠ .reset) {r q : Reader σ}
    (h : Twin E r q) : Beside (Twin E) (op.run rules limit r) (op.run rules limit q) :=
  Op.beside (Op.twin_perform hE rules limit hop) h

end

end Lookahead.Reader
