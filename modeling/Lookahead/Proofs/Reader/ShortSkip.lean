import Lookahead.Proofs.Reader.Operations
import Lookahead.Proofs.Reader.Recovery
import Lookahead.Source.Device
import Lookahead.Source.Text

/-!
# Skips that fall short

A skip drops what is held and goes on from there.  With a mark it goes on character by character, up
to the end of the input and no less.  Without one it asks the source once, and a source may drop
fewer characters than it is asked to without being at its end, or report an end that characters
follow.  So a skip that falls short has met the end only where there was a mark or no source to ask.

* `Drained`                  the source has no character to give;
* `peek_eq_none`, `read_eq_none`   what finds no character finds the reader drained;
* `skip_short`               how a skip can fall short;
* `falls_short_before_end`   a skip that falls short of characters there are;
* `short_skip`               what a skip that falls short leaves.
-/

namespace Lookahead.Reader

variable {σ ε : Type} [Source σ ε] {r q : Reader σ} {m k : Nat}

/-! ## no character comes next -/

/-- the source has nothing to give: its end is known, or it reports it now -/
def Drained (r : Reader σ) : Prop :=
  r.isDry = true ∨ ∃ t, Source.readChar r.source = .ok none t

theorem not_drained (hwet : ¬ r.isDry = true)
    (hsome : ∀ t, Source.readChar r.source ≠ .ok none t) : ¬ Drained r := by
  rintro (hdry | ⟨t, ht⟩)
  · exact hwet hdry
  · exact hsome t ht

/-- with nothing held, looking for one character finds one unless the source has none to give -/
theorem fill_one_cases (hv : r.buffer.Valid) (he : r.buffered = 0) :
    (Drained r ∧ ∃ q, (fill 1 : Step σ ε Unit) r = .ok () q ∧ q.buffered = 0) ∨
      (¬ Drained r ∧ ∀ q, (fill 1 : Step σ ε Unit) r = .ok () q → 0 < q.buffered) := by
  have hpos : ¬ r.capacity < 1 := Nat.not_lt.2 hv.capacity_pos
  rw [fill_eq, if_neg hpos, he]
  by_cases hdry : r.isDry = true
  · rw [if_pos hdry]
    exact .inl ⟨.inl hdry, r, rfl, he⟩
  · rw [if_neg hdry, pullMore_succ]
    cases hs : Source.readChar r.source with
    | error e s =>
      refine .inr ⟨not_drained hdry fun t h => ?_, fun p hp => ?_⟩
      · cases hs.symm.trans h
      · cases hp
    | ok o s =>
      cases o with
      | none => exact .inl ⟨.inr ⟨s, hs⟩, _, rfl, he⟩
      | some c =>
        have hzero : r.buffer.count = 0 := he
        have hroom : r.buffer.count < r.buffer.capacity := hzero ▸ hv.capacity_pos
        obtain ⟨b, hb, hcount, -⟩ := Buffer.add_of_lt c hroom
        refine .inr ⟨not_drained hdry fun t h => ?_, fun p hp => ?_⟩
        · cases hs.symm.trans h
        · simp only [hb] at hp
          cases hp
          show 0 < b.count
          rw [hcount]
          exact Nat.succ_pos _

theorem min_one : min (0 + 1) maxCount = 1 := rfl

theorem peek_of_fill (h : (fill 1 : Step σ ε Unit) r = .ok () q) :
    (peek : Step σ ε (Option Char)) r = .ok (q.buffer.peekAt 0) q := by
  rw [peek, peekNth_eq, min_one, h]

theorem peek_of_fill_error {e : ReadError ε} (h : fill 1 r = .error e q) :
    peek r = .error e q := by
  rw [peek, peekNth_eq, min_one, h]

theorem peek_eq_none (hv : r.buffer.Valid) (he : r.buffered = 0) :
    (∃ q, (peek : Step σ ε (Option Char)) r = .ok none q) ↔ Drained r := by
  obtain ⟨hdrained, p, hp, hzero⟩ | ⟨hnot, hsome⟩ := fill_one_cases (ε := ε) hv he
  · have hnone : p.buffer.peekAt 0 = none := by
      have hcount : p.buffer.count = 0 := hzero
      rw [Buffer.peekAt, if_neg (by omega)]
    rw [peek_of_fill hp, hnone]
    exact iff_of_true ⟨p, rfl⟩ hdrained
  · refine iff_of_false ?_ hnot
    rintro ⟨q, hq⟩
    cases hp : (fill 1 : Step σ ε Unit) r with
    | error e p =>
      rw [peek_of_fill_error hp] at hq
      cases hq
    | ok _ p =>
      have hheld : 0 < p.buffer.count := hsome p hp
      rw [peek_of_fill hp, Buffer.peekAt, if_pos hheld] at hq
      cases hq

theorem takeBuffered_eq_none (hv : r.buffer.Valid) (he : r.buffered = 0) :
    (∃ q, (takeBuffered : Step σ ε (Option Char)) r = .ok none q) ↔ Drained r := by
  rw [takeBuffered_eq]
  obtain ⟨hdrained, p, hp, hzero⟩ | ⟨hnot, hsome⟩ := fill_one_cases (ε := ε) hv he
  · rw [hp]
    dsimp only
    rw [if_pos (Buffer.isEmpty_iff.2 hzero)]
    exact iff_of_true ⟨p, rfl⟩ hdrained
  · refine iff_of_false ?_ hnot
    rintro ⟨q, hq⟩
    cases hp : (fill 1 : Step σ ε Unit) r with
    | error e p =>
      rw [hp] at hq
      cases hq
    | ok _ p =>
      have hheld : 0 < p.buffered := hsome p hp
      rw [hp] at hq
      dsimp only at hq
      rw [if_neg (fun h => absurd (Buffer.isEmpty_iff.1 h) (Nat.ne_of_gt hheld))] at hq
      cases hq

theorem pull_eq_none :
    (∃ q, (pull : Step σ ε (Option Char)) r = .ok none q) ↔ Drained r := by
  rw [pull_eq]
  by_cases hdry : r.isDry = true
  · rw [if_pos hdry]
    exact iff_of_true ⟨r, rfl⟩ (.inl hdry)
  · rw [if_neg hdry, Drained, or_iff_right hdry]
    cases Source.readChar r.source with
    | error e s => exact iff_of_false (fun ⟨_, h⟩ => by cases h) fun ⟨_, h⟩ => by cases h
    | ok o s =>
      cases o with
      | none => exact iff_of_true ⟨_, rfl⟩ ⟨s, rfl⟩
      | some c => exact iff_of_false (fun ⟨_, h⟩ => by cases h) fun ⟨_, h⟩ => by cases h

theorem read_eq_none (hv : r.buffer.Valid) (he : r.buffered = 0) :
    (∃ q, (read : Step σ ε (Option Char)) r = .ok none q) ↔ Drained r := by
  rw [read_eq, if_pos (Buffer.isEmpty_iff.2 he)]
  by_cases hm : r.buffer.isMarked = true
  · rw [if_pos hm]
    exact takeBuffered_eq_none hv he
  · rw [if_neg hm]
    exact pull_eq_none

/-! ## skips -/

theorem dry_of_takeBuffered (hv : r.buffer.Valid)
    (h : (takeBuffered : Step σ ε (Option Char)) r = .ok none q) :
    q.isDry = true ∧ q.buffered = 0 := by
  rw [takeBuffered_eq] at h
  cases hf : (fill 1 : Step σ ε Unit) r with
  | error e p =>
    rw [hf] at h
    cases h
  | ok _ p =>
    obtain ⟨-, -, -, hend⟩ := fill_ok hv hf
    rw [hf] at h
    by_cases he : p.buffer.isEmpty = true
    · have hzero : p.buffered = 0 := Buffer.isEmpty_iff.1 he
      have hdry : p.isDry = true := hend.resolve_right (by rw [hzero]; exact Nat.not_succ_le_zero 0)
      simp only [if_pos he] at h
      cases h
      exact ⟨hdry, hzero⟩
    · simp only [if_neg he] at h
      cases h

theorem dry_of_discard (hv : r.buffer.Valid)
    (h : discard (takeBuffered : Step σ ε (Option Char)) m r = .ok k q) (hk : k < m) :
    q.isDry = true ∧ q.buffered = 0 := by
  induction m generalizing r k with
  | zero => exact absurd hk (Nat.not_lt_zero k)
  | succ m ih =>
    have hpath := takeBuffered_path (ε := ε) hv
    unfold discard at h
    cases ht : (takeBuffered : Step σ ε (Option Char)) r with
    | error e s =>
      rw [ht] at h
      cases h
    | ok o s =>
      rw [ht] at h hpath
      cases o with
      | none =>
        cases h
        exact dry_of_takeBuffered hv ht
      | some c =>
        have hvalid : s.buffer.Valid := Path.valid hpath hv
        dsimp only at h
        unfold EStateM.map at h
        cases hd : discard (takeBuffered : Step σ ε (Option Char)) m s with
        | error e t =>
          rw [hd] at h
          cases h
        | ok j t =>
          rw [hd] at h
          cases h
          exact ih hvalid hd (Nat.lt_of_succ_lt_succ hk)

/-- the reader goes on skipping without asking its source to: it is marked, or the source is not
asked any more -/
def SkipsAlone (r : Reader σ) : Prop := r.buffer.isMarked = true ∨ r.isDry = true

theorem skipPast_short (hv : r.buffer.Valid) (he : r.buffered = 0)
    (h : (skipPast m : Step σ ε Nat) r = .ok k q) (hk : k < m) :
    q.buffered = 0 ∧ (SkipsAlone r → q.isDry = true) ∧
      (¬ SkipsAlone r → q.isDry = false ∧ Source.skip m r.source = .ok k q.source) := by
  rw [skipPast_eq] at h
  -- only in the last of the three cases is the source asked to skip
  by_cases hmarked : r.buffer.isMarked = true
  · rw [if_pos hmarked] at h
    obtain ⟨hdry, hzero⟩ := dry_of_discard hv h hk
    exact ⟨hzero, fun _ => hdry, fun hno => absurd (.inl hmarked) hno⟩
  · rw [if_neg hmarked] at h
    by_cases hdry : r.isDry = true
    · rw [if_pos (.inr hdry)] at h
      cases h
      exact ⟨he, fun _ => hdry, fun hno => absurd (.inr hdry) hno⟩
    · rw [if_neg (fun hor => hor.elim (Nat.ne_of_gt (Nat.zero_lt_of_lt hk)) hdry)] at h
      have halone : ¬ SkipsAlone r := fun hor => hor.elim hmarked hdry
      unfold onSource at h
      cases hs : Source.skip m r.source with
      | error e s =>
        rw [hs] at h
        cases h
      | ok j s =>
        rw [hs] at h
        cases h
        exact ⟨he, fun hno => absurd hno halone, fun _ => ⟨Bool.eq_false_iff.2 hdry, rfl⟩⟩

/-- what is held is dropped first -/
theorem skip_short (hv : r.buffer.Valid) (h : (skip m : Step σ ε Nat) r = .ok k q) (hk : k < m) :
    q.buffered = 0 ∧ r.buffered ≤ k ∧ (SkipsAlone r → q.isDry = true) ∧
      (¬ SkipsAlone r → q.isDry = false ∧
        Source.skip (m - r.buffered) r.source = .ok (k - r.buffered) q.source) := by
  rw [skip_eq] at h
  by_cases hm : m < r.buffered
  · rw [if_pos hm] at h
    cases h
    exact absurd hk (Nat.lt_irrefl _)
  · have hbare : ({ r with buffer := r.buffer.consume r.buffered } : Reader σ).buffered = 0 :=
      Nat.sub_self r.buffer.count
    rw [if_neg hm] at h
    cases hp : (skipPast (m - r.buffered) : Step σ ε Nat)
        { r with buffer := r.buffer.consume r.buffered } with
    | error e p =>
      rw [hp] at h
      cases h
    | ok j p =>
      rw [hp] at h
      cases h
      obtain ⟨hzero, halone, hasked⟩ := skipPast_short (hv.consume (Nat.le_refl r.buffer.count))
        hbare hp (by omega)
      refine ⟨hzero, Nat.le_add_right _ _, halone, fun hno => ?_⟩
      rw [Nat.add_sub_cancel_left]
      exact hasked hno

/-! ## the next character -/

/-- looking for the next character and reading it find none -/
def AtEnd (rules : Rules) (limit : Nat) (r : Reader σ) : Prop :=
  (Op.peek.run rules limit r).1 = .answer (.char none) ∧
    (Op.read.run rules limit r).1 = .answer (.char none)

theorem run_char_none {op : Op} {rules : Rules} {limit : Nat} {x : Step σ ε (Option Char)}
    (hop : op.perform rules limit = .char <$> Scan.step x) :
    (op.run rules limit r).1 = .answer (.char none) ↔ ∃ q, x r = .ok none q := by
  rw [Op.run_step r .char hop]
  cases x r with
  | error e q => exact iff_of_false (fun h => by cases h) fun ⟨_, h⟩ => by cases h
  | ok o q =>
    cases o with
    | none => exact iff_of_true rfl ⟨q, rfl⟩
    | some c => exact iff_of_false (fun h => by cases h) fun ⟨_, h⟩ => by cases h

theorem atEnd_iff (hv : r.buffer.Valid) (he : r.buffered = 0) (rules : Rules) (limit : Nat) :
    AtEnd rules limit r ↔ Drained r := by
  have hpeek := peek_eq_none (ε := ε) hv he
  have hread := read_eq_none (ε := ε) hv he
  have hlook : (Op.peek.run rules limit r).1 = .answer (.char none) ↔ Drained r :=
    (run_char_none rfl).trans hpeek
  have htake : (Op.read.run rules limit r).1 = .answer (.char none) ↔ Drained r :=
    (run_char_none rfl).trans hread
  rw [AtEnd, hlook, htake, and_self_iff]

/-- a device that drops fewer characters than it is asked to, and a script that goes on after it has
reported an end -/
theorem falls_short_before_end :
    let device : Device String := { script := .ofList ['a', 'b', 'c'], skipMost := some 1 }
    let script : Script String := ⟨[.char 'a', .stop, .char 'b']⟩
    let ops := [Op.skip 2, .read]
    (∃ r₀, create device 2 = .ok r₀ ∧
      (run Rules.standard 9 ops r₀).1 = [.answer (.count 1), .answer (.char (some 'b'))]) ∧
    ∃ r₀, create script 2 = .ok r₀ ∧
      (run Rules.standard 9 ops r₀).1 = [.answer (.count 1), .answer (.char (some 'b'))] :=
  ⟨⟨_, create_eq _ Nat.two_pos, rfl⟩, _, create_eq _ Nat.two_pos, rfl⟩

/-- **What a short skip says of the end.**  Over any source and in any state that a run can leave, a
skip that drops fewer characters than it was asked to has dropped all that were held.  Where a mark
is set, or the source was not to be asked any more, the reader is at its end.  Elsewhere the source
was asked once and dropped fewer than it was asked to, and the reader is at its end exactly if the
source gives no character to the next read. -/
theorem short_skip (s : σ) {n : Nat} (hn : 0 < n) (rules : Rules) (limit : Nat) (ops : List Op) :
    ∃ r₀, create s n = .ok r₀ ∧
      let r := (run rules limit ops r₀).2
      ∀ m k : Nat, ∀ q : Reader σ,
        (Op.skip m).run rules limit r = (.answer (.count k), q) → k < m →
        q.buffered = 0 ∧ r.buffered ≤ k ∧
        (SkipsAlone r → AtEnd rules limit q) ∧
        (¬ SkipsAlone r →
          Source.skip (m - r.buffered) r.source = .ok (k - r.buffered) q.source ∧
          (AtEnd rules limit q ↔ ∃ t, Source.readChar q.source = .ok none t)) := by
  refine ⟨_, create_eq s hn, ?_⟩
  intro r m k q hskip hk
  have hvalid : r.buffer.Valid := (valid_run rules limit ops (Buffer.valid_ofCapacity hn)).1
  have hq : q.buffer.Valid := by
    have hrun := ((Op.skip m).valid_run (ε := ε) rules limit hvalid).1
    rwa [hskip] at hrun
  have hok : (skip m : Step σ ε Nat) r = .ok k q := by
    rw [Op.run_step (x := Reader.skip m) r .count rfl] at hskip
    cases hx : (skip m : Step σ ε Nat) r with
    | error e p =>
      rw [hx] at hskip
      cases hskip
    | ok j p =>
      rw [hx] at hskip
      cases hskip
      rfl
  obtain ⟨hzero, hle, hmet, hasked⟩ := skip_short hvalid hok hk
  refine ⟨hzero, hle, fun halone => ?_, fun hsource => ?_⟩
  · exact (atEnd_iff hq hzero rules limit).2 (.inl (hmet halone))
  · obtain ⟨hwet, hcount⟩ := hasked hsource
    refine ⟨hcount, ?_⟩
    rw [atEnd_iff hq hzero, Drained, hwet, or_iff_right Bool.false_ne_true]

/-- a skip behind a mark, with one character held -/
theorem short_skip_abc :
    let ops := [Op.read, .mark 1, .peek]
    0 < 2 ∧ ∃ r₀, create (⟨['a', 'b', 'c']⟩ : Text) 2 = .ok r₀ ∧
      let r := (run Rules.standard 9 ops r₀).2
      let q := ((Op.skip 3).run Rules.standard 9 r).2
      (Op.skip 3).run Rules.standard 9 r = (.answer (.count 2), q) ∧ 2 < 3 ∧ SkipsAlone r ∧
        AtEnd Rules.standard 9 q := by
  intro ops
  obtain ⟨r₀, hr, hshort⟩ := short_skip (⟨['a', 'b', 'c']⟩ : Text) Nat.two_pos Rules.standard 9 ops
  rw [create_eq _ Nat.two_pos] at hr
  cases hr
  have halone : SkipsAlone (run Rules.standard 9 ops
      (⟨⟨['a', 'b', 'c']⟩, Buffer.ofCapacity 2, false, false⟩ : Reader Text)).2 := .inl rfl
  obtain ⟨-, -, hend, -⟩ := hshort 3 2 _ rfl (by decide)
  exact ⟨Nat.two_pos, _, create_eq _ Nat.two_pos, rfl, by decide, halone, hend halone⟩

end Lookahead.Reader
