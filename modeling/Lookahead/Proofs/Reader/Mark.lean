import Lookahead.Proofs.Reader.Delivery

/-!
# How long a mark holds

An `Anchor` is what stood when the mark was set: the characters held then, and how far the source
had delivered.  Going back brings these characters and all that was delivered since, in order, as
long as they fit into the buffer, and is refused from then on, by whichever way the characters went.

* `anchor`        the anchor after a run: set by `mark`, lifted by `close`;
* `Anchored`      what the window still has of it: kept by every move;
* `mark_holds`    when `reset` succeeds after any run, and what it brings back.
-/

namespace Lookahead.Reader

variable {σ ε : Type}

/-- what stood when the mark was set -/
structure Anchor where
  /-- the characters that were held -/
  held : List Char
  /-- how many characters the source had delivered -/
  delivered : Nat
  deriving DecidableEq

def Anchor.since (a : Anchor) (r : Reader (Traced σ ε)) : List (Option Char) :=
  r.source.delivered.drop a.delivered

/-- the buffer has room for what was held and for what was delivered since -/
def Anchor.Fits (a : Anchor) (r : Reader (Traced σ ε)) : Prop :=
  a.held.length + (a.since r).length ≤ r.capacity

/-- the anchor after an operation on `r` with this outcome -/
def Op.anchor (r : Reader (Traced σ ε)) (a : Option Anchor) : Op → Outcome ε → Option Anchor
  | .mark _, .answer _ => some ⟨r.buffer.toList, r.source.delivered.length⟩
  | .close, _ => none
  | _, _ => a

def anchor [Source σ ε] (rules : Rules) (limit : Nat) :
    List Op → Reader (Traced σ ε) → Option Anchor → Option Anchor
  | [], _, a => a
  | op :: ops, r, a =>
    anchor rules limit ops (op.run rules limit r).2
      (Op.anchor r a op (op.run rules limit r).1)

/-! ## what the window has of an anchor -/

/-- the window holds what was held and what was delivered since, or this is too much for it -/
structure Anchored (a : Anchor) (r : Reader (Traced σ ε)) : Prop where
  delivered_le : a.delivered ≤ r.source.delivered.length
  replay : ∀ p, r.buffer.window.past = some p →
    (p ++ r.buffer.toList).map some = a.held.map some ++ a.since r
  lost : r.buffer.window.past = none → r.capacity < a.held.length + (a.since r).length

/-- the window has what it can have of the anchor -/
def Kept : Option Anchor → Reader (Traced σ ε) → Prop
  | none, r => r.buffer.window.past = none
  | some a, r => Anchored a r

namespace Anchored
variable {a : Anchor} {r : Reader (Traced σ ε)} {ds : List (Option Char)} {t : Traced σ ε}

theorem since_append (h : Anchored a r) (ht : t.delivered = r.source.delivered ++ ds)
    (b : Buffer) (e : Bool) :
    a.since { r with source := t, buffer := b, ended := e } = a.since r ++ ds := by
  show t.delivered.drop a.delivered = r.source.delivered.drop a.delivered ++ ds
  rw [ht, List.drop_append_of_le_length h.delivered_le]

theorem delivered_le_append (h : Anchored a r) (ht : t.delivered = r.source.delivered ++ ds) :
    a.delivered ≤ t.delivered.length := by
  rw [ht, List.length_append]
  exact Nat.le_add_right_of_le h.delivered_le

/-- a mark that is lost stays lost, whatever is delivered -/
theorem of_lost (h : Anchored a r) (hp : r.buffer.window.past = none)
    (ht : t.delivered = r.source.delivered ++ ds) (e : Bool) :
    Anchored a { r with source := t, ended := e } where
  delivered_le := h.delivered_le_append ht
  replay := fun p hsome => by
    have hsome' : r.buffer.window.past = some p := hsome
    rw [hp] at hsome'
    cases hsome'
  lost := fun _ => by
    have hlost := h.lost hp
    rw [h.since_append ht r.buffer e, List.length_append]
    show r.capacity < _
    omega

theorem quiet (h : Anchored a r) (ht : t.delivered = r.source.delivered) (e : Bool) :
    Anchored a { r with source := t, ended := e } := by
  have hsince := h.since_append (ht.trans (List.append_nil _).symm) r.buffer e
  rw [List.append_nil] at hsince
  refine ⟨?_, fun p hp => ?_, fun hp => ?_⟩
  · show a.delivered ≤ t.delivered.length
    rw [ht]
    exact h.delivered_le
  · rw [hsince]
    exact h.replay p hp
  · rw [hsince]
    exact h.lost hp

theorem taken (h : Anchored a r) (hv : r.buffer.Valid) {k : Nat} (hk : k ≤ r.buffered) :
    Anchored a { r with buffer := r.buffer.consume k } := by
  refine ⟨h.delivered_le, fun p hp => ?_, fun hp => ?_⟩
  · have hsome : (r.buffer.consume k).window.past = some p := hp
    rw [Buffer.past_consume hv hk] at hsome
    obtain ⟨q, hq, rfl⟩ := Option.map_eq_some_iff.1 hsome
    show ((q ++ r.buffer.toList.take k) ++ (r.buffer.consume k).toList).map some = _
    rw [Buffer.toList_consume hv hk, List.append_assoc, List.take_append_drop]
    exact h.replay q hq
  · have hnone : (r.buffer.consume k).window.past = none := hp
    rw [Buffer.past_consume hv hk] at hnone
    exact h.lost (Option.map_eq_none_iff.1 hnone)

theorem pulled (h : Anchored a r) (hv : r.buffer.Valid) {c : Char} {b : Buffer}
    (ht : t.delivered = r.source.delivered ++ [some c]) (hb : Buffer.add c r.buffer = .ok () b) :
    Anchored a { r with source := t, buffer := b } := by
  have hnew := hv.stands.add hb
  have hcap : b.capacity = r.capacity := hnew.capacity
  have hsince := h.since_append ht b r.ended
  refine ⟨h.delivered_le_append ht, fun p hp => ?_, fun hp => ?_⟩
  · have hsome : b.window.past = some p := hp
    rw [hnew.past] at hsome
    by_cases hs : r.buffer.window.size = r.buffer.capacity
    · rw [if_pos hs] at hsome
      cases hsome
    · rw [if_neg hs] at hsome
      rw [hsince, ← List.append_assoc, ← h.replay p hsome]
      show (p ++ b.toList).map some = _
      rw [hnew.toList, ← List.append_assoc, List.map_append]
      rfl
  · have hnone : b.window.past = none := hp
    rw [hnew.past] at hnone
    rw [hsince, List.length_append]
    show b.capacity < a.held.length + ((a.since r).length + 1)
    rw [hcap]
    cases hold : r.buffer.window.past with
    | none =>
      have hlost := h.lost hold
      omega
    | some p =>
      -- the mark was given up just now, so that the window was as large as the buffer
      have hs : r.buffer.window.size = r.capacity := by
        by_cases hs : r.buffer.window.size = r.buffer.capacity
        · exact hs
        · rw [if_neg hs, hold] at hnone
          cases hnone
      have hlen := congrArg List.length (h.replay p hold)
      rw [List.length_map, List.length_append, List.length_append, List.length_map] at hlen
      have hsize : r.buffer.window.size = p.length + r.buffer.toList.length := by
        show (r.buffer.window.past.getD []).length + r.buffer.toList.length = _
        rw [hold]
        rfl
      omega

end Anchored

theorem Direct.past {r : Reader (Traced σ ε)} (h : r.Direct) : r.buffer.window.past = none :=
  Buffer.past_of_unmarked (by simpa [Buffer.isMarked] using h.unmarked)

/-! ## moves and paths -/

section
variable [Source σ ε] {cs : List (Option Char)} {r s : Reader (Traced σ ε)} {a : Option Anchor}

theorem Move.unmarked (m : Move cs r s) (hv : r.buffer.Valid) (h : r.buffer.window.past = none) :
    s.buffer.window.past = none := by
  cases m with
  | pulled _ _ _ hb =>
    refine (hv.stands.add hb).past.trans ?_
    show (if r.buffer.window.size = r.buffer.capacity then none else r.buffer.window.past) = none
    rw [h, ite_self]
  | taken hk =>
    refine (Buffer.past_consume hv hk).trans ?_
    rw [h, Option.map_none]
  | _ => exact h

theorem Move.anchored {x : Anchor} (m : Move cs r s) (hv : r.buffer.Valid) (h : Anchored x r) :
    Anchored x s := by
  cases m with
  | pulled _ _ hs hb => exact h.pulled hv (Traced.delivered_readChar hs) hb
  | ended _ _ hs => exact h.quiet ((Traced.delivered_readChar hs).trans (List.append_nil _)) true
  | failed _ _ hs => exact h.quiet (Traced.delivered_readChar_error hs) r.ended
  | taken hk => exact h.taken hv hk
  | passed hd hs => exact h.of_lost hd.past (Traced.delivered_readChar hs) r.ended
  | wrote hd _ hs _ => exact h.of_lost hd.past (Traced.delivered_readInto hs) _
  | dropped hd _ hs => exact h.of_lost hd.past (Traced.delivered_skip hs) r.ended
  | notDropped _ _ hs => exact h.quiet (Traced.delivered_skip_error hs) r.ended
  | asked _ _ hs => exact h.quiet (Traced.delivered_ready hs) r.ended

theorem Path.kept (p : Path cs r s) (hv : r.buffer.Valid) (h : Kept a r) : Kept a s := by
  induction p with
  | refl r => exact h
  | tail p m ih =>
    have hmid := ih hv h
    cases a with
    | none => exact m.unmarked (p.valid hv) hmid
    | some x => exact m.anchored (p.valid hv) hmid

end

/-! ## going back -/

section
variable {r : Reader (Traced σ ε)} {a : Anchor}

theorem anchored_marked (h : r.buffer.Valid) :
    Anchored ⟨r.buffer.toList, r.source.delivered.length⟩
      { r with buffer := r.buffer.markHead } where
  delivered_le := Nat.le_refl _
  replay := fun p hp => by
    cases (marked_stands h).past.symm.trans hp
    show r.buffer.toList.map some = _ ++ r.source.delivered.drop r.source.delivered.length
    rw [List.drop_length, List.append_nil]
  lost := fun hp => by
    cases (marked_stands h).past.symm.trans hp

/-- as long as there is room for it all, the window still has it -/
theorem Anchored.past_of_fits (h : Anchored a r) (hfits : a.Fits r) :
    ∃ p, r.buffer.window.past = some p := by
  cases hp : r.buffer.window.past with
  | none => exact absurd hfits (Nat.not_le_of_lt (h.lost hp))
  | some p => exact ⟨p, rfl⟩

theorem Anchored.fits_of_past (h : Anchored a r) (hv : r.buffer.Valid) {p : List Char}
    (hp : r.buffer.window.past = some p) : a.Fits r := by
  have hlen := congrArg List.length (h.replay p hp)
  rw [List.length_map, List.length_append, List.length_append, List.length_map] at hlen
  have hsize : p.length + r.buffer.toList.length ≤ r.capacity := by
    have hle := hv.size_window_le
    rw [Window.size, hp] at hle
    exact hle
  unfold Anchor.Fits
  omega

/-- going back brings what was held and what was delivered since, and the mark stays -/
theorem Anchored.reset (h : Anchored a r) (hv : r.buffer.Valid) (hfits : a.Fits r) :
    ∃ b, (reset : Step (Traced σ ε) ε Unit) r = .ok () { r with buffer := b } ∧
      b.Valid ∧ b.capacity = r.capacity ∧ b.toList.map some = a.held.map some ++ a.since r ∧
      Anchored a { r with buffer := b } := by
  obtain ⟨p, hp⟩ := h.past_of_fits hfits
  obtain ⟨b, hb, hst⟩ := reset_some (ε := ε) hv hp
  have hheld : b.toList.map some = a.held.map some ++ a.since r := by
    rw [hst.toList]
    exact h.replay p hp
  have hpast : b.window.past = some [] := hst.past
  refine ⟨b, hb, hst.valid, hst.capacity, hheld, h.delivered_le, fun q hq => ?_, fun hq => ?_⟩
  · cases hpast.symm.trans hq
    exact hheld
  · cases hpast.symm.trans hq

theorem Anchored.reset_refused (h : Anchored a r) (hv : r.buffer.Valid) (hfits : ¬ a.Fits r) :
    (Reader.reset : Step (Traced σ ε) ε Unit) r = .error (.buffer .invalidMark) r := by
  refine reset_none ?_
  cases hp : r.buffer.window.past with
  | none => rfl
  | some p => exact absurd (h.fits_of_past hv hp) hfits

theorem Op.anchor_of_forward {op : Op} (hop : op.Forward) {a : Option Anchor} (o : Outcome ε) :
    op.anchor r a o = a := by
  cases op with
  | mark _ => exact hop.elim
  | close => exact hop.elim
  | _ => rfl

end

/-! ## operations and runs -/

section
variable [Source σ ε] {r : Reader (Traced σ ε)} {a : Option Anchor} (rules : Rules) (limit : Nat)

theorem Op.kept (op : Op) (hv : r.buffer.Valid) (h : Kept a r) :
    (op.run rules limit r).2.buffer.Valid ∧
      Kept (op.anchor r a (op.run rules limit r).1) (op.run rules limit r).2 ∧
      (op.run rules limit r).2.capacity = r.capacity := by
  by_cases hop : op.Forward
  · obtain ⟨cs, hp, -⟩ := Op.told rules limit hop hv
    rw [Op.anchor_of_forward hop]
    exact ⟨hp.valid hv, hp.kept hv h, hp.capacity⟩
  · cases op with
    | mark n =>
      rw [Op.run_mark]
      by_cases hn : r.capacity < n
      · rw [if_pos hn]
        exact ⟨hv, h, rfl⟩
      · rw [if_neg hn]
        exact ⟨hv.markHead, anchored_marked hv, rfl⟩
    | reset =>
      rw [Op.run_reset]
      cases a with
      | none =>
        rw [reset_none h]
        exact ⟨hv, h, rfl⟩
      | some x =>
        by_cases hfits : x.Fits r
        · obtain ⟨b, hb, hbv, hcap, -, hnew⟩ := Anchored.reset (ε := ε) h hv hfits
          rw [hb]
          exact ⟨hbv, hnew, hcap⟩
        · rw [Anchored.reset_refused h hv hfits]
          exact ⟨hv, h, rfl⟩
    | close =>
      have hb := Op.buffer_run_close r rules limit
      refine ⟨?_, ?_, ?_⟩
      · rw [hb]
        exact hv.clear
      · show (Op.close.run rules limit r).2.buffer.window.past = none
        rw [hb]
        rfl
      · show (Op.close.run rules limit r).2.buffer.capacity = r.buffer.capacity
        rw [hb]
        rfl
    | _ => exact absurd trivial hop

theorem run_kept (ops : List Op) (hv : r.buffer.Valid) (h : Kept a r) :
    (run rules limit ops r).2.buffer.Valid ∧
      Kept (anchor rules limit ops r a) (run rules limit ops r).2 ∧
      (run rules limit ops r).2.capacity = r.capacity := by
  induction ops generalizing r a with
  | nil => exact ⟨hv, h, rfl⟩
  | cons op ops ih =>
    obtain ⟨hv', h', hcap⟩ := Op.kept rules limit op hv h
    obtain ⟨hvs, hs, hcaps⟩ := ih hv' h'
    exact ⟨hvs, hs, hcaps.trans hcap⟩

end

/-- **How long a mark holds.**  Over any source and after any run, going back is refused, and
changes nothing, unless a mark was set and the reader was not closed since and the buffer has room
for the characters held at the mark together with those delivered since; then it brings exactly
these, in order, and changes nothing else.  How far the caller meant to read has no say in it, but
that a mark for more than the capacity is refused and leaves the earlier one. -/
theorem mark_holds [Source σ ε] (s : σ) {n : Nat} (hn : 0 < n) (rules : Rules) (limit : Nat)
    (ops : List Op) :
    ∃ r₀, create (⟨s, #[]⟩ : Traced σ ε) n = .ok r₀ ∧
      let r := (run rules limit ops r₀).2
      let refused : Outcome ε × Reader (Traced σ ε) := (.failed (.buffer .invalidMark), r)
      (match anchor rules limit ops r₀ none with
        | none => Op.reset.run rules limit r = refused
        | some a =>
          let since := r.source.delivered.drop a.delivered
          if a.held.length + since.length ≤ n then
            ∃ b, Op.reset.run rules limit r = (.answer .done, { r with buffer := b }) ∧
              b.toList.map some = a.held.map some ++ since ∧
              b.count = a.held.length + since.length
          else Op.reset.run rules limit r = refused) ∧
      ∀ k, (Op.mark k).run rules limit r =
        if n < k then (.failed (.buffer (.markLimit k n)), r)
        else (.answer .done, ((Op.mark 0).run rules limit r).2) := by
  refine ⟨_, create_eq _ hn, ?_⟩
  intro r refused
  obtain ⟨hv, hkept, hcap⟩ := run_kept (σ := σ) (ε := ε) rules limit ops
    (r := ⟨⟨s, #[]⟩, Buffer.ofCapacity n, false, false⟩) (a := none)
    (Buffer.valid_ofCapacity hn) rfl
  have hcap' : r.capacity = n := hcap.trans Array.size_replicate
  refine ⟨?_, fun k => ?_⟩
  · cases ha : anchor rules limit ops ⟨⟨s, #[]⟩, Buffer.ofCapacity n, false, false⟩ none with
    | none =>
      rw [ha] at hkept
      show Op.reset.run rules limit r = refused
      rw [Op.run_reset, reset_none hkept]
    | some a =>
      rw [ha] at hkept
      have hanchored : Anchored a r := hkept
      show if a.held.length + (a.since r).length ≤ n then _ else _
      by_cases hfits : a.Fits r
      · obtain ⟨b, hb, -, -, hheld, -⟩ := Anchored.reset (ε := ε) hanchored hv hfits
        rw [if_pos (hcap' ▸ hfits)]
        refine ⟨b, ?_, hheld, ?_⟩
        · rw [Op.run_reset, hb]
        · have hlen := congrArg List.length hheld
          rw [List.length_map, List.length_append, List.length_map, Buffer.length_toList] at hlen
          exact hlen
      · rw [if_neg (hcap' ▸ hfits), Op.run_reset, hanchored.reset_refused hv hfits]
  · rw [Op.run_mark, Op.run_mark, hcap', if_neg (Nat.not_lt_zero n)]

/-- one character held at the mark and two delivered since are as many as three slots keep -/
theorem mark_holds_abc :
    let source : Script String := ⟨[.char 'a', .char 'b', .failure "slow", .char 'c', .char 'd']⟩
    let ops := [Op.fill 1, .mark 9, .mark 0, .readInto 2, .skip 1, .skip 1]
    0 < 3 ∧ ∃ r₀, create (⟨source, #[]⟩ : Traced (Script String) String) 3 = .ok r₀ ∧
      let r := (run Rules.standard 9 ops r₀).2
      ∃ b, Op.reset.run Rules.standard 9 r = (.answer .done, { r with buffer := b }) ∧
        b.toList.map some = [some 'a', some 'b', some 'c'] := by
  intro source ops
  refine ⟨by decide, ?_⟩
  obtain ⟨r₀, hr, hreset, -⟩ := mark_holds source (by decide : 0 < 3) Rules.standard 9 ops
  refine ⟨r₀, hr, ?_⟩
  have hanchor : anchor Rules.standard 9 ops r₀ none = some ⟨['a'], 1⟩ := by
    cases hr
    decide +kernel
  have hsince : (run Rules.standard 9 ops r₀).2.source.delivered.drop 1 =
      [some 'b', some 'c'] := by
    cases hr
    decide +kernel
  rw [hanchor] at hreset
  simp only [hsince] at hreset
  obtain ⟨b, hb, hheld, -⟩ := hreset
  exact ⟨b, hb, hheld⟩

end Lookahead.Reader
