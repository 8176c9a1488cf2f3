import Lookahead.Proofs.Reader.Several

/-!
# A reader is a text and a position

Ring, source, end, mark and the four ways that characters take cannot be told from outside: over a
text, whatever is asked of a reader, it answers as the cursor does that holds the whole text and a
position in it.

* `Shows.inStep`     one operation keeps reader and cursor together;
* `follow`           a run on a cursor;
* `position_model`   a run keeps them together, and what lies ahead decides the answers.
-/

namespace Lookahead.Reader

variable {r : Reader Text} {c : Cursor}

/-! ## going back and closing -/

theorem agree_mark (limit : Nat) :
    Agree Shows (mark limit : Step Text Empty Unit) (Cursor.setMark limit) := by
  intro r c h
  have hcap : r.capacity = c.capacity := h.stands.capacity
  have hroom : c.buffered ≤ c.capacity := by
    rw [← h.count, ← h.stands.capacity]
    exact h.stands.valid.count_le
  rw [mark_eq, hcap, c.setMark_apply]
  by_cases hlimit : c.capacity < limit
  · rw [if_pos hlimit, if_pos hlimit]
    exact Same.error _ h
  · rw [if_neg hlimit, if_neg hlimit]
    refine Same.ok () ⟨?_, ?_, h.closed, h.rest, h.ended⟩
    · rw [Cursor.window_marked hroom, ← h.stands.toList]
      have hmarked := marked_stands (σ := Text) h.stands.valid
      rw [hcap] at hmarked
      exact hmarked
    · exact {
        h.valid with
        mark_le := fun m hm => by
          cases hm
          exact Nat.le_refl _
        shut := fun hc => ⟨(h.valid.shut hc).1, fun m hm => by
          cases hm
          rfl⟩ }

theorem agree_reset : Agree Shows (reset : Step Text Empty Unit) Cursor.reset := by
  intro r c h
  have hpast : r.buffer.window.past = c.past := h.stands.past
  obtain hm | ⟨m, hm⟩ := Option.eq_none_or_eq_some c.mark
  · rw [Cursor.past_of_unmarked hm] at hpast
    rw [reset_none hpast, Cursor.reset_unmarked hm]
    exact Same.error _ h
  · rw [Cursor.past_of_mark hm] at hpast
    by_cases hlost : c.capacity < c.pulled - m
    · rw [if_pos hlost] at hpast
      rw [reset_none hpast, Cursor.reset_lost hm hlost]
      exact Same.error _ h
    · rw [if_neg hlost] at hpast
      obtain ⟨b, hb, hst⟩ := reset_some (ε := Empty) h.stands.valid hpast
      have hcap : r.capacity = c.capacity := h.stands.capacity
      have hle := h.valid.mark_le m hm
      rw [hb, Cursor.reset_marked hm hlost]
      refine Same.ok () ⟨?_, ?_, h.closed, h.rest, h.ended⟩
      · rw [h.valid.window_reset hm hlost, ← h.stands.toList, ← hcap]
        exact hst
      · exact {
          h.valid with
          position_le := Nat.le_trans hle h.valid.position_le
          mark_le := fun k hk => by
            cases hm.symm.trans hk
            exact Nat.le_refl _
          shut := fun hc => by
            obtain ⟨hp, hmark⟩ := h.valid.shut hc
            refine ⟨(hmark m hm).trans hp, fun k hk => ?_⟩
            cases hm.symm.trans hk
            rfl }

theorem agree_close : Agree Shows (close : Step Text Empty Unit) Cursor.close := by
  intro r c h
  have hclose : (close : Step Text Empty Unit) r =
      .ok () { r with buffer := r.buffer.clear, ended := true, closed := true } := by
    rw [close_eq]
    by_cases hc : r.closed = true
    · rw [if_pos hc]
    · rw [if_neg hc]
      rfl
  rw [hclose]
  refine Same.ok () ⟨?_, ?_, rfl, fun hc => (by cases hc), fun _ hc => (by cases hc)⟩
  · have hwindow : ({ c with position := c.pulled, mark := none, closed := true } :
        Cursor).window = Window.empty := by
      show Window.mk none (c.piece c.pulled c.pulled) = _
      rw [c.piece_self]
      rfl
    rw [hwindow]
    exact h.stands.clear
  · exact {
      h.valid with
      position_le := Nat.le_refl _
      mark_le := fun m hm => by cases hm
      shut := fun _ => ⟨rfl, fun m hm => by cases hm⟩ }

theorem agree_ready :
    Agree Shows (ready : Step Text Empty Bool) (do return !(← get).ahead.isEmpty) := by
  intro r c h
  have hready : (ready : Step Text Empty Bool) r = .ok (!c.ahead.isEmpty) r := by
    rw [ready_eq]
    by_cases he : r.buffer.isEmpty = true
    · rw [if_pos he]
      by_cases hd : r.isDry = true
      · rw [if_pos hd, h.ahead_of_dry hd he]
        rfl
      · rw [if_neg hd]
        show EStateM.Result.ok (!r.source.rest.isEmpty) r = _
        rw [h.rest_eq hd he]
    · have hne : c.ahead.isEmpty = false := by
        have hzero := mt h.isEmpty_iff.2 he
        have hle := h.valid.buffered_le_ahead
        cases hahead : c.ahead with
        | nil =>
          rw [hahead, List.length_nil] at hle
          omega
        | cons ch cs => rfl
      rw [if_neg he, hne]
      rfl
  rw [hready]
  exact Same.ok _ h

/-! ## one operation -/

section
variable {rules : Rules} {limit : Nat} {op : Op} {α : Type}

theorem inStep_ok {a : Answer Empty} {r' : Reader Text} {d : Cursor}
    (hx : op.run rules limit r = (.answer a, r')) (hy : Cursor.perform rules op c = .ok a d)
    (h : Shows r' d) : Beside Shows (op.run rules limit r) (Cursor.run rules op c) := by
  unfold Cursor.run
  rw [hx, hy]
  exact ⟨rfl, h⟩

theorem inStep_agree {x : Step Text Empty α} {y : Cursor.Move α} (f : α → Answer Empty)
    (hx : op.perform rules limit = f <$> Scan.step x) (hy : Cursor.perform rules op = f <$> y)
    (hxy : Agree Shows x y) (h : Shows r c) :
    Beside Shows (op.run rules limit r) (Cursor.run rules op c) := by
  unfold Cursor.run
  rw [Op.run_step r f hx, hy, map_apply]
  obtain ⟨a, r', d, hr, hd, hs⟩ | ⟨e, r', d, hr, hd, hs⟩ := (hxy r c h).cases
  · rw [hr, hd]
    exact ⟨rfl, hs⟩
  · rw [hr, hd]
    exact ⟨rfl, hs⟩

theorem map_return {β : Type} (f : β → Answer Empty) (g : α → β) (y : Cursor.Move α) :
    (f <$> do return g (← y) : Cursor.Move _) = do return f (g (← y)) := by
  funext c
  rw [map_apply, bind_apply, bind_apply]
  cases y c <;> rfl

end

theorem Shows.inStep (h : Shows r c) (rules : Rules) (limit : Nat) {op : Op}
    (hop : op.scans = false) : Beside Shows (op.run rules limit r) (Cursor.run rules op c) := by
  cases op with
  | fill n => exact inStep_agree (fun _ => .done) rfl rfl (agree_fill n) h
  | peek => exact inStep_agree .char rfl rfl agree_peek h
  | peekNth n => exact inStep_agree .char rfl rfl (agree_peekNth n) h
  | read =>
    obtain ⟨r', hr', hshows⟩ := h.read
    have hrun : Op.read.run rules limit r = (.answer (.char c.ahead.head?), r') := by
      rw [Op.run_step (x := Reader.read) r .char rfl, hr']
    refine inStep_ok (d := c.advanced 1) hrun ?_ hshows
    show (do return .char (← Cursor.advance 1).head? : Cursor.Move (Answer Empty)) c = _
    rw [bind_apply, c.advance_apply]
    show EStateM.Result.ok _ _ = _
    rw [List.head?_take, if_neg (Nat.succ_ne_zero 0)]
  | atChar ch =>
    exact inStep_agree .flag rfl (map_return .flag (· == some ch) Cursor.peek).symm
      (agree_atNth 0 ch) h
  | atNth n ch =>
    exact inStep_agree .flag rfl (map_return .flag (· == some ch) (Cursor.peekNth n)).symm
      (agree_atNth n ch) h
  | atText s => exact inStep_agree .flag rfl rfl (agree_atText s) h
  | atWord w => exact inStep_agree .flag rfl rfl (agree_atWord rules w) h
  | atComment => exact inStep_agree .flag rfl rfl (agree_atComment rules) h
  | atEnd =>
    exact inStep_agree .flag rfl (map_return .flag Option.isNone Cursor.peek).symm agree_atEnd h
  | atLineEnd =>
    exact inStep_agree .flag rfl (map_return .flag (Option.all rules.isLineEnd) Cursor.peek).symm
      (agree_atLineEnd rules) h
  | atBlank =>
    exact inStep_agree .flag rfl (map_return .flag (Option.any rules.isBlank) Cursor.peek).symm
      (agree_atBlank rules) h
  | acceptChar ch =>
    exact inStep_agree .flag rfl rfl (agree_accepting (agree_atNth 0 ch) fun _ hc =>
      ⟨_, Cursor.finds_peek hc (· == some ch) rfl⟩) h
  | acceptText s =>
    exact inStep_agree .flag rfl rfl (agree_accepting (agree_atText s) fun _ hc =>
      ⟨_, Cursor.finds_atText hc s⟩) h
  | acceptWord w =>
    exact inStep_agree .flag rfl rfl (agree_accepting (agree_atWord rules w) fun _ hc =>
      ⟨_, Cursor.finds_atWord hc rules w⟩) h
  | acceptBlank =>
    exact inStep_agree .flag rfl rfl (agree_accepting (agree_atBlank rules) fun _ hc =>
      ⟨_, Cursor.finds_peek hc (·.any rules.isBlank) rfl⟩) h
  | readInto room =>
    by_cases hroom : room = 0
    · subst hroom
      exact inStep_ok (d := c) rfl rfl h
    · obtain ⟨r', hr', hshows⟩ := h.readInto hroom
      have hrun : (Op.readInto room).run rules limit r =
          (.answer (.bulk (.ofList (c.ahead.take room))), r') := by
        show (Outcome.answer (.bulk (Reader.readInto room r).1), (Reader.readInto room r).2) = _
        rw [hr']
      refine inStep_ok (d := c.advanced room) hrun ?_ hshows
      show (.bulk <$> Cursor.readInto room : Cursor.Move (Answer Empty)) c = _
      rw [map_apply, Cursor.readInto, if_neg hroom, bind_apply, c.advance_apply]
      rfl
  | skip n =>
    obtain ⟨r', hr', hshows⟩ := h.skip n
    have hrun : (Op.skip n).run rules limit r =
        (.answer (.count (min n c.ahead.length)), r') := by
      rw [Op.run_step (x := Reader.skip n) r .count rfl, hr']
    refine inStep_ok (d := c.advanced n) hrun ?_ hshows
    show (do return .count (← Cursor.advance n).length : Cursor.Move (Answer Empty)) c = _
    rw [bind_apply, c.advance_apply]
    show EStateM.Result.ok _ _ = _
    rw [List.length_take]
  | mark limit => exact inStep_agree (fun _ => .done) rfl rfl (agree_mark limit) h
  | reset => exact inStep_agree (fun _ => .done) rfl rfl agree_reset h
  | ready => exact inStep_agree .flag rfl rfl agree_ready h
  | chars n =>
    obtain ⟨r', hr', hshows⟩ := h.chars n
    have hrun : (Op.chars n).run rules limit r =
        (.answer (.items ((c.ahead.take n).map .ok)), r') := by
      show (Outcome.answer (.items (Reader.chars n r).1), (Reader.chars n r).2) = _
      rw [hr']
    refine inStep_ok (d := c.advanced n) hrun ?_ hshows
    show (do return .items ((← Cursor.advance n).map .ok) : Cursor.Move (Answer Empty)) c = _
    rw [bind_apply, c.advance_apply]
    rfl
  | close => exact inStep_agree (fun _ => .done) rfl rfl agree_close h
  | skipComment => cases hop
  | skipTrivia => cases hop
  | rest => cases hop

/-! ## runs -/

/-- how the operations go on a cursor, in order, and the cursor after them -/
def follow (rules : Rules) : List Op → Cursor → List (Outcome Empty) × Cursor
  | [], c => ([], c)
  | op :: ops, c =>
    let (o, c) := Cursor.run rules op c
    let (os, c) := follow rules ops c
    (o :: os, c)

theorem follow_cons (rules : Rules) (op : Op) (ops : List Op) (c : Cursor) :
    follow rules (op :: ops) c =
      ((Cursor.run rules op c).1 :: (follow rules ops (Cursor.run rules op c).2).1,
        (follow rules ops (Cursor.run rules op c).2).2) := rfl

theorem Shows.follow (h : Shows r c) (rules : Rules) (limit : Nat) {ops : List Op}
    (hops : ∀ op ∈ ops, op.scans = false) :
    (run rules limit ops r).1 = (follow rules ops c).1 ∧
      Shows (run rules limit ops r).2 (follow rules ops c).2 ∧
      (follow rules ops c).2.input = c.input ∧ (follow rules ops c).2.capacity = c.capacity := by
  induction ops generalizing r c with
  | nil => exact ⟨rfl, h, rfl, rfl⟩
  | cons op ops ih =>
    have hop := hops op List.mem_cons_self
    obtain ⟨hout, hshows⟩ := h.inStep rules limit hop
    obtain ⟨hinput, hcapacity⟩ := Cursor.run_keeps h.valid rules hop
    obtain ⟨houts, hend, hinputs, hcapacities⟩ :=
      ih hshows fun o ho => hops o (List.mem_cons_of_mem op ho)
    rw [run_cons, follow_cons, hout, houts]
    exact ⟨rfl, hend, hinputs.trans hinput, hcapacities.trans hcapacity⟩

theorem shows_create (text : List Char) {n : Nat} (hn : 0 < n) (hmax : n < maxCount) :
    Shows ⟨⟨text⟩, Buffer.ofCapacity n, false, false⟩ { input := text, capacity := n } where
  stands := Buffer.Stands.ofCapacity hn
  valid := {
    pos := hn
    small := hmax
    position_le := Nat.le_refl _
    pulled_le := Nat.zero_le _
    mark_le := fun m hm => by cases hm
    shut := fun hc => by cases hc }
  closed := rfl
  rest := fun _ => rfl
  ended := fun he => by cases he

/-- **A reader of a text is a text and a position.**  Whatever is asked of a new reader but to scan,
it answers as the cursor does that holds the whole text and a position in it.  What comes next,
unless it is to go back, is decided by the capacity and by the characters ahead of that position
alone, and so is how many of them are read.  The capacity is one that a count can exceed, as that of
every buffer is that can be stored. -/
theorem position_model (text : List Char) {n : Nat} (hn : 0 < n) (hmax : n < maxCount)
    (rules : Rules) (limit : Nat) (ops : List Op) (hops : ∀ op ∈ ops, op.scans = false) :
    ∃ r₀, create (⟨text⟩ : Text) n = .ok r₀ ∧
      let start : Cursor := { input := text, capacity := n }
      let r := (run rules limit ops r₀).2
      let c := (follow rules ops start).2
      (run rules limit ops r₀).1 = (follow rules ops start).1 ∧ c.input = text ∧
      ∀ op : Op, op.scans = false →
        (op.run rules limit r).1 = (Cursor.run rules op c).1 ∧
        (op ≠ .reset → ∃ a, op.answer rules n c.ahead = some a ∧
          (op.run rules limit r).1 = a.1 ∧
          (Cursor.run rules op c).2.ahead = c.ahead.drop a.2) := by
  refine ⟨_, create_eq _ hn, ?_⟩
  intro start r c
  obtain ⟨houts, h, hinput, hcapacity⟩ := (shows_create text hn hmax).follow rules limit hops
  refine ⟨houts, hinput, fun op hop => ?_⟩
  obtain ⟨hout, -⟩ := h.inStep rules limit hop
  refine ⟨hout, fun hreset => ?_⟩
  obtain ⟨a, ha⟩ := Op.exists_answer hop hreset rules n c.ahead
  have hcap : n = c.capacity := hcapacity.symm
  have hdoes := Cursor.run_answers h.valid (hcap ▸ ha)
  exact ⟨a, ha, hout.trans hdoes.outcome, hdoes.ahead⟩

/-- three characters are read by three ways, and one of them is read again -/
theorem position_model_abc :
    let ops := [Op.mark 2, .acceptText ['a'], .skip 1, .reset, .read, .peekNth 2, .readInto 9]
    0 < 2 ∧ 2 < maxCount ∧ (∀ op ∈ ops, op.scans = false) ∧
      ∃ r₀, create (⟨['a', 'b', 'c']⟩ : Text) 2 = .ok r₀ ∧
        (run Rules.standard 9 ops r₀).1 =
          [.answer .done, .answer (.flag true), .answer (.count 1), .answer .done,
            .answer (.char (some 'a')), .failed (.lookahead 3 2),
            .answer (.bulk (.read ['b', 'c']))] := by
  intro ops
  have hops : ∀ op ∈ ops, op.scans = false := by decide
  refine ⟨by decide, by decide, hops, ?_⟩
  obtain ⟨r₀, hr, houts, -⟩ := position_model ['a', 'b', 'c'] (by decide : 0 < 2)
    (by decide : 2 < maxCount) Rules.standard 9 ops hops
  exact ⟨r₀, hr, houts.trans rfl⟩

end Lookahead.Reader
