import Lookahead.Proofs.Cursor.Scans
import Lookahead.Proofs.Reader.Position

/-!
# Scans in lockstep

A scan of a reader goes round and round, one character or one comment after another; a cursor moves
in one step to where the scan stops.  As long as a loop may make more rounds than there are
characters ahead, the scan comes to an end, and to the same one.

* `Goes`                  what a scan does wherever a reader shows a cursor;
* `Turn`, `goes_iterate`  a loop every round of which reads on or is the last one;
* `goes_skipComment`, `goes_skipTrivia`, `goes_takeWhile`, `goes_rest`   the scans;
* `Shows.inStep_of_lt`    every operation keeps reader and cursor together;
* `Shows.follow_of_lt`    and so does every run.
-/

namespace Lookahead

open Scan (step)
open Cursor (comparedComment)

namespace Reader

variable {α β : Type} {c d e : Cursor}

/-- where a reader shows the cursor, the scan has this result, and the reader it leaves shows the
cursor that is left -/
def Goes (x : Scan Text Empty α) (c : Cursor) : EStateM.Result (ReadError Empty) Cursor α → Prop
  | .ok a d => ∀ r, Shows r c → ∃ r', x r = .ok a r' ∧ Shows r' d
  | .error e d => ∀ r, Shows r c → ∃ r', x r = .error (.error e) r' ∧ Shows r' d

/-! ## sequences and loops -/

section
variable {x : Scan Text Empty α} {f : α → Scan Text Empty β} {a : α}

theorem goes_pure (a : α) : Goes (pure a) c (.ok a c) := fun r h => ⟨r, rfl, h⟩

theorem Goes.bind {o : EStateM.Result (ReadError Empty) Cursor β} (hx : Goes x c (.ok a d))
    (hf : Goes (f a) d o) : Goes (x >>= f) c o := by
  have hbind : ∀ r, Shows r c → ∃ r', (x >>= f) r = f a r' ∧ Shows r' d := fun r h => by
    obtain ⟨r', hr, h'⟩ := hx r h
    exact ⟨r', by rw [bind_apply, hr], h'⟩
  cases o with
  | ok b g =>
    intro r h
    obtain ⟨r', hr, h'⟩ := hbind r h
    obtain ⟨q, hq, hend⟩ := hf r' h'
    exact ⟨q, hr.trans hq, hend⟩
  | error e g =>
    intro r h
    obtain ⟨r', hr, h'⟩ := hbind r h
    obtain ⟨q, hq, hend⟩ := hf r' h'
    exact ⟨q, hr.trans hq, hend⟩

theorem Goes.bind_error {err : ReadError Empty} (hx : Goes x c (.error err d)) :
    Goes (x >>= f) c (.error err d) := by
  intro r h
  obtain ⟨r', hr, h'⟩ := hx r h
  exact ⟨r', by rw [bind_apply, hr], h'⟩

theorem Goes.map {y : Cursor.Move α} (f : α → β) (hx : Goes x c (y c)) :
    Goes (f <$> x) c ((f <$> y) c) := by
  rw [map_apply]
  cases hy : y c with
  | ok a d =>
    rw [hy] at hx
    exact hx.bind (goes_pure (f a))
  | error err d =>
    rw [hy] at hx
    exact hx.bind_error

end

theorem goes_step {x : Step Text Empty α} {y : Cursor.Move α} (hxy : Agree Shows x y) :
    Goes (step x) c (y c) := by
  cases hy : y c with
  | ok a d =>
    intro r h
    obtain ⟨r', hr, h'⟩ := ((hxy r c h).symm (S := fun c r => Shows r c) fun _ _ k => k).of_ok hy
    exact ⟨r', by rw [Scan.step_apply, hr], h'⟩
  | error err d =>
    intro r h
    obtain ⟨_, _, _, _, hno, _⟩ | ⟨err', r', d', hr, hd, h'⟩ := (hxy r c h).cases
    · cases hy.symm.trans hno
    · cases hy.symm.trans hd
      exact ⟨r', by rw [Scan.step_apply, hr], h'⟩

theorem goes_step_eq {x : Step Text Empty α} {y : Cursor.Move α}
    {o : EStateM.Result (ReadError Empty) Cursor α} (hxy : Agree Shows x y) (hy : y c = o) :
    Goes (step x) c o := hy ▸ goes_step hxy

/-- what holds of a cursor in order may be used of one that a reader shows -/
theorem Goes.of_valid {x : Scan Text Empty α} {o : EStateM.Result (ReadError Empty) Cursor α}
    (hx : c.Valid → Goes x c o) : Goes x c o := by
  cases o with
  | ok a d => exact fun r h => hx h.valid r h
  | error err d => exact fun r h => hx h.valid r h

/-! ## loops -/

/-- one round of a loop that is to come to what `result` says: it reads on, or it is the last one -/
inductive Turn (body : α → Scan Text Empty (Scan.Round α β))
    (result : α → Cursor → EStateM.Result (ReadError Empty) Cursor β) (a : α) (c : Cursor) :
    Prop where
  | again {b : α} {d : Cursor} (round : Goes (body a) c (.ok (.again b) d))
      (less : d.ahead.length < c.ahead.length) (same : result a c = result b d)
  | done {b : β} {d : Cursor} (round : Goes (body a) c (.ok (.done b) d))
      (last : result a c = .ok b d)
  | fails {err : ReadError Empty} {d : Cursor} (round : Goes (body a) c (.error err d))
      (last : result a c = .error err d)

/-- a loop that may make more rounds than there are characters ahead comes to its end -/
theorem goes_iterate {body : α → Scan Text Empty (Scan.Round α β)}
    (result : α → Cursor → EStateM.Result (ReadError Empty) Cursor β) {limit : Nat}
    (hturn : ∀ a c, c.Valid → c.ahead.length < limit → Turn body result a c) {a : α} {c : Cursor}
    (hlimit : c.ahead.length < limit) : Goes (Scan.iterate body limit a) c (result a c) := by
  -- the rounds left are counted apart, since what a round does may depend on the limit
  suffices hrounds : ∀ rounds a c, c.ahead.length < limit → c.ahead.length < rounds →
      Goes (Scan.iterate body rounds a) c (result a c) from hrounds limit a c hlimit hlimit
  intro rounds
  induction rounds with
  | zero => exact fun _ _ _ hnone => absurd hnone (Nat.not_lt_zero _)
  | succ n ih =>
    intro a c hlimit hrounds
    refine Goes.of_valid fun hc => ?_
    rw [Scan.iterate]
    cases hturn a c hc hlimit with
    | again hround hless hsame =>
      rw [hsame]
      exact hround.bind (ih _ _ (by omega) (by omega))
    | done hround hlast =>
      rw [hlast]
      exact hround.bind (goes_pure _)
    | fails hround hlast =>
      rw [hlast]
      exact hround.bind_error

/-! ## single steps -/

theorem goes_read : Goes (step read) c (.ok c.ahead.head? (c.advanced 1)) := by
  intro r h
  obtain ⟨r', hr, h'⟩ := h.read
  exact ⟨r', by rw [Scan.step_apply, hr], h'⟩

theorem goes_peek (hc : c.Valid) : Goes (step peek) c (.ok c.ahead.head? (c.looked 1)) :=
  goes_step_eq agree_peek (Cursor.peek_apply hc)

theorem goes_atLineEnd (hc : c.Valid) (rules : Rules) :
    Goes (step (atLineEnd rules)) c (.ok (c.ahead.head?.all rules.isLineEnd) (c.looked 1)) :=
  goes_step_eq (agree_atLineEnd rules) (Cursor.atPeek_apply hc (·.all rules.isLineEnd))

theorem goes_acceptBlank (rules : Rules) :
    Goes (step (acceptBlank rules)) c
      (Cursor.accepting (do return (← Cursor.peek).any rules.isBlank) 1 c) :=
  goes_step (agree_accepting (agree_atBlank rules) fun _ hc =>
    ⟨_, Cursor.finds_peek hc (·.any rules.isBlank) rfl⟩)

theorem goes_acceptCommentStart (rules : Rules) :
    Goes (step (acceptCommentStart rules)) c
      (Cursor.accepting (Cursor.atComment rules) rules.commentStart.length c) :=
  goes_step (agree_accepting (agree_atComment rules) fun _ hc =>
    ⟨_, Cursor.finds_atComment hc rules⟩)

theorem goes_release {k : Nat} (hk : k ≤ c.buffered) :
    Goes (step (onBuffer (Buffer.advance k))) c (.ok () (c.advanced k)) := by
  intro r h
  have hcount : r.buffered = c.buffered := h.count
  exact ⟨_, by rw [Scan.step_apply, advance_of_le (by omega)], h.advanceTaken hk⟩

/-! ## runs of characters -/

theorem goes_while {body : α → Scan Text Empty (Scan.Round α β)} (p : Char → Bool)
    (next : α → Char → α) (finish : α → β)
    (hagain : ∀ a c ch cs, c.Valid → c.ahead = ch :: cs → p ch = true →
      Goes (body a) c (.ok (.again (next a ch)) (c.reached 1 0)))
    (hdone : ∀ a c, c.Valid → c.ahead.head?.any p = false →
      Goes (body a) c (.ok (.done (finish a)) (c.looked 1)))
    {limit : Nat} (a : α) (hlimit : c.ahead.length < limit) :
    let taken := c.ahead.takeWhile p
    Goes (Scan.iterate body limit a) c
      (.ok (finish (taken.foldl next a)) (c.reached taken.length 1)) := by
  refine goes_iterate (fun a c => .ok (finish ((c.ahead.takeWhile p).foldl next a))
    (c.reached (c.ahead.takeWhile p).length 1)) (fun a c hc _ => ?_) hlimit
  cases hahead : c.ahead with
  | nil =>
    refine .done (hdone a c hc (by rw [hahead]; rfl)) ?_
    simp only [hahead]
    rw [List.takeWhile_nil, List.foldl_nil, List.length_nil, Cursor.reached_zero_left]
  | cons ch cs =>
    have hnext : (c.reached 1 0).ahead = cs := by
      rw [Cursor.ahead_reached, hahead, List.drop_one, List.tail_cons]
    cases hch : p ch with
    | false =>
      refine .done (hdone a c hc (by rw [hahead]; exact hch)) ?_
      simp only [hahead]
      rw [List.takeWhile_cons_of_neg (by simp [hch]), List.foldl_nil, List.length_nil,
        Cursor.reached_zero_left]
    | true =>
      refine .again (hagain a c ch cs hc hahead hch) ?_ ?_
      · rw [hnext, hahead, List.length_cons]
        exact Nat.lt_succ_self _
      · simp only [hahead, hnext]
        rw [List.takeWhile_cons_of_pos hch, List.foldl_cons, List.length_cons,
          Cursor.reached_reached, Nat.add_comm, Nat.zero_sub, Nat.zero_max]

theorem length_takeWhile (p : Char → Bool) (cs : List Char) :
    (cs.takeWhile p).length = cs.length - (cs.dropWhile p).length := by
  have hlen := congrArg List.length (List.takeWhile_append_dropWhile (p := p) (l := cs))
  rw [List.length_append] at hlen
  omega

theorem goes_release_cons {ch : Char} {cs : List Char} (h : c.ahead = ch :: cs) :
    Goes (step (onBuffer (Buffer.advance 1))) (c.looked 1) (.ok () (c.reached 1 0)) := by
  have hbuffered := (c.buffered_looked 1).2
  rw [h, List.length_cons] at hbuffered
  have hgoes := goes_release (c := c.looked 1) (k := 1) (by omega)
  rwa [Cursor.looked_advanced] at hgoes

theorem goes_takeWhile (p : Char → Bool) {limit : Nat} (hlimit : c.ahead.length < limit) :
    let taken := c.ahead.takeWhile p
    Goes (takeWhile p limit) c (.ok taken (c.reached taken.length 1)) := by
  intro taken
  have hgoes : Goes (takeWhile p limit) c
      (.ok (taken.foldl (fun cs ch => ch :: cs) []).reverse (c.reached taken.length 1)) := by
    refine goes_while p _ _ (fun a c ch cs hc hahead hch => ?_) (fun a c hc hhead => ?_) [] hlimit
    · refine (goes_peek hc).bind ?_
      have hread : Goes (step read) (c.looked 1) (.ok (some ch) (c.reached 1 0)) := by
        have hgoes := goes_read (c := c.looked 1)
        rwa [Cursor.looked_advanced, Cursor.ahead_looked, hahead] at hgoes
      simp only [hahead, List.head?_cons, if_pos hch]
      exact hread.bind (goes_pure _)
    · refine (goes_peek hc).bind ?_
      cases hahead : c.ahead.head? with
      | none => exact goes_pure _
      | some ch =>
        rw [hahead] at hhead
        have hch : ¬ p ch = true := Bool.eq_false_iff.1 hhead
        simp only [if_neg hch]
        exact goes_pure _
  have hfold : taken.foldl (fun cs ch => ch :: cs) [] = taken.reverse := by simp
  rwa [hfold, List.reverse_reverse] at hgoes

theorem goes_rest {limit : Nat} (hlimit : c.ahead.length < limit) :
    Goes (rest limit) c (.ok c.ahead (c.advanced c.ahead.length)) := by
  show Goes (Scan.iterate restRound limit []) c _
  refine goes_iterate (fun (taken : List Char) c =>
    .ok (taken.reverse ++ c.ahead) (c.advanced c.ahead.length)) (fun taken c hc _ => ?_) hlimit
  have hread := goes_read (c := c)
  cases hahead : c.ahead with
  | nil =>
    rw [hahead] at hread
    refine .done (hread.bind (goes_pure _)) ?_
    simp only [hahead]
    rw [List.append_nil, Cursor.advanced_of_nil hc hahead, Cursor.advanced_of_nil hc hahead]
  | cons ch cs =>
    rw [hahead] at hread
    have hnext : (c.advanced 1).ahead = cs := by
      rw [Cursor.ahead_advanced, hahead, List.drop_one, List.tail_cons]
    refine .again (hread.bind (goes_pure _)) ?_ ?_
    · rw [hnext, hahead, List.length_cons]
      exact Nat.lt_succ_self _
    · simp only [hahead, hnext]
      rw [List.reverse_cons, List.append_assoc, Cursor.advanced_advanced, List.length_cons,
        Nat.add_comm]
      rfl

/-! ## blanks and comments -/

section
variable (rules : Rules) {limit : Nat}

theorem goes_skipLine (hlimit : c.ahead.length < limit) :
    Goes (skipLine rules limit) c
      (.ok () (c.reached (c.ahead.length - (rules.dropLine c.ahead).length) 1)) := by
  rw [Rules.dropLine, ← length_takeWhile]
  refine goes_while (fun ch => !rules.isLineEnd ch) (fun _ _ => ()) id
    (fun _ c ch cs hc hahead hch => ?_) (fun _ c hc hhead => ?_) () hlimit
  · have hline : c.ahead.head?.all rules.isLineEnd = false := by
      rw [hahead]
      simpa using hch
    refine (goes_atLineEnd hc rules).bind ?_
    rw [hline]
    exact (goes_release_cons hahead).bind (goes_pure _)
  · have hline : c.ahead.head?.all rules.isLineEnd = true := by
      cases hahead : c.ahead.head? with
      | none => rfl
      | some ch =>
        rw [hahead] at hhead
        simpa using hhead
    refine (goes_atLineEnd hc rules).bind ?_
    rw [hline]
    exact goes_pure _

theorem goes_skipBlanks (hlimit : c.ahead.length < limit) :
    Goes (skipBlanks rules limit) c
      (.ok (!(c.ahead.takeWhile rules.isBlank).isEmpty)
        (c.reached (c.ahead.length - (rules.dropBlanks c.ahead).length) 1)) := by
  have hfold : ∀ (cs : List Char) (found : Bool),
      cs.foldl (fun _ _ => true) found = (found || !cs.isEmpty) := fun cs found => by
    induction cs generalizing found with
    | nil => simp
    | cons ch cs ih => simp [ih]
  have hgoes : Goes (skipBlanks rules limit) c
      (.ok (id ((c.ahead.takeWhile rules.isBlank).foldl (fun _ _ => true) false))
        (c.reached (c.ahead.takeWhile rules.isBlank).length 1)) := by
    refine goes_while rules.isBlank _ _ (fun found c ch cs hc hahead hch => ?_)
      (fun found c hc hhead => ?_) false hlimit
    · have hblank := goes_acceptBlank (c := c) rules
      have hfound : (ch :: cs).head?.any rules.isBlank = true := hch
      rw [Cursor.accepting_apply, Cursor.atPeek_apply hc (·.any rules.isBlank), hahead,
        hfound] at hblank
      change Goes _ c (.ok true ((c.looked 1).advanced 1)) at hblank
      rw [Cursor.looked_advanced] at hblank
      exact hblank.bind (goes_pure _)
    · have hblank := goes_acceptBlank (c := c) rules
      rw [Cursor.accepting_apply, Cursor.atPeek_apply hc (·.any rules.isBlank), hhead] at hblank
      exact hblank.bind (goes_pure _)
  rw [hfold, Bool.false_or, length_takeWhile] at hgoes
  exact hgoes

theorem goes_skipComment (hlimit : c.ahead.length < limit) :
    Goes (skipComment rules limit) c (Cursor.skipComment rules c) := by
  refine Goes.of_valid fun hc => ?_
  have hstart := goes_acceptCommentStart (c := c) rules
  rw [Cursor.skipComment_eq]
  cases ho : Cursor.accepting (Cursor.atComment rules) rules.commentStart.length c with
  | error err d =>
    rw [ho] at hstart
    exact hstart.bind_error
  | ok found d =>
    rw [ho] at hstart
    have hlen : d.ahead.length ≤ c.ahead.length := Cursor.length_ahead_accepting
      (Cursor.atComment_apply hc rules) ho
    cases found with
    | false => exact hstart.bind (goes_pure false)
    | true => exact hstart.bind ((goes_skipLine rules (by omega)).bind (goes_pure true))

theorem goes_skipTrivia (hlimit : c.ahead.length < limit) :
    Goes (skipTrivia rules limit) c (Cursor.skipTrivia rules c) := by
  refine goes_iterate (fun _ => Cursor.skipTrivia rules) (fun _ c hc hlimit => ?_) hlimit
  have hblanks := goes_skipBlanks (c := c) rules hlimit
  have hahead := c.ahead_pastBlanks rules
  have hle := (rules.dropBlanks_suffix c.ahead).length_le
  have hcomment : Goes (skipComment rules limit) (c.pastBlanks rules) _ :=
    goes_skipComment rules (by rw [hahead]; omega)
  by_cases ho : seesComment rules c.capacity (rules.dropBlanks c.ahead) = .ok true
  · rw [Cursor.skipComment_pastBlanks hc ho] at hcomment
    refine .again (b := ()) (hblanks.bind (hcomment.bind ?_)) (Cursor.length_pastComment_lt ho)
      (Cursor.skipTrivia_of_comment hc ho)
    rw [Bool.or_true]
    exact goes_pure _
  · have hscan := Cursor.skipTrivia_of_no_comment hc ho
    rw [map_apply] at hscan
    cases hskip : Cursor.skipComment rules (c.pastBlanks rules) with
    | error err d =>
      rw [hskip] at hscan hcomment
      exact .fails (hblanks.bind hcomment.bind_error) hscan
    | ok found d =>
      obtain ⟨rfl, hd, hsame⟩ := Cursor.skipTrivia_again hc ho hskip
      rw [hskip] at hscan hcomment
      cases hnone : (c.ahead.takeWhile rules.isBlank).isEmpty with
      | true =>
        rw [hnone] at hblanks
        exact .done (hblanks.bind (hcomment.bind (goes_pure _))) hscan
      | false =>
        rw [hnone] at hblanks
        refine .again (hblanks.bind (hcomment.bind (goes_pure _))) ?_ hsame
        have hpos := List.length_pos_iff.2 (List.isEmpty_eq_false_iff.1 hnone)
        rw [length_takeWhile] at hpos
        rw [hd]
        exact Nat.lt_of_sub_pos hpos

end

/-! ## operations and runs -/

variable {r : Reader Text}

theorem Goes.inStep {rules : Rules} {limit : Nat} (op : Op)
    (hgoes : Goes (op.perform rules limit) c (Cursor.perform rules op c)) (h : Shows r c) :
    Beside Shows (op.run rules limit r) (Cursor.run rules op c) := by
  unfold Op.run Cursor.run
  cases hc : Cursor.perform rules op c with
  | ok a d =>
    rw [hc] at hgoes
    obtain ⟨r', hr, h'⟩ := hgoes r h
    rw [hr]
    exact ⟨rfl, h'⟩
  | error err d =>
    rw [hc] at hgoes
    obtain ⟨r', hr, h'⟩ := hgoes r h
    rw [hr]
    exact ⟨rfl, h'⟩

/-- every operation keeps reader and cursor together, if its loops may make more rounds than there
are characters ahead -/
theorem Shows.inStep_of_lt (h : Shows r c) (rules : Rules) {limit : Nat}
    (hlimit : c.ahead.length < limit) (op : Op) :
    Beside Shows (op.run rules limit r) (Cursor.run rules op c) := by
  cases op with
  | skipComment => exact Goes.inStep .skipComment ((goes_skipComment rules hlimit).map _) h
  | skipTrivia => exact Goes.inStep .skipTrivia ((goes_skipTrivia rules hlimit).map _) h
  | rest =>
    have hrest : Cursor.perform rules .rest c =
        (.text <$> Cursor.advance c.ahead.length : Cursor.Move (Answer Empty)) c := rfl
    refine Goes.inStep .rest ?_ h
    rw [hrest]
    refine Goes.map Answer.text ?_
    rw [c.advance_apply, List.take_length]
    exact goes_rest hlimit
  | _ => exact h.inStep rules limit rfl

theorem Shows.length_ahead_lt (h : Shows r c) {limit : Nat} (hlimit : c.input.length < limit) :
    c.ahead.length < limit := by
  have hle := h.valid.position_add_le
  omega

theorem Shows.follow_of_lt (h : Shows r c) (rules : Rules) {limit : Nat}
    (hlimit : c.input.length < limit) (ops : List Op) :
    (run rules limit ops r).1 = (Reader.follow rules ops c).1 ∧
      Shows (run rules limit ops r).2 (Reader.follow rules ops c).2 ∧
      (Reader.follow rules ops c).2.input = c.input ∧ (Reader.follow rules ops c).2.capacity = c.capacity := by
  induction ops generalizing r c with
  | nil => exact ⟨rfl, h, rfl, rfl⟩
  | cons op ops ih =>
    obtain ⟨hout, hshows⟩ := h.inStep_of_lt rules (h.length_ahead_lt hlimit) op
    obtain ⟨hinput, hcapacity⟩ := Cursor.keeps_run h.valid rules op
    obtain ⟨houts, hend, hinputs, hcapacities⟩ := ih hshows (by rw [hinput]; exact hlimit)
    rw [run_cons, follow_cons, hout, houts]
    exact ⟨rfl, hend, hinputs.trans hinput, hcapacities.trans hcapacity⟩

end Reader

end Lookahead
