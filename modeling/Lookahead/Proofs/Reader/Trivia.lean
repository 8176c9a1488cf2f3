import Lookahead.Proofs.Reader.Scans

/-!
# Skipping trivia

A scan for trivia over a text reads the blanks and comments that come next, all of them and nothing
else, whatever the rules are: blanks may be line ends or not, and what begins a comment may have
blanks and line ends in it.  Only where a comment begins with more characters than can be looked at
is it not found, and then the scan stops at its beginning.

* `Reader.remaining`     the characters to come of a reader of a text;
* `dropTrivia_dropTrivia`, `leave_leave`   what is left after trivia begins with none;
* `Shows.skipTrivia`     what a scan for trivia leaves and how it ends;
* `trivia_skipped`       the trivia are skipped.
-/

namespace Lookahead

/-! ## what is left after trivia -/

namespace Rules

variable (rules : Rules) (cs : List Char) {capacity : Nat}

theorem head?_dropBlanks : (rules.dropBlanks cs).head?.any rules.isBlank = false := by
  have hhead := List.head?_dropWhile_not rules.isBlank cs
  unfold dropBlanks
  cases hc : (cs.dropWhile rules.isBlank).head? with
  | none => rfl
  | some c =>
    rw [hc] at hhead
    exact hhead

theorem dropBlanks_dropTrivia :
    rules.dropBlanks (rules.dropTrivia cs) = rules.dropTrivia cs := by
  fun_induction rules.dropTrivia cs with
  | case1 cs _ => exact rules.dropBlanks_dropBlanks cs
  | case2 _ _ _ ih => exact ih

theorem dropComment?_dropTrivia : rules.dropComment? (rules.dropTrivia cs) = none := by
  fun_induction rules.dropTrivia cs with
  | case1 _ h => exact h
  | case2 _ _ _ ih => exact ih

theorem dropTrivia_dropTrivia :
    rules.dropTrivia (rules.dropTrivia cs) = rules.dropTrivia cs := by
  have hblanks := rules.dropBlanks_dropTrivia cs
  rw [dropTrivia_of_none, hblanks]
  rw [hblanks]
  exact rules.dropComment?_dropTrivia cs

theorem leave_leave (capacity : Nat) :
    rules.leave capacity (rules.leave capacity cs) = rules.leave capacity cs := by
  unfold leave
  by_cases hle : rules.commentStart.length ≤ capacity
  · rw [if_pos hle, if_pos hle]
    exact rules.dropTrivia_dropTrivia cs
  · rw [if_neg hle, if_neg hle]
    exact rules.dropBlanks_dropBlanks cs

theorem head?_dropTrivia : (rules.dropTrivia cs).head?.any rules.isBlank = false := by
  rw [← rules.dropBlanks_dropTrivia cs]
  exact rules.head?_dropBlanks _

variable {rules cs}

theorem seesComment_of_le (hle : rules.commentStart.length ≤ capacity) :
    seesComment rules capacity cs = .ok (rules.beginsComment cs) := by
  unfold seesComment beginsComment
  by_cases hs : rules.commentStart = []
  · rw [if_pos hs, hs]
    rfl
  · rw [if_neg hs, Cursor.sees_of_le hs hle, List.isEmpty_eq_false_iff.2 hs]
    rfl

theorem seesComment_of_lt (hlt : capacity < rules.commentStart.length) :
    seesComment rules capacity cs =
      if rules.commentStart.take capacity <+: cs then .error (.lookahead (capacity + 1) capacity)
      else .ok false := by
  have hs : rules.commentStart ≠ [] := List.ne_nil_of_length_pos (Nat.zero_lt_of_lt hlt)
  rw [seesComment, if_neg hs, sees, if_neg hs]
  by_cases hfront : rules.commentStart.take capacity <+: cs
  · rw [if_pos ⟨hlt, hfront⟩, if_pos hfront]
  · have hnot : ¬ rules.commentStart.isPrefixOf cs = true := fun hall =>
      hfront ((List.take_prefix _ _).trans (List.isPrefixOf_iff_prefix.1 hall))
    rw [if_neg (fun h => hfront h.2), if_neg hfront, Bool.eq_false_iff.2 hnot]

theorem beginsComment_dropTrivia : rules.beginsComment (rules.dropTrivia cs) = false := by
  have hnone := rules.dropComment?_dropTrivia cs
  unfold dropComment? at hnone
  by_cases hbegins : rules.beginsComment (rules.dropTrivia cs) = true
  · rw [if_pos hbegins] at hnone
    cases hnone
  · exact Bool.eq_false_iff.2 hbegins

end Rules

/-! ## scans for trivia -/

theorem Cursor.run_skipTrivia {c : Cursor} (hc : c.Valid) (rules : Rules) :
    let left := rules.leave c.capacity c.ahead
    run rules .skipTrivia c =
      (match seesComment rules c.capacity left with
        | .ok _ => .answer .done
        | .error e => .failed e,
        c.reached (c.ahead.length - left.length)
          (max 1 (comparedComment rules c.capacity left))) := by
  intro left
  have hleft : left = rules.leave c.capacity c.ahead := rfl
  rw [run, perform, map_apply, skipTrivia_apply hc rules hleft]
  cases seesComment rules c.capacity left <;> rfl

namespace Reader

def remaining (r : Reader Text) : List Char :=
  r.buffer.toList ++ if r.closed then [] else r.source.rest

namespace Shows

variable {r : Reader Text} {c : Cursor}

theorem remaining_eq (h : Shows r c) : r.remaining = c.ahead := by
  unfold remaining
  cases hc : c.closed with
  | true =>
    rw [h.closed, hc, if_pos rfl, h.held, Cursor.ahead_of_closed hc, List.take_nil, List.append_nil]
  | false =>
    have hheld : c.position + c.buffered = c.pulled := by
      have hle := h.valid.position_le
      unfold Cursor.buffered
      omega
    have hahead : c.ahead = c.input.drop c.position := by
      rw [Cursor.ahead, if_neg (by simp [hc])]
    have hrest : r.source.rest = c.ahead.drop c.buffered := by
      rw [h.rest hc, hahead, List.drop_drop, hheld]
    rw [h.closed, hc, if_neg Bool.false_ne_true, h.held, hrest, List.take_append_drop]

/-- a scan for trivia leaves what there is to leave, and fails only where what begins a comment is
refused -/
theorem skipTrivia (h : Shows r c) (rules : Rules) {limit : Nat} (hlimit : c.ahead.length < limit) :
    ∃ d, Shows (Op.skipTrivia.run rules limit r).2 d ∧
      d.ahead = rules.leave c.capacity c.ahead ∧ d.capacity = c.capacity ∧
      (Op.skipTrivia.run rules limit r).1 =
        match seesComment rules c.capacity d.ahead with
        | .ok _ => .answer .done
        | .error e => .failed e := by
  obtain ⟨hout, hshows⟩ := h.inStep_of_lt rules hlimit .skipTrivia
  have hahead : (Cursor.run rules .skipTrivia c).2.ahead = rules.leave c.capacity c.ahead := by
    rw [Cursor.run_skipTrivia h.valid rules, Cursor.ahead_reached]
    exact drop_of_suffix (rules.leave_suffix c.capacity c.ahead)
  refine ⟨_, hshows, hahead, (Cursor.keeps_run h.valid rules .skipTrivia).2, ?_⟩
  rw [hout, hahead, Cursor.run_skipTrivia h.valid rules]

theorem answers (h : Shows r c) {rules : Rules} {limit : Nat} (hlimit : c.ahead.length < limit)
    {op : Op} {a : Outcome Empty × Nat} (ha : op.answer rules c.capacity c.ahead = some a) :
    (op.run rules limit r).1 = a.1 := by
  obtain ⟨hout, -⟩ := h.inStep_of_lt rules hlimit op
  exact hout.trans (Cursor.run_answers h.valid ha).outcome

theorem skipTrivia_fits (h : Shows r c) (rules : Rules) {limit : Nat}
    (hlimit : c.ahead.length < limit) (hle : rules.commentStart.length ≤ c.capacity) :
    let scan := Op.skipTrivia.run rules limit r
    scan.1 = .answer .done ∧ scan.2.remaining = rules.dropTrivia r.remaining ∧
      (Op.atBlank.run rules limit scan.2).1 = .answer (.flag false) ∧
      (Op.atComment.run rules limit scan.2).1 = .answer (.flag false) ∧
      (Op.skipTrivia.run rules limit scan.2).1 = .answer .done ∧
      (Op.skipTrivia.run rules limit scan.2).2.remaining = scan.2.remaining := by
  intro scan
  obtain ⟨d, hd, hahead, hcap, hout⟩ := h.skipTrivia rules hlimit
  change Shows scan.2 d at hd
  have hlen : d.ahead.length < limit := by
    rw [hahead]
    exact Nat.lt_of_le_of_lt (rules.leave_suffix _ _).length_le hlimit
  have hleft : d.ahead = rules.dropTrivia c.ahead := by rw [hahead, Rules.leave, if_pos hle]
  have hnone : seesComment rules c.capacity d.ahead = .ok false := by
    rw [Rules.seesComment_of_le hle, hleft, Rules.beginsComment_dropTrivia]
  -- another scan starts where nothing is left to skip
  obtain ⟨e, he, hagain, -, houtAgain⟩ := hd.skipTrivia rules hlen
  have hsame : e.ahead = d.ahead := by rw [hagain, hcap, hahead, Rules.leave_leave]
  rw [hnone] at hout
  rw [hcap, hsame, hnone] at houtAgain
  rw [h.remaining_eq, hd.remaining_eq]
  refine ⟨hout, hleft, ?_, ?_, houtAgain, ?_⟩
  · rw [hd.answers hlen rfl, hleft, Rules.head?_dropTrivia]
  · rw [hd.answers hlen rfl, hcap, hnone]
    rfl
  · rw [he.remaining_eq, hsame]

/-- where it cannot, the blanks are skipped and the scan is refused at the beginning of a comment -/
theorem skipTrivia_long (h : Shows r c) (rules : Rules) {limit : Nat}
    (hlimit : c.ahead.length < limit) (hlt : c.capacity < rules.commentStart.length) :
    let scan := Op.skipTrivia.run rules limit r
    scan.2.remaining = rules.dropBlanks r.remaining ∧
      scan.1 = if rules.commentStart.take c.capacity <+: scan.2.remaining
        then .failed (.lookahead (c.capacity + 1) c.capacity) else .answer .done := by
  intro scan
  obtain ⟨d, hd, hahead, -, hout⟩ := h.skipTrivia rules hlimit
  change Shows scan.2 d at hd
  rw [h.remaining_eq, hd.remaining_eq]
  refine ⟨by rw [hahead, Rules.leave, if_neg (Nat.not_le_of_lt hlt)], ?_⟩
  rw [hout, Rules.seesComment_of_lt hlt]
  by_cases hfront : rules.commentStart.take c.capacity <+: d.ahead
  · rw [if_pos hfront, if_pos hfront]
  · rw [if_neg hfront, if_neg hfront]

end Shows

/-- **Trivia are skipped, all of them and nothing else.**  Wherever a reader stands in its text, and
under any rules, a scan for trivia succeeds where what begins a comment can be looked at, and leaves
what the text has after its blanks and comments.  There is no blank then and no comment, and nothing
for another scan to read.  Where a comment begins with more characters than the capacity, only
blanks are skipped, and the scan is refused exactly where as many characters of its beginning
follow.  The capacity is one that a count can exceed, and the loops may make more rounds than the
text is long. -/
theorem trivia_skipped (text : List Char) {n : Nat} (hn : 0 < n) (hmax : n < maxCount)
    (rules : Rules) {limit : Nat} (hlimit : text.length < limit) (ops : List Op) :
    ∃ r₀, create (⟨text⟩ : Text) n = .ok r₀ ∧
      let r := (run rules limit ops r₀).2
      let scan := Op.skipTrivia.run rules limit r
      (rules.commentStart.length ≤ n →
        scan.1 = .answer .done ∧ scan.2.remaining = rules.dropTrivia r.remaining ∧
        (Op.atBlank.run rules limit scan.2).1 = .answer (.flag false) ∧
        (Op.atComment.run rules limit scan.2).1 = .answer (.flag false) ∧
        (Op.skipTrivia.run rules limit scan.2).1 = .answer .done ∧
        (Op.skipTrivia.run rules limit scan.2).2.remaining = scan.2.remaining) ∧
      (n < rules.commentStart.length →
        scan.2.remaining = rules.dropBlanks r.remaining ∧
        scan.1 = if rules.commentStart.take n <+: scan.2.remaining
          then .failed (.lookahead (n + 1) n) else .answer .done) := by
  refine ⟨_, create_eq _ hn, ?_⟩
  intro r scan
  obtain ⟨-, h, hinput, hcapacity⟩ := (shows_create text hn hmax).follow_of_lt rules hlimit ops
  have hlen := h.length_ahead_lt (by rw [hinput]; exact hlimit)
  have hlong := h.skipTrivia_long rules hlen
  rw [hcapacity] at hlong
  refine ⟨fun hle => h.skipTrivia_fits rules hlen ?_, hlong⟩
  rw [hcapacity]
  exact hle

/-- a comment that begins with two characters, the second of them a line end and a blank -/
theorem trivia_skipped_abc :
    let rules : Rules := { Rules.standard with commentStart := ['-', '\n'] }
    let text := ['a', ' ', '-', '\n', 'b', '\n', ' ', '-', 'c']
    0 < 2 ∧ 2 < maxCount ∧ text.length < 10 ∧ rules.commentStart.length ≤ 2 ∧
      1 < rules.commentStart.length ∧
      ∃ r₀, create (⟨text⟩ : Text) 2 = .ok r₀ ∧
        (Op.skipTrivia.run rules 10 (run rules 10 [.read] r₀).2).1 = .answer .done ∧
        ∃ r₁, create (⟨text⟩ : Text) 1 = .ok r₁ ∧
          (Op.skipTrivia.run rules 10 (run rules 10 [.read] r₁).2).2.remaining =
            rules.dropBlanks (run rules 10 [.read] r₁).2.remaining := by
  intro rules text
  have hlimit : text.length < 10 := by decide
  obtain ⟨r₀, hr₀, hfits, -⟩ := trivia_skipped text (by decide : 0 < 2) (by decide : 2 < maxCount)
    rules hlimit [.read]
  obtain ⟨r₁, hr₁, -, hlong⟩ := trivia_skipped text (by decide : 0 < 1) (by decide : 1 < maxCount)
    rules hlimit [.read]
  exact ⟨by decide, by decide, hlimit, by decide, by decide, r₀, hr₀, (hfits (by decide)).1,
    r₁, hr₁, (hlong (by decide)).1⟩

end Reader

end Lookahead
