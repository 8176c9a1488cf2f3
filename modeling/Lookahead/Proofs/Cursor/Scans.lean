import Lookahead.Proofs.Cursor.Answers

/-!
# Scans of a cursor

A scan reads up to where it stops and looks a little further.  Where it stops is a matter of the
characters ahead: the end of a line, or what is left after blanks and comments.

* `Cursor.reached`   so many characters read, and so many more looked at;
* `Rules.leave`      what a scan for trivia leaves;
* `skipComment_apply`, `skipTrivia_apply`   where the scans of a cursor end.
-/

namespace Lookahead

/-! ## what scans leave -/

theorem drop_of_suffix {left cs : List Char} (h : left <:+ cs) :
    cs.drop (cs.length - left.length) = left := (List.suffix_iff_eq_drop.1 h).symm

namespace Rules

variable (rules : Rules)

theorem dropBlanks_suffix (cs : List Char) : rules.dropBlanks cs <:+ cs :=
  List.dropWhile_suffix _

theorem dropLine_suffix (cs : List Char) : rules.dropLine cs <:+ cs := List.dropWhile_suffix _

theorem dropBlanks_dropBlanks (cs : List Char) :
    rules.dropBlanks (rules.dropBlanks cs) = rules.dropBlanks cs := by
  unfold dropBlanks
  induction cs with
  | nil => rfl
  | cons c cs ih =>
    by_cases hc : rules.isBlank c = true
    · rw [List.dropWhile_cons_of_pos hc, ih]
    · rw [List.dropWhile_cons_of_neg hc, List.dropWhile_cons_of_neg hc]

/-- what is left after a comment that is known to begin at the front -/
def leaveComment (ahead : List Char) : List Char :=
  rules.dropLine (ahead.drop rules.commentStart.length)

/-- what is left after the trivia at the front, where a comment that begins with more characters
than can be looked at is not found -/
def leave (capacity : Nat) (ahead : List Char) : List Char :=
  if rules.commentStart.length ≤ capacity then rules.dropTrivia ahead else rules.dropBlanks ahead

theorem leaveComment_suffix (cs : List Char) : rules.leaveComment cs <:+ cs :=
  (rules.dropLine_suffix _).trans (List.drop_suffix _ _)

theorem dropComment?_suffix {rules : Rules} {cs ds : List Char}
    (h : rules.dropComment? cs = some ds) : ds <:+ cs := by
  unfold dropComment? at h
  split at h
  · cases h
    exact rules.leaveComment_suffix cs
  · cases h

theorem dropTrivia_suffix (cs : List Char) : rules.dropTrivia cs <:+ cs := by
  fun_induction rules.dropTrivia cs with
  | case1 cs _ => exact rules.dropBlanks_suffix cs
  | case2 cs ds h ih => exact (ih.trans (dropComment?_suffix h)).trans (rules.dropBlanks_suffix cs)

theorem leave_suffix (capacity : Nat) (cs : List Char) : rules.leave capacity cs <:+ cs := by
  unfold leave
  split
  · exact rules.dropTrivia_suffix cs
  · exact rules.dropBlanks_suffix cs

variable {rules} {capacity : Nat} {cs : List Char}

/-- a comment that is found begins there, with no more characters than can be looked at -/
theorem dropComment?_of_sees (h : seesComment rules capacity cs = .ok true) :
    rules.dropComment? cs = some (rules.leaveComment cs) ∧
      rules.commentStart.length ≤ capacity := by
  obtain ⟨hs, hsees⟩ := Cursor.found_of_seesComment h
  obtain ⟨hfront, hle, -⟩ := Cursor.found_of_sees hsees
  have hbegins : rules.beginsComment cs = true := by
    simpa [beginsComment, hs] using hfront
  exact ⟨if_pos hbegins, hle⟩

theorem leave_of_comment (h : seesComment rules capacity (rules.dropBlanks cs) = .ok true) :
    rules.leave capacity cs = rules.leave capacity (rules.leaveComment (rules.dropBlanks cs)) := by
  obtain ⟨hdrop, hle⟩ := dropComment?_of_sees h
  rw [leave, leave, if_pos hle, if_pos hle, dropTrivia_of_some hdrop]

theorem leave_of_no_comment (h : seesComment rules capacity (rules.dropBlanks cs) ≠ .ok true) :
    rules.leave capacity cs = rules.dropBlanks cs := by
  unfold leave
  by_cases hle : rules.commentStart.length ≤ capacity
  · rw [if_pos hle, dropTrivia_of_none]
    unfold dropComment?
    by_cases hbegins : rules.beginsComment (rules.dropBlanks cs) = true
    · have hs : rules.commentStart ≠ [] ∧ rules.commentStart <+: rules.dropBlanks cs := by
        simpa [beginsComment] using hbegins
      refine absurd ?_ h
      rw [seesComment, if_neg hs.1, Cursor.sees_of_front hs.1 hs.2 hle]
    · rw [if_neg hbegins]
  · rw [if_neg hle]

end Rules

namespace Cursor

/-! ## reading up to a place and looking further -/

/-- `k` characters were read, and `j` more were looked at -/
def reached (c : Cursor) (k j : Nat) : Cursor := (c.advanced k).looked j

variable (c : Cursor) (j k : Nat)

theorem ahead_reached : (c.reached k j).ahead = c.ahead.drop k := c.ahead_advanced k

theorem reached_eq :
    c.reached k j = { c with
      position := c.position + min k c.ahead.length
      pulled := max c.pulled (c.position + min (k + j) c.ahead.length) } := by
  have hpulled : max (max c.pulled (c.position + min k c.ahead.length))
      (c.position + min k c.ahead.length + min j (c.advanced k).ahead.length) =
      max c.pulled (c.position + min (k + j) c.ahead.length) := by
    rw [ahead_advanced, List.length_drop]
    omega
  rw [← hpulled]
  rfl

theorem reached_zero_left : c.reached 0 j = c.looked j := by
  rw [reached_eq, Nat.zero_min, Nat.add_zero, Nat.zero_add, looked]

theorem reached_zero_right : c.reached k 0 = c.advanced k := by
  rw [reached_eq, Nat.add_zero, advanced, looked]

theorem looked_advanced : (c.looked j).advanced k = c.reached k (j - k) := by
  have hpulled : max (max c.pulled (c.position + min j c.ahead.length))
      (c.position + min k c.ahead.length) =
      max c.pulled (c.position + min (k + (j - k)) c.ahead.length) := by omega
  rw [reached_eq, ← hpulled]
  rfl

theorem reached_reached (k' j' : Nat) :
    (c.reached k j).reached k' j' = c.reached (k + k') (max (j - k') j') := by
  unfold reached
  rw [looked_advanced, reached, advanced_advanced, looked_looked]

variable {c} {j k}

theorem Valid.position_add_le (h : c.Valid) : c.position + c.ahead.length ≤ c.input.length := by
  have hle := Nat.le_trans h.position_le h.pulled_le
  cases hc : c.closed with
  | true =>
    rw [ahead_of_closed hc]
    exact hle
  | false =>
    rw [length_ahead hc]
    omega

theorem Valid.reached (h : c.Valid) (k j : Nat) : (c.reached k j).Valid := by
  have hle := h.position_add_le
  have hpos := h.position_le
  have hpulled := h.pulled_le
  rw [reached_eq]
  refine { h with position_le := ?_, pulled_le := ?_, mark_le := fun m hm => ?_, shut := fun hc => ?_ }
  · show c.position + min k c.ahead.length ≤ max c.pulled (c.position + min (k + j) c.ahead.length)
    omega
  · show max c.pulled (c.position + min (k + j) c.ahead.length) ≤ c.input.length
    omega
  · exact Nat.le_add_right_of_le (h.mark_le m hm)
  · obtain ⟨hp, hm⟩ := h.shut hc
    have hnil : c.ahead = [] := ahead_of_closed hc
    rw [hnil, List.length_nil, Nat.min_zero, Nat.min_zero, Nat.add_zero, Nat.max_eq_left hpos]
    exact ⟨hp, hm⟩

/-! ## scans -/

theorem moveTo_apply {left : List Char} :
    moveTo left c = .ok () (c.reached (c.ahead.length - left.length) 0) := by
  rw [reached_zero_right]
  show (advance (c.ahead.length - left.length) >>= fun _ => pure () : Move Unit) c = _
  rw [bind_apply, advance_apply]
  rfl

theorem look_apply (n : Nat) : look n c = .ok () (c.looked n) := rfl

theorem length_ahead_accepting {test : Move Bool} {n : Nat} {o : Except (ReadError Empty) Bool}
    {found : Bool} {d : Cursor} (ht : test c = result o (c.looked k))
    (h : accepting test n c = .ok found d) : d.ahead.length ≤ c.ahead.length := by
  rw [accepting_apply, ht] at h
  match o with
  | .error e => cases h
  | .ok false =>
    cases h
    exact Nat.le_refl _
  | .ok true =>
    cases h
    rw [ahead_advanced, ahead_looked, List.length_drop]
    exact Nat.sub_le _ _

theorem skipComment_eq (rules : Rules) (c : Cursor) :
    skipComment rules c =
      match accepting (atComment rules) rules.commentStart.length c with
      | .ok true d => .ok true (d.reached (d.ahead.length - (rules.dropLine d.ahead).length) 1)
      | .ok false d => .ok false d
      | .error e d => .error e d := by
  rw [skipComment, bind_apply]
  cases accepting (atComment rules) rules.commentStart.length c with
  | error e d => rfl
  | ok found d =>
    cases found with
    | false => rfl
    | true =>
      show (moveTo (rules.dropLine d.ahead) >>= fun _ => look 1 >>= fun _ => pure true :
        Move Bool) d = _
      rw [bind_apply, moveTo_apply]
      show EStateM.Result.ok true ((d.reached _ 0).looked 1) = _
      rw [← reached_zero_left, reached_reached]
      rfl

theorem skipComment_apply (hc : c.Valid) (rules : Rules) :
    skipComment rules c = match seesComment rules c.capacity c.ahead with
      | .ok true =>
        .ok true (c.reached (c.ahead.length - (rules.leaveComment c.ahead).length) 1)
      | .ok false => .ok false (c.looked (comparedComment rules c.capacity c.ahead))
      | .error e => .error e (c.looked (comparedComment rules c.capacity c.ahead)) := by
  rw [skipComment_eq, accepting_apply, atComment_apply hc]
  cases ho : seesComment rules c.capacity c.ahead with
  | error e => rfl
  | ok b =>
    cases b with
    | false => rfl
    | true =>
      obtain ⟨hs, hsees⟩ := found_of_seesComment ho
      obtain ⟨hfront, -, -⟩ := found_of_sees hsees
      have hcompared : comparedComment rules c.capacity c.ahead - rules.commentStart.length = 0 := by
        rw [comparedComment, if_neg hs, compared, if_neg hs]
        omega
      have hleft := (rules.dropLine_suffix (c.ahead.drop rules.commentStart.length)).length_le
      have hlen := hfront.length_le
      have hread : (c.looked (comparedComment rules c.capacity c.ahead)).advanced
          rules.commentStart.length = c.reached rules.commentStart.length 0 := by
        rw [looked_advanced, hcompared]
      have hlength : rules.commentStart.length +
          ((c.ahead.drop rules.commentStart.length).length - (rules.leaveComment c.ahead).length) =
          c.ahead.length - (rules.leaveComment c.ahead).length := by
        unfold Rules.leaveComment
        rw [List.length_drop] at hleft ⊢
        omega
      dsimp only [result]
      rw [hread, reached_reached, ahead_reached, ← hlength, Nat.zero_sub, Nat.zero_max]
      rfl

/-- a scan for trivia has looked at one character more, and at what would begin a comment there -/
theorem skipTrivia_apply (hc : c.Valid) (rules : Rules) {left : List Char}
    (hleft : left = rules.leave c.capacity c.ahead) :
    skipTrivia rules c = match seesComment rules c.capacity left with
      | .ok _ => .ok () (c.reached (c.ahead.length - left.length)
        (max 1 (comparedComment rules c.capacity left)))
      | .error e => .error e (c.reached (c.ahead.length - left.length)
        (max 1 (comparedComment rules c.capacity left))) := by
  have hahead : (c.reached (c.ahead.length - left.length) 1).ahead = left := by
    rw [ahead_reached, hleft]
    exact drop_of_suffix (rules.leave_suffix c.capacity c.ahead)
  have hcomment : atComment rules (c.reached (c.ahead.length - left.length) 1) =
      result (seesComment rules c.capacity left) (c.reached (c.ahead.length - left.length)
        (max 1 (comparedComment rules c.capacity left))) := by
    rw [atComment_apply (hc.reached _ 1), hahead, ← reached_zero_left, reached_reached]
    rfl
  have hmoved : skipTrivia rules c = (atComment rules >>= fun _ => pure () : Move Unit)
      (c.reached (c.ahead.length - left.length) 1) := by
    rw [hleft]
    show (moveTo (rules.leave c.capacity c.ahead) >>= fun _ => look 1 >>= fun _ =>
      atComment rules >>= fun _ => pure () : Move Unit) c = _
    rw [bind_apply, moveTo_apply]
    show (look 1 >>= fun _ => _ : Move Unit) (c.reached _ 0) = _
    rw [bind_apply, look_apply, ← reached_zero_left, reached_reached]
    rfl
  rw [hmoved, bind_apply, hcomment]
  cases seesComment rules c.capacity left <;> rfl

/-! ## a scan for trivia, round by round -/

def pastBlanks (c : Cursor) (rules : Rules) : Cursor :=
  c.reached (c.ahead.length - (rules.dropBlanks c.ahead).length) 1

/-- the cursor behind a comment that is known to begin where it stands -/
def pastComment (c : Cursor) (rules : Rules) : Cursor :=
  c.reached (c.ahead.length - (rules.leaveComment c.ahead).length) 1

theorem ahead_pastBlanks (c : Cursor) (rules : Rules) :
    (c.pastBlanks rules).ahead = rules.dropBlanks c.ahead := by
  rw [pastBlanks, ahead_reached]
  exact drop_of_suffix (rules.dropBlanks_suffix c.ahead)

theorem ahead_pastComment (c : Cursor) (rules : Rules) :
    (c.pastComment rules).ahead = rules.leaveComment c.ahead := by
  rw [pastComment, ahead_reached]
  exact drop_of_suffix (rules.leaveComment_suffix c.ahead)

theorem Valid.pastBlanks (hc : c.Valid) (rules : Rules) : (c.pastBlanks rules).Valid :=
  hc.reached _ _

theorem Valid.pastComment (hc : c.Valid) (rules : Rules) : (c.pastComment rules).Valid :=
  hc.reached _ _

theorem skipTrivia_of_comment (hc : c.Valid) {rules : Rules}
    (ho : seesComment rules c.capacity (rules.dropBlanks c.ahead) = .ok true) :
    skipTrivia rules c = skipTrivia rules ((c.pastBlanks rules).pastComment rules) := by
  have hahead : ((c.pastBlanks rules).pastComment rules).ahead =
      rules.leaveComment (rules.dropBlanks c.ahead) := by
    rw [ahead_pastComment, ahead_pastBlanks]
  have hblanks := (rules.dropBlanks_suffix c.ahead).length_le
  have hcomment := (rules.leaveComment_suffix (rules.dropBlanks c.ahead)).length_le
  have htrivia :=
    (rules.leave_suffix c.capacity (rules.leaveComment (rules.dropBlanks c.ahead))).length_le
  have hleft : rules.leave c.capacity (rules.leaveComment (rules.dropBlanks c.ahead)) =
      rules.leave c.capacity ((c.pastBlanks rules).pastComment rules).ahead := by rw [hahead]
  have hreach : ∀ j, 1 ≤ j → ((c.pastBlanks rules).pastComment rules).reached
      ((rules.leaveComment (rules.dropBlanks c.ahead)).length -
        (rules.leave c.capacity (rules.leaveComment (rules.dropBlanks c.ahead))).length) j =
      c.reached (c.ahead.length -
        (rules.leave c.capacity (rules.leaveComment (rules.dropBlanks c.ahead))).length) j := by
    intro j hj
    rw [pastComment, ahead_pastBlanks, pastBlanks, reached_reached, reached_reached]
    congr 1 <;> omega
  rw [skipTrivia_apply ((hc.pastBlanks rules).pastComment rules) rules hleft, hahead,
    hreach _ (Nat.le_max_left _ _)]
  exact skipTrivia_apply hc rules (Rules.leave_of_comment ho).symm

theorem skipComment_pastBlanks (hc : c.Valid) {rules : Rules}
    (ho : seesComment rules c.capacity (rules.dropBlanks c.ahead) = .ok true) :
    skipComment rules (c.pastBlanks rules) = .ok true ((c.pastBlanks rules).pastComment rules) := by
  have hcap : (c.pastBlanks rules).capacity = c.capacity := rfl
  rw [skipComment_apply (hc.pastBlanks rules), hcap, ahead_pastBlanks, ho, pastComment,
    ahead_pastBlanks]

theorem length_pastComment_lt {rules : Rules}
    (ho : seesComment rules c.capacity (rules.dropBlanks c.ahead) = .ok true) :
    ((c.pastBlanks rules).pastComment rules).ahead.length < c.ahead.length := by
  have hblanks := (rules.dropBlanks_suffix c.ahead).length_le
  have hcomment := Rules.length_dropComment?_lt (Rules.dropComment?_of_sees ho).1
  rw [ahead_pastComment, ahead_pastBlanks]
  omega

theorem skipTrivia_of_no_comment (hc : c.Valid) {rules : Rules}
    (ho : seesComment rules c.capacity (rules.dropBlanks c.ahead) ≠ .ok true) :
    skipTrivia rules c = ((fun _ => ()) <$> skipComment rules) (c.pastBlanks rules) := by
  have hahead := c.ahead_pastBlanks rules
  have hcap : (c.pastBlanks rules).capacity = c.capacity := rfl
  have hlooked := (c.advanced (c.ahead.length - (rules.dropBlanks c.ahead).length)).looked_looked 1
    (comparedComment rules c.capacity (rules.dropBlanks c.ahead))
  rw [skipTrivia_apply hc rules (Rules.leave_of_no_comment ho).symm, map_apply,
    skipComment_apply (hc.pastBlanks rules), hahead, hcap]
  unfold pastBlanks reached
  rw [hlooked]
  match hsees : seesComment rules c.capacity (rules.dropBlanks c.ahead) with
  | .ok true => exact absurd hsees ho
  | .ok false => rfl
  | .error e => rfl

/-- looking for a comment where none follows is no reason to look again -/
theorem skipTrivia_again (hc : c.Valid) {rules : Rules}
    (ho : seesComment rules c.capacity (rules.dropBlanks c.ahead) ≠ .ok true) {found : Bool}
    {d : Cursor} (hd : skipComment rules (c.pastBlanks rules) = .ok found d) :
    found = false ∧ d.ahead = rules.dropBlanks c.ahead ∧
      skipTrivia rules c = skipTrivia rules d := by
  have hcap : (c.pastBlanks rules).capacity = c.capacity := rfl
  rw [skipComment_apply (hc.pastBlanks rules), hcap, ahead_pastBlanks] at hd
  obtain ⟨hfalse, hlooked⟩ : found = false ∧ d = (c.pastBlanks rules).looked
      (comparedComment rules c.capacity (rules.dropBlanks c.ahead)) := by
    match hsees : seesComment rules c.capacity (rules.dropBlanks c.ahead) with
    | .ok true => exact absurd hsees ho
    | .ok false =>
      rw [hsees] at hd
      cases hd
      exact ⟨rfl, rfl⟩
    | .error e =>
      rw [hsees] at hd
      cases hd
  have hreached : d = c.reached (c.ahead.length - (rules.dropBlanks c.ahead).length)
      (max 1 (comparedComment rules c.capacity (rules.dropBlanks c.ahead))) := by
    rw [hlooked]
    exact looked_looked _ _ _
  have hahead : d.ahead = rules.dropBlanks c.ahead := by
    rw [hlooked, ahead_looked, ahead_pastBlanks]
  have hcapacity : d.capacity = c.capacity := by
    rw [hlooked]
    rfl
  have hleft : rules.dropBlanks c.ahead = rules.leave d.capacity d.ahead := by
    rw [hcapacity, hahead, Rules.leave_of_no_comment, rules.dropBlanks_dropBlanks]
    rwa [rules.dropBlanks_dropBlanks]
  refine ⟨hfalse, hahead, ?_⟩
  rw [skipTrivia_apply hc rules (Rules.leave_of_no_comment ho).symm,
    skipTrivia_apply (hreached ▸ hc.reached _ _) rules hleft, hahead, hcapacity, hreached,
    reached_reached, Nat.sub_self, Nat.add_zero, Nat.sub_zero, Nat.max_self]

/-! ## operations -/

theorem run_snd (rules : Rules) (op : Reader.Op) (c : Cursor) :
    (run rules op c).2 = finalState (perform rules op c) := by
  rw [run]
  cases perform rules op c <;> rfl

theorem keeps_run (hc : c.Valid) (rules : Rules) (op : Reader.Op) :
    (run rules op c).2.input = c.input ∧ (run rules op c).2.capacity = c.capacity := by
  cases op with
  | skipComment =>
    rw [run_snd, perform, finalState_map, skipComment_apply hc]
    cases seesComment rules c.capacity c.ahead with
    | error e => exact ⟨rfl, rfl⟩
    | ok found => cases found <;> exact ⟨rfl, rfl⟩
  | skipTrivia =>
    rw [run_snd, perform, finalState_map, skipTrivia_apply hc rules rfl]
    cases seesComment rules c.capacity (rules.leave c.capacity c.ahead) <;> exact ⟨rfl, rfl⟩
  | rest => exact ⟨rfl, rfl⟩
  | _ => exact run_keeps hc rules rfl

end Cursor

end Lookahead
