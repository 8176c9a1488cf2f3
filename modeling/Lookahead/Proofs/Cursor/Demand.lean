import Lookahead.Proofs.Cursor.Scans

/-!
# How far an operation asks to see

What an operation asks to see is decided by the capacity and by the characters ahead, as its answer
is.  A look that is refused asks for nothing; a comparison asks for the characters that are alike
and for the next one; what is read is asked for.

* `Op.demand`       how many characters ahead an operation asks to see;
* `Cursor.run_pulled`   an operation looks as far as that, and no further.
-/

namespace Lookahead

open Cursor (compared comparedWord comparedComment)

/-- how many characters ahead an operation asks to see -/
def Reader.Op.demand (rules : Rules) (capacity : Nat) (ahead : List Char) : Reader.Op → Nat
  | .fill n => if capacity < n then 0 else n
  | .peekNth n => if capacity ≤ n then 0 else n + 1
  | .atNth n _ => if capacity ≤ n then 0 else n + 1
  | .peek => 1
  | .read => 1
  | .atChar _ => 1
  | .atEnd => 1
  | .atLineEnd => 1
  | .atBlank => 1
  | .acceptChar _ => 1
  | .acceptBlank => 1
  | .atText s => compared capacity ahead s
  | .acceptText s => compared capacity ahead s
  | .atWord w => comparedWord capacity ahead w
  | .acceptWord w => comparedWord capacity ahead w
  | .atComment => comparedComment rules capacity ahead
  -- a comment that is found is read, and the character after it looked at
  | .skipComment => match seesComment rules capacity ahead with
    | .ok true => ahead.length - (rules.leaveComment ahead).length + 1
    | _ => comparedComment rules capacity ahead
  -- the first character left is looked at, and whether a comment begins there
  | .skipTrivia =>
    let left := rules.leave capacity ahead
    ahead.length - left.length + max 1 (comparedComment rules capacity left)
  | .readInto room => room
  | .skip n => n
  | .chars n => n
  | .rest => ahead.length + 1
  | .mark _ => 0
  | .reset => 0
  | .ready => 0
  | .close => 0

namespace Cursor

variable {c : Cursor} {rules : Rules} {op : Reader.Op}

/-- the operation looks `n` characters ahead, as far as there are so many -/
def Asks (rules : Rules) (op : Reader.Op) (c : Cursor) (n : Nat) : Prop :=
  (run rules op c).2.pulled = max c.pulled (c.position + min n c.ahead.length)

theorem asks_of_final {d : Cursor} {n : Nat} (h : finalState (perform rules op c) = d)
    (hd : d.pulled = max c.pulled (c.position + min n c.ahead.length)) : Asks rules op c n := by
  rw [Asks, run_snd, h, hd]

theorem asks_looked {n : Nat} (h : finalState (perform rules op c) = c.looked n) :
    Asks rules op c n := asks_of_final h rfl

theorem asks_reached {k j : Nat} (h : finalState (perform rules op c) = c.reached k j) :
    Asks rules op c (k + j) := asks_of_final h (by rw [reached_eq])

theorem asks_nothing (hc : c.Valid)
    (h : (finalState (perform rules op c)).pulled = c.pulled) : Asks rules op c 0 := by
  refine asks_of_final rfl ?_
  rw [Nat.zero_min, Nat.add_zero, Nat.max_eq_left hc.position_le, h]

theorem asks_advance {n : Nat} {f : List Char → Reader.Answer Empty}
    (h : perform rules op = do return f (← advance n)) : Asks rules op c n := by
  refine asks_of_final (d := c.advanced n) ?_ rfl
  rw [h, bind_apply, advance_apply]
  rfl

/-! ## looks and tests -/

theorem asks_peek (hc : c.Valid) {f : Option Char → Reader.Answer Empty}
    (h : perform rules op = do return f (← peek)) : Asks rules op c 1 := by
  refine asks_looked ?_
  rw [h, bind_apply, peek_apply hc]
  rfl

theorem asks_peekNth (hc : c.Valid) {n : Nat} {f : Option Char → Reader.Answer Empty}
    (h : perform rules op = do return f (← peekNth n)) :
    Asks rules op c (if c.capacity ≤ n then 0 else n + 1) := by
  have hpeek := c.peekNth_apply hc.small n
  by_cases hn : c.capacity ≤ n
  · rw [if_pos hn] at hpeek ⊢
    refine asks_nothing hc ?_
    rw [h, bind_apply, hpeek]
    rfl
  · rw [if_neg hn] at hpeek ⊢
    refine asks_looked ?_
    rw [h, bind_apply, hpeek]
    rfl

section
variable {test : Move Bool} {o : Except (ReadError Empty) Bool} {n k : Nat}

theorem asks_test (h : perform rules op = .flag <$> test) (ht : test c = result o (c.looked k)) :
    Asks rules op c k := by
  refine asks_looked ?_
  rw [h, finalState_map, ht]
  cases o <;> rfl

theorem asks_accepting (h : perform rules op = .flag <$> accepting test n)
    (ht : test c = result o (c.looked k)) (hn : o = .ok true → n ≤ k) : Asks rules op c k := by
  have hlooked : o ≠ .ok true → Asks rules op c k := fun ho => by
    refine asks_looked ?_
    rw [h, finalState_map, accepting_apply, ht]
    match o with
    | .ok true => exact absurd rfl ho
    | .ok false => rfl
    | .error e => rfl
  by_cases ho : o = .ok true
  · have hk : n + (k - n) = k := Nat.add_sub_of_le (hn ho)
    rw [← hk]
    refine asks_reached ?_
    rw [h, finalState_map, accepting_apply, ht, ho, ← looked_advanced]
    rfl
  · exact hlooked ho

end

/-! ## operations of their own -/

section
variable (hc : c.Valid)
include hc

theorem asks_fill (n : Nat) : Asks rules (.fill n) c (if c.capacity < n then 0 else n) := by
  have hfill := c.fill_apply n
  by_cases hn : c.capacity < n
  · rw [if_pos hn] at hfill ⊢
    refine asks_nothing hc ?_
    rw [perform, finalState_map, hfill]
    rfl
  · rw [if_neg hn] at hfill ⊢
    refine asks_looked ?_
    rw [perform, finalState_map, hfill]
    rfl

theorem asks_skipComment :
    Asks rules .skipComment c (Reader.Op.skipComment.demand rules c.capacity c.ahead) := by
  have hscan := skipComment_apply hc rules
  show Asks rules _ c (match seesComment rules c.capacity c.ahead with
    | .ok true => c.ahead.length - (rules.leaveComment c.ahead).length + 1
    | _ => comparedComment rules c.capacity c.ahead)
  cases ho : seesComment rules c.capacity c.ahead with
  | error e =>
    rw [ho] at hscan
    refine asks_looked ?_
    rw [perform, finalState_map, hscan]
    rfl
  | ok b =>
    rw [ho] at hscan
    cases b with
    | false =>
      refine asks_looked ?_
      rw [perform, finalState_map, hscan]
      rfl
    | true =>
      refine asks_reached ?_
      rw [perform, finalState_map, hscan]
      rfl

theorem asks_skipTrivia :
    Asks rules .skipTrivia c (Reader.Op.skipTrivia.demand rules c.capacity c.ahead) := by
  refine asks_reached ?_
  rw [perform, finalState_map, skipTrivia_apply hc rules rfl]
  cases seesComment rules c.capacity (rules.leave c.capacity c.ahead) <;> rfl

theorem asks_readInto (room : Nat) : Asks rules (.readInto room) c room := by
  by_cases hroom : room = 0
  · subst hroom
    exact asks_nothing hc rfl
  · refine asks_of_final (d := c.advanced room) ?_ rfl
    rw [perform, finalState_map, readInto, if_neg hroom, bind_apply, advance_apply]
    rfl

theorem asks_mark (limit : Nat) : Asks rules (.mark limit) c 0 := by
  refine asks_nothing hc ?_
  rw [perform, finalState_map, setMark_apply]
  split <;> rfl

theorem asks_reset : Asks rules .reset c 0 := by
  refine asks_nothing hc ?_
  rw [perform, finalState_map]
  obtain hm | ⟨m, hm⟩ := Option.eq_none_or_eq_some c.mark
  · rw [reset_unmarked hm]
    rfl
  · by_cases hlost : c.capacity < c.pulled - m
    · rw [reset_lost hm hlost]
      rfl
    · rw [reset_marked hm hlost]
      rfl

omit hc in
/-- after the last character it is also asked whether there is one more -/
theorem asks_rest : Asks rules .rest c (c.ahead.length + 1) := by
  have hrest : finalState (perform rules .rest c) = c.advanced c.ahead.length := by
    show finalState ((advance c.ahead.length >>= fun cs => pure (.text cs) :
      Move (Reader.Answer Empty)) c) = _
    rw [bind_apply, advance_apply]
    rfl
  refine asks_of_final hrest ?_
  show max c.pulled (c.position + min c.ahead.length c.ahead.length) =
    max c.pulled (c.position + min (c.ahead.length + 1) c.ahead.length)
  rw [Nat.min_self, Nat.min_eq_right (Nat.le_succ _)]

end

/-! ## all operations -/

/-- an operation looks as far ahead as it asks to see, and no further -/
theorem run_pulled (hc : c.Valid) (hop : op ≠ .close) :
    (run rules op c).2.pulled =
      max c.pulled (c.position + min (op.demand rules c.capacity c.ahead) c.ahead.length) := by
  show Asks rules op c _
  cases op with
  | fill n => exact asks_fill hc n
  | peek => exact asks_peek hc (f := .char) rfl
  | peekNth n => exact asks_peekNth hc (f := .char) rfl
  | read => exact asks_advance (f := fun cs => .char cs.head?) rfl
  | atChar ch => exact asks_peek hc (f := fun o => .flag (o == some ch)) rfl
  | atNth n ch => exact asks_peekNth hc (f := fun o => .flag (o == some ch)) rfl
  | atText s => exact asks_test rfl (atText_apply hc s)
  | atWord w => exact asks_test rfl (atWord_apply hc rules w)
  | atComment => exact asks_test rfl (atComment_apply hc rules)
  | atEnd => exact asks_peek hc (f := fun o => .flag o.isNone) rfl
  | atLineEnd => exact asks_peek hc (f := fun o => .flag (o.all rules.isLineEnd)) rfl
  | atBlank => exact asks_peek hc (f := fun o => .flag (o.any rules.isBlank)) rfl
  | acceptChar ch =>
    exact asks_accepting rfl (atPeek_apply hc (· == some ch)) fun _ => Nat.le_refl 1
  | acceptText s =>
    exact asks_accepting rfl (atText_apply hc s) fun ho => (found_of_sees ho).2.2
  | acceptWord w =>
    exact asks_accepting rfl (atWord_apply hc rules w) fun ho => (found_of_seesWord ho).2
  | acceptBlank =>
    exact asks_accepting rfl (atPeek_apply hc (·.any rules.isBlank)) fun _ => Nat.le_refl 1
  | skipComment => exact asks_skipComment hc
  | skipTrivia => exact asks_skipTrivia hc
  | readInto room => exact asks_readInto hc room
  | skip n => exact asks_advance (f := fun cs => .count cs.length) rfl
  | mark limit => exact asks_mark hc limit
  | reset => exact asks_reset hc
  | ready => exact asks_nothing hc rfl
  | chars n => exact asks_advance (f := fun cs => .items (cs.map .ok)) rfl
  | rest => exact asks_rest
  | close => exact absurd rfl hop

end Cursor

end Lookahead
