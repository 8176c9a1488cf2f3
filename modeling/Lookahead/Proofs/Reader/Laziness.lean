import Lookahead.Proofs.Cursor.Demand
import Lookahead.Proofs.Reader.Operations
import Lookahead.Proofs.Reader.Scans

/-!
# Nothing is pulled that was not asked for

A reader of a slow source must not wait for characters that nobody has asked to see.  What each
operation asks to see, from the place where the reader stands, is `Op.demand`; how far a text was
pulled is the furthest that any operation has asked for, as far as the text goes.  Going back moves
the place and pulls nothing.

* `placeIn`            where in a text a reader stands;
* `furthest`           how far the operations of a run ask to see;
* `pulled_exactly`     so far is the text pulled, and no further.
-/

namespace Lookahead.Reader

/-- where in its text a reader stands: what was pulled, less what waits in the buffer -/
def placeIn (text : List Char) (r : Reader Text) : Nat :=
  text.length - r.source.rest.length - r.buffered

/-- how far into its text an operation asks a reader to see -/
def asked (rules : Rules) (text : List Char) (op : Op) (r : Reader Text) : Nat :=
  min text.length (r.placeIn text + op.demand rules r.capacity (text.drop (r.placeIn text)))

/-- how far into its text the operations of a run ask a reader to see, each one where the reader
stands by then -/
def furthest (rules : Rules) (limit : Nat) (text : List Char) : List Op → Reader Text → Nat
  | [], _ => 0
  | op :: ops, r =>
    max (asked rules text op r) (furthest rules limit text ops (op.run rules limit r).2)

section
variable {r : Reader Text} {c : Cursor} {rules : Rules} {limit : Nat}

theorem Shows.placeIn_eq (h : Shows r c) (hopen : c.closed = false) :
    r.placeIn c.input = c.position := by
  have hcount : r.buffered = c.buffered := h.count
  have hposition := h.valid.position_le
  have hpulled := h.valid.pulled_le
  unfold placeIn
  rw [h.rest hopen, List.length_drop, hcount, Cursor.buffered]
  omega

theorem Shows.pulled_run (h : Shows r c) (hopen : c.closed = false) {op : Op} (hop : op ≠ .close) :
    (Cursor.run rules op c).2.pulled = max c.pulled (asked rules c.input op r) := by
  have hcap : r.capacity = c.capacity := h.stands.capacity
  have hahead : c.ahead = c.input.drop c.position := if_neg (by simp [hopen])
  have hlen := Cursor.length_ahead hopen
  have hposition := h.valid.position_le
  have hpulled := h.valid.pulled_le
  rw [Cursor.run_pulled h.valid hop]
  unfold asked
  rw [h.placeIn_eq hopen, hcap, ← hahead]
  congr 1
  omega

theorem Shows.pulled_follow (h : Shows r c) (rules : Rules) (hopen : c.closed = false)
    (hlimit : c.input.length < limit) {ops : List Op} (hops : ∀ op ∈ ops, op ≠ .close) :
    (Reader.follow rules ops c).2.pulled = max c.pulled (furthest rules limit c.input ops r) ∧
      (Reader.follow rules ops c).2.closed = false := by
  induction ops generalizing r c with
  | nil => exact ⟨(Nat.max_zero _).symm, hopen⟩
  | cons op ops ih =>
    have hop := hops op List.mem_cons_self
    obtain ⟨-, hshows⟩ := h.inStep_of_lt rules (h.length_ahead_lt hlimit) op
    obtain ⟨hinput, -⟩ := Cursor.keeps_run h.valid rules op
    have hstays : (Cursor.run rules op c).2.closed = false := by
      rw [← hshows.closed, Bool.eq_false_iff, ne_eq, op.closed_run rules limit h.stands.valid,
        h.closed, hopen]
      exact fun hno => hno.elim nofun hop
    obtain ⟨hfurther, hend⟩ := ih hshows hstays (by rw [hinput]; exact hlimit)
      fun o ho => hops o (List.mem_cons_of_mem op ho)
    rw [follow_cons]
    refine ⟨hfurther.trans ?_, hend⟩
    rw [h.pulled_run hopen hop, hinput, furthest, Nat.max_assoc]

theorem finished_follow (rules : Rules) (ops : List Op) (c : Cursor) :
    ∀ o ∈ (follow rules ops c).1, o ≠ .unfinished := by
  induction ops generalizing c with
  | nil => exact fun _ ho => absurd ho List.not_mem_nil
  | cons op ops ih =>
    rw [follow_cons]
    intro o ho
    obtain rfl | ho := List.mem_cons.1 ho
    · unfold Cursor.run
      cases Cursor.perform rules op c <;> exact nofun
    · exact ih _ o ho

end

/-- **Nothing is pulled that was not asked for.**  After any run of a new reader of a text, unless it
is closed, what was pulled of the text is the furthest that any of its operations has asked to see,
each of them from the place where the reader stood when it was called, and no scan was given up.
That place is the one at which a cursor stands that follows the run.  The capacity is one that a
count can exceed, as that of every buffer is that can be stored. -/
theorem pulled_exactly (text : List Char) {n : Nat} (hn : 0 < n) (hmax : n < maxCount)
    (rules : Rules) {limit : Nat} (hlimit : text.length < limit) (ops : List Op)
    (hops : ∀ op ∈ ops, op ≠ .close) :
    ∃ r₀, create (⟨text⟩ : Text) n = .ok r₀ ∧
      let r := (run rules limit ops r₀).2
      let c := (follow rules ops { input := text, capacity := n }).2
      let q := furthest rules limit text ops r₀
      r.source.rest = text.drop q ∧ q ≤ text.length ∧ r.placeIn text = c.position ∧
        r.buffered = q - c.position ∧
        ∀ o ∈ (run rules limit ops r₀).1, o ≠ .unfinished := by
  refine ⟨_, create_eq _ hn, ?_⟩
  intro r c q
  have hstart := shows_create text hn hmax
  obtain ⟨houts, h, hinput, -⟩ := hstart.follow_of_lt rules hlimit ops
  obtain ⟨hpulled, hopen⟩ := hstart.pulled_follow rules rfl hlimit hops
  have hq : c.pulled = q := hpulled.trans (Nat.zero_max q)
  have htext : c.input = text := hinput
  have hcount : r.buffered = c.buffered := h.count
  refine ⟨?_, ?_, ?_, ?_, ?_⟩
  · rw [← hq, ← htext]
    exact h.rest hopen
  · rw [← hq, ← htext]
    exact h.valid.pulled_le
  · rw [← htext]
    exact h.placeIn_eq hopen
  · rw [hcount, ← hq]
    rfl
  · rw [houts]
    exact finished_follow rules ops _

/-- the character after a comment is looked at, and nothing after it, whatever is refused later -/
theorem pulled_exactly_abc :
    let text := ['a', 'b', '#', 'x', '\n', 'c', 'd']
    let ops := [Op.mark 2, .atText ['a', 'c'], .acceptText ['a', 'b'], .skipComment, .reset, .peek,
      .fill 9]
    0 < 3 ∧ 3 < maxCount ∧ text.length < 8 ∧ (∀ op ∈ ops, op ≠ .close) ∧
      ∃ r₀, create (⟨text⟩ : Text) 3 = .ok r₀ ∧
        (run Rules.standard 8 ops r₀).2.source.rest = ['c', 'd'] := by
  intro text ops
  have hops : ∀ op ∈ ops, op ≠ .close := by decide
  refine ⟨by decide, by decide, by decide, hops, ?_⟩
  obtain ⟨r₀, hr, hrest, -⟩ := pulled_exactly text (by decide : 0 < 3) (by decide : 3 < maxCount)
    Rules.standard (by decide : text.length < 8) ops hops
  refine ⟨r₀, hr, hrest.trans ?_⟩
  cases hr
  decide

end Lookahead.Reader
