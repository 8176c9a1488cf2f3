import Lookahead.Proofs.Reader.Operations
import Lookahead.Proofs.Reader.Stock
import Lookahead.Proofs.Source.Calls
import Lookahead.Source.Script

/-!
# How operations fail

A reader has few ways to fail: its source does, it is asked to look further ahead than it has slots,
a mark is to hold over more characters than there are, or there is no mark to go back to.  Each
operation has its own of these ways.  The buffer never refuses a character for being full, nor is it
asked for one that it does not hold.

* `Outcome.errors`     the errors that an outcome tells, those of bulk reads and of items included;
* `Op.LooksFar`        an operation looks further ahead than there are slots;
* `Op.MayFail`         the ways in which an operation may fail;
* `fails_in_known_ways`   it fails in no other way.
-/

namespace Lookahead

namespace Reader

variable {σ ε α : Type} {n j : Nat}

/-! ## errors of operations -/

def Answer.errors : Answer ε → List (ReadError ε)
  | .bulk b => b.failure?.toList
  | .items is => is.filterMap failure?
  | _ => []

def Outcome.errors : Outcome ε → List (ReadError ε)
  | .answer a => a.errors
  | .failed e => [e]
  | .unfinished => []

/-- the operation looks further ahead than there are slots, at once or in the course of comparing:
a word is looked beyond by one character -/
def Op.LooksFar (rules : Rules) (n : Nat) : Op → Prop
  | .fill k => n < k
  | .peekNth i => n ≤ i
  | .atNth i _ => n ≤ i
  | .atText s => n < s.length
  | .acceptText s => n < s.length
  | .atWord w => n ≤ w.length
  | .acceptWord w => n ≤ w.length
  | .atComment => n < rules.commentStart.length
  | .skipComment => n < rules.commentStart.length
  | .skipTrivia => n < rules.commentStart.length
  | _ => False

/-- the operation may have to do with the source -/
def Op.Asks : Op → Prop
  | .mark _ => False
  | .reset => False
  | _ => True

/-- the ways in which an operation of a reader with `n` slots may fail -/
inductive Op.MayFail (rules : Rules) (n : Nat) : Op → ReadError ε → Prop where
  | source {op : Op} (e : ε) (asks : op.Asks) : MayFail rules n op (.source e)
  | lookahead {op : Op} {requested : Nat} (far : op.LooksFar rules n) (more : n < requested) :
      MayFail rules n op (.lookahead requested n)
  | markLimit {limit : Nat} (more : n < limit) :
      MayFail rules n (.mark limit) (.buffer (.markLimit limit n))
  | invalidMark : MayFail rules n .reset (.buffer .invalidMark)

theorem Looking.mayFail {op : Op} {rules : Rules} {e : ReadError ε} (hop : op.Asks)
    (h : Looking (op.LooksFar rules n) n e) : op.MayFail rules n e := by
  cases h with
  | source e => exact .source e hop
  | lookahead hfar hmore => exact .lookahead hfar hmore

/-- the buffer was never used against its state -/
theorem Op.MayFail.kind_ne_state {op : Op} {rules : Rules} {e : ReadError ε} (h : op.MayFail rules n e) :
    e.kind ≠ .state := by
  cases h <;> exact nofun

/-! ## steps that are not composed -/

section
variable {E : ReadError ε → Prop} {next : Step σ ε (Option Char)} {r : Reader σ}

theorem Leaves.discard (hnext : Leaves n 0 next (fun _ => 0) E) (k : Nat) :
    Leaves n 0 (discard next k) (fun _ => 0) E := by
  induction k with
  | zero => exact fun _ h => h
  | succ k ih =>
    intro r h
    have hr := hnext r h
    unfold Lookahead.discard
    cases hres : next r with
    | error e s =>
      rw [hres] at hr
      exact hr
    | ok o s =>
      rw [hres] at hr
      cases o with
      | none => exact hr
      | some c => exact ih.map (· + 1) s hr

theorem Leaves.gather (hnext : Leaves n 0 next (fun _ => 0) E) (room : Nat) (h : Stocked n 0 r)
    {e : ReadError ε} (he : (gather next room r).1.failure? = some e) : E e := by
  induction room generalizing r with
  | zero => cases he
  | succ room ih =>
    have hr := hnext r h
    unfold Lookahead.gather at he
    cases hres : next r with
    | error d s =>
      rw [hres] at he hr
      cases he
      exact hr
    | ok o s =>
      rw [hres] at he hr
      cases o with
      | none => cases he
      | some c =>
        dsimp only at he
        rw [Bulk.failure?_after] at he
        exact ih hr he

end

section
variable [Source σ ε] {r : Reader σ} {e : ReadError ε}

theorem failure?_pullInto {room : Nat} (he : (pullInto room r).1.failure? = some e) :
    ∃ d, e = .source d := by
  unfold pullInto at he
  by_cases hc : room = 0 ∨ r.isDry = true
  · rw [if_pos hc] at he
    cases he
  · rw [if_neg hc] at he
    cases hres : Source.readInto room r.source with
    | mk b s =>
      rw [hres] at he
      cases b with
      | read cs => cases he
      | ended => cases he
      | failed cs d =>
        cases he
        exact ⟨d, rfl⟩

variable (hn : 0 < n)
include hn

theorem leaves_skip :
    Leaves n 0 (skip j : Step σ ε Nat) (fun _ => 0) (Looking False n) := by
  intro r h
  have hpast : Leaves n 0 (skipPast (j - r.buffered) : Step σ ε Nat) (fun _ => 0)
      (Looking False n) := by
    intro s hs
    rw [skipPast_eq]
    by_cases hm : s.buffer.isMarked = true
    · rw [if_pos hm]
      exact (leaves_takeBuffered hn).discard _ s hs
    · rw [if_neg hm]
      by_cases hc : j - r.buffered = 0 ∨ s.isDry = true
      · rw [if_pos hc]
        exact hs
      · rw [if_neg hc]
        exact leaves_onSource _ False s hs
  rw [skip_eq]
  by_cases hj : j < r.buffered
  · rw [if_pos hj]
    exact h.consume (Nat.le_of_lt hj)
  · have hrest := hpast _ (h.consume (Nat.le_refl r.buffered))
    rw [if_neg hj]
    cases hres : skipPast (j - r.buffered) { r with buffer := r.buffer.consume r.buffered } with
    | ok i s =>
      rw [hres] at hrest
      exact hrest
    | error e s =>
      rw [hres] at hrest
      exact hrest

theorem looking_readInto (h : Stocked n 0 r) {room : Nat}
    (he : (readInto room r).1.failure? = some e) : Looking False n e := by
  unfold readInto at he
  by_cases hroom : room = 0
  · rw [if_pos hroom] at he
    cases he
  · rw [if_neg hroom] at he
    dsimp only at he
    rw [Bulk.failure?_after] at he
    have hdrained : Stocked n 0 { r with buffer := (r.buffer.drain room).2 } :=
      h.consume (Nat.min_le_right room r.buffer.count)
    unfold fetchInto at he
    by_cases hm : (r.buffer.drain room).2.isMarked = true
    · rw [if_pos hm] at he
      exact (leaves_takeBuffered hn).gather _ hdrained he
    · rw [if_neg hm] at he
      obtain ⟨d, rfl⟩ := failure?_pullInto he
      exact .source d

theorem looking_chars (h : Stocked n 0 r) {k : Nat}
    (he : e ∈ (chars k r).1.filterMap failure?) : Looking False n e := by
  induction k generalizing r with
  | zero => cases he
  | succ k ih =>
    -- what a failed read leaves is told by its path, not by its triple
    have hpath := read_path (ε := ε) h.valid
    have hr := leaves_read (σ := σ) (ε := ε) hn r h
    unfold chars at he
    cases hres : (read r : EStateM.Result (ReadError ε) _ _) with
    | error d s =>
      rw [hres] at he hpath hr
      have hs : Stocked n 0 s :=
        ⟨Path.valid hpath h.valid, (Path.capacity hpath).trans h.capacity, Nat.zero_le _⟩
      change e ∈ d :: (chars k s).1.filterMap failure? at he
      obtain rfl | he := List.mem_cons.1 he
      · exact hr
      · exact ih hs he
    | ok o s =>
      rw [hres] at he hr
      cases o with
      | none => cases he
      | some c =>
        change e ∈ (chars k s).1.filterMap failure? at he
        exact ih hr he

omit hn in
theorem leaves_ready :
    Leaves n 0 (ready : Step σ ε Bool) (fun _ => 0) (Looking False n) := by
  intro r h
  rw [ready_eq]
  by_cases he : r.buffer.isEmpty = true
  · rw [if_pos he]
    by_cases hdry : r.isDry = true
    · rw [if_pos hdry]
      exact h
    · rw [if_neg hdry]
      exact leaves_onSource _ False r h
  · rw [if_neg he]
    exact h

omit hn in
theorem leaves_close :
    Leaves n 0 (close : Step σ ε Unit) (fun _ => 0) (Looking False n) := by
  intro r h
  have hcleared : Stocked n 0 { r with buffer := r.buffer.clear, ended := true, closed := true } :=
    ⟨h.valid.clear, h.capacity, Nat.zero_le _⟩
  rw [close_eq]
  by_cases hc : r.closed = true
  · rw [if_pos hc]
    exact hcleared
  · rw [if_neg hc]
    exact leaves_onSource _ False _ hcleared

end

/-! ## operations -/

section
variable [Source σ ε] {r : Reader σ} {op : Op} {rules : Rules} {limit : Nat} {e : ReadError ε}

theorem errors_of_leaves {E : ReadError ε → Prop} {x : Scan σ ε α} {left : α → Nat}
    {f : α → Answer ε} (hop : op.perform rules limit = f <$> x) (hf : ∀ a, (f a).errors = [])
    (hx : Leaves n 0 x left (Halt.Of E)) (h : Stocked n 0 r)
    (he : e ∈ (op.run rules limit r).1.errors) : E e := by
  have hr := hx r h
  rw [Op.run, hop, map_apply] at he
  cases hres : x r with
  | ok a s =>
    rw [hres] at he
    change e ∈ (f a).errors at he
    rw [hf] at he
    cases he
  | error d s =>
    rw [hres] at he hr
    cases hr with
    | error hd =>
      cases List.mem_singleton.1 he
      exact hd
    | limit => cases he

/-- every operation fails in its own ways only -/
theorem Op.mayFail (h : Stocked n 0 r) (rules : Rules) (limit : Nat) (op : Op)
    (he : e ∈ (op.run rules limit r).1.errors) : op.MayFail rules n e := by
  have hn : 0 < n := h.capacity ▸ h.valid.capacity_pos
  have hnone : ∀ {α : Type} (a : α), (Answer.done : Answer ε).errors = [] := fun _ => rfl
  have hchar : ∀ c, (Answer.char c : Answer ε).errors = [] := fun _ => rfl
  have hflag : ∀ b, (Answer.flag b : Answer ε).errors = [] := fun _ => rfl
  cases op with
  | fill k => exact (errors_of_leaves rfl hnone (leaves_fill id).step h he).mayFail trivial
  | peek => exact (errors_of_leaves rfl hchar (leaves_peek hn).step h he).mayFail trivial
  | peekNth i => exact (errors_of_leaves rfl hchar (leaves_peekNth id).step h he).mayFail trivial
  | read => exact (errors_of_leaves rfl hchar (leaves_read hn).step h he).mayFail trivial
  | atChar c =>
    exact (errors_of_leaves rfl hflag (leaves_atNth (Nat.not_le_of_lt hn) c).step h he).mayFail
      trivial
  | atNth i c => exact (errors_of_leaves rfl hflag (leaves_atNth id c).step h he).mayFail trivial
  | atText s => exact (errors_of_leaves rfl hflag (leaves_atText hn id).step h he).mayFail trivial
  | atWord w =>
    exact (errors_of_leaves rfl hflag (leaves_atWord hn rules id).step h he).mayFail trivial
  | atComment =>
    exact (errors_of_leaves rfl hflag (leaves_atComment hn rules id).step h he).mayFail trivial
  | atEnd => exact (errors_of_leaves rfl hflag (leaves_atEnd hn).step h he).mayFail trivial
  | atLineEnd =>
    exact (errors_of_leaves rfl hflag (leaves_atLineEnd hn rules).step h he).mayFail trivial
  | atBlank =>
    exact (errors_of_leaves rfl hflag (leaves_atBlank hn rules).step h he).mayFail trivial
  | acceptChar c =>
    exact (errors_of_leaves rfl hflag (leaves_atNth (Nat.not_le_of_lt hn) c).accepting.step h
      he).mayFail trivial
  | acceptText s =>
    exact (errors_of_leaves rfl hflag (leaves_atText hn id).accepting.step h he).mayFail trivial
  | acceptWord w =>
    exact (errors_of_leaves rfl hflag (leaves_atWord hn rules id).accepting.step h he).mayFail
      trivial
  | acceptBlank =>
    exact (errors_of_leaves rfl hflag (leaves_atBlank hn rules).accepting.step h he).mayFail
      trivial
  | skipComment =>
    exact (errors_of_leaves rfl hflag (leaves_skipComment hn rules limit id) h he).mayFail trivial
  | skipTrivia =>
    exact (errors_of_leaves rfl hnone (leaves_skipTrivia hn rules limit id) h he).mayFail trivial
  | readInto room =>
    have hfails : (Reader.readInto room r).1.failure? = some e := Option.mem_toList.1 he
    exact (looking_readInto hn h hfails).weaken.mayFail trivial
  | skip k =>
    exact (errors_of_leaves rfl (fun _ => rfl) (leaves_skip hn).step h he).weaken.mayFail trivial
  | mark l =>
    rw [Op.run_mark, h.capacity] at he
    by_cases hl : n < l
    · rw [if_pos hl] at he
      cases List.mem_singleton.1 he
      exact .markLimit hl
    · rw [if_neg hl] at he
      cases he
  | reset =>
    rw [Op.run_reset] at he
    cases hp : r.buffer.window.past with
    | none =>
      rw [reset_none hp] at he
      cases List.mem_singleton.1 he
      exact .invalidMark
    | some p =>
      obtain ⟨b, hb, -⟩ := reset_some (ε := ε) h.valid hp
      rw [hb] at he
      cases he
  | ready => exact (errors_of_leaves rfl hflag leaves_ready.step h he).weaken.mayFail trivial
  | chars k => exact (looking_chars hn h he).weaken.mayFail trivial
  | rest =>
    exact (errors_of_leaves rfl (fun _ => rfl) (leaves_rest hn limit) h he).weaken.mayFail trivial
  | close => exact (errors_of_leaves rfl hnone leaves_close.step h he).weaken.mayFail trivial

end

/-- **A reader fails in known ways only.**  Over any source, in any state that a run can leave, every
error that an operation tells is one of its own: that of the source, unless the operation only sets
a mark or goes back to it; that of looking further ahead than there are slots, from operations that
are asked to; that of a mark for too many characters, from `mark`, and of a missing one, from
`reset`.  The buffer is never used against its state. -/
theorem fails_in_known_ways [Source σ ε] (s : σ) {n : Nat} (hn : 0 < n) (rules : Rules)
    (limit : Nat) (ops : List Op) :
    ∃ r₀, create s n = .ok r₀ ∧
      ∀ op : Op, ∀ e ∈ (op.run rules limit (run rules limit ops r₀).2).1.errors,
        op.MayFail rules n e ∧ e.kind ≠ .state := by
  refine ⟨_, create_eq s hn, fun op e he => ?_⟩
  obtain ⟨hvalid, hcapacity⟩ := valid_run (r := ⟨s, Buffer.ofCapacity n, false, false⟩) rules limit
    ops (Buffer.valid_ofCapacity hn)
  have hcap := hcapacity.trans (Array.size_replicate (n := n))
  have hfail := op.mayFail ⟨hvalid, hcap, Nat.zero_le _⟩ rules limit he
  exact ⟨hfail, hfail.kind_ne_state⟩

/-- two characters are compared in one slot, behind a failure of the source -/
theorem fails_in_known_ways_abc :
    let script : Script String := ⟨[.char 'a', .failure "slow", .char 'b', .char 'c']⟩
    let ops := [Op.read, .peek]
    let compare := Op.atText ['b', 'c']
    0 < 1 ∧ ∃ r₀, create script 1 = .ok r₀ ∧
      (compare.run Rules.standard 9 (run Rules.standard 9 ops r₀).2).1.errors = [.lookahead 2 1] ∧
      compare.MayFail Rules.standard 1 (.lookahead 2 1 : ReadError String) := by
  intro script ops compare
  obtain ⟨r₀, hr, hfails⟩ := fails_in_known_ways script Nat.one_pos Rules.standard 9 ops
  rw [create_eq script Nat.one_pos] at hr
  cases hr
  have herrors : (compare.run Rules.standard 9 (run Rules.standard 9 ops
      ⟨script, Buffer.ofCapacity 1, false, false⟩).2).1.errors = [.lookahead 2 1] := rfl
  refine ⟨Nat.one_pos, _, create_eq script Nat.one_pos, herrors, ?_⟩
  exact (hfails compare (.lookahead 2 1) (herrors ▸ List.mem_singleton_self _)).1

end Reader

end Lookahead
