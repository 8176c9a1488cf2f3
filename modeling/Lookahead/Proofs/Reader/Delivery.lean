import Lookahead.Proofs.Reader.Operations
import Lookahead.Proofs.Source.Calls
import Lookahead.Source.Script

/-!
# What was delivered is what is read

Over a source that keeps a record, the characters delivered so far form a log.  A reader stands at a
position of it: what was passed over lies before, what is held lies after, and nothing else was ever
delivered.  This holds of every source, whatever it delivers, fails at or reports as its end; that a
record is kept of its calls changes nothing of what a reader does (`run_traced`).

* `Traced.delivered`   the log;
* `Reader.position`    where a reader stands in it;
* `Logged`             the log is what was passed over and what is held: kept by every move;
* `nothing_lost`       what the operations of a run tell, read off the log.
-/

namespace Lookahead

variable {σ ε : Type}

/-! ## the log -/

/-- the characters that a call has brought, `none` for one that the source dropped unseen -/
def Call.delivered : Call ε → List (Option Char)
  | .readChar (.ok (some c)) => [some c]
  | .readInto _ b => b.written.map some
  | .skip _ (.ok k) => List.replicate k none
  | _ => []

namespace Traced

def delivered (t : Traced σ ε) : List (Option Char) := t.calls.toList.flatMap Call.delivered

theorem delivered_push {t u : Traced σ ε} {c : Call ε} (h : u.calls = t.calls.push c) :
    u.delivered = t.delivered ++ c.delivered := by
  unfold delivered
  rw [h, Array.toList_push, List.flatMap_append, List.flatMap_singleton]

section
variable {α : Type} {call : Except ε α → Call ε} {x : EStateM ε σ α} {t u : Traced σ ε}

theorem delivered_of_ok {a : α} (h : record call x t = .ok a u) :
    u.delivered = t.delivered ++ (call (.ok a)).delivered := delivered_push (calls_of_ok h)

theorem delivered_of_error {e : ε} (h : record call x t = .error e u) :
    u.delivered = t.delivered ++ (call (.error e)).delivered := delivered_push (calls_of_error h)

end

variable [Source σ ε] {t u : Traced σ ε}

theorem delivered_readChar {o : Option Char} (h : Source.readChar t = .ok o u) :
    u.delivered = t.delivered ++ Reader.one o := by
  rw [delivered_of_ok h]
  cases o <;> rfl

theorem delivered_readChar_error {e : ε} (h : Source.readChar t = .error e u) :
    u.delivered = t.delivered := by
  rw [delivered_of_error h]
  exact List.append_nil _

theorem delivered_readInto {room : Nat} {b : Bulk ε} (h : Source.readInto room t = (b, u)) :
    u.delivered = t.delivered ++ b.written.map some := delivered_push (calls_of_readInto h)

theorem delivered_skip {n k : Nat} (h : Source.skip n t = .ok k u) :
    u.delivered = t.delivered ++ List.replicate k none := delivered_of_ok h

theorem delivered_skip_error {n : Nat} {e : ε} (h : Source.skip n t = .error e u) :
    u.delivered = t.delivered := by
  rw [delivered_of_error h]
  exact List.append_nil _

theorem delivered_ready {x : EStateM.Result ε (Traced σ ε) Bool} (h : Source.ready t = x) :
    (finalState x).delivered = t.delivered := by
  cases x with
  | ok b u => exact (delivered_of_ok h).trans (List.append_nil _)
  | error e u => exact (delivered_of_error h).trans (List.append_nil _)

end Traced

namespace Reader

/-! ## a reader and its log -/

/-- how many of the delivered characters the caller has passed over -/
def position (r : Reader (Traced σ ε)) : Nat := r.source.delivered.length - r.buffered

/-- the log is what was passed over, then what is held; what a mark keeps was passed over last -/
structure Logged (passed : List (Option Char)) (r : Reader (Traced σ ε)) : Prop where
  valid : r.buffer.Valid
  log : r.source.delivered = passed ++ r.buffer.toList.map some
  past : (r.buffer.window.past.getD []).map some <:+ passed

namespace Logged
variable {passed cs : List (Option Char)} {r s : Reader (Traced σ ε)}

theorem length (h : Logged passed r) : r.source.delivered.length = passed.length + r.buffered := by
  rw [h.log, List.length_append, List.length_map, Buffer.length_toList]
  rfl

theorem position (h : Logged passed r) : r.position = passed.length := by
  rw [Reader.position, h.length, Nat.add_sub_cancel]

theorem drop_position (h : Logged passed r) :
    r.source.delivered.drop r.position = r.buffer.toList.map some := by
  rw [h.position, h.log, List.drop_left]

theorem between (h : Logged passed r)
    (hs : Logged (passed ++ cs) s) :
    (s.source.delivered.drop r.position).take (s.position - r.position) = cs := by
  rw [h.position, hs.position, List.length_append, Nat.add_sub_cancel_left, hs.log,
    List.append_assoc, List.drop_left, List.take_left]

theorem direct [Source σ ε] (h : Logged passed r) (hd : r.Direct) {t : Traced σ ε} {e : Bool}
    (ht : t.delivered = r.source.delivered ++ cs) :
    Logged (passed ++ cs) { r with source := t, ended := e } := by
  have hheld : r.buffer.toList = [] := Buffer.toList_of_isEmpty hd.empty
  have hmark : r.buffer.mark = none := by simpa [Buffer.isMarked] using hd.unmarked
  refine ⟨h.valid, ?_, ?_⟩
  · show t.delivered = passed ++ cs ++ r.buffer.toList.map some
    rw [ht, h.log, hheld, List.map_nil, List.append_nil, List.append_nil]
  · show (r.buffer.window.past.getD []).map some <:+ passed ++ cs
    rw [Buffer.past_of_unmarked hmark]
    exact List.nil_suffix

theorem quiet (h : Logged passed r) {t : Traced σ ε} {e : Bool}
    (ht : t.delivered = r.source.delivered) :
    Logged passed { r with source := t, ended := e } :=
  ⟨h.valid, ht.trans h.log, h.past⟩

theorem taken (h : Logged passed r) {k : Nat} (hk : k ≤ r.buffered) :
    Logged (passed ++ (r.buffer.toList.take k).map some)
      { r with buffer := r.buffer.consume k } := by
  refine ⟨h.valid.consume hk, ?_, ?_⟩
  · show r.source.delivered = _ ++ (r.buffer.consume k).toList.map some
    rw [h.log, Buffer.toList_consume h.valid hk, List.append_assoc, ← List.map_append,
      List.take_append_drop]
  · show ((r.buffer.consume k).window.past.getD []).map some <:+ _
    rw [Buffer.past_consume h.valid hk]
    cases hp : r.buffer.window.past with
    | none => exact List.nil_suffix
    | some p =>
      have hsuf := h.past
      rw [hp] at hsuf
      obtain ⟨pre, hpre⟩ := hsuf
      refine ⟨pre, ?_⟩
      rw [← hpre, List.append_assoc]
      show pre ++ List.map some (p ++ List.take k r.buffer.toList) = _
      rw [List.map_append]
      rfl

theorem pulled (h : Logged passed r) {c : Char} {t : Traced σ ε} {b : Buffer}
    (ht : t.delivered = r.source.delivered ++ [some c]) (hb : Buffer.add c r.buffer = .ok () b) :
    Logged passed { r with source := t, buffer := b } := by
  have hnew := h.valid.stands.add hb
  refine ⟨hnew.valid, ?_, ?_⟩
  · show t.delivered = passed ++ b.toList.map some
    rw [ht, h.log, hnew.toList, List.map_append, List.append_assoc]
    rfl
  · show (b.window.past.getD []).map some <:+ passed
    rw [hnew.past]
    by_cases hs : r.buffer.window.size = r.buffer.capacity
    · rw [if_pos hs]
      exact List.nil_suffix
    · rw [if_neg hs]
      exact h.past

end Logged

/-- going back gives up the last of what was passed over; a refusal changes nothing -/
theorem Logged.reset {passed : List (Option Char)} {r : Reader (Traced σ ε)}
    (h : Logged passed r) :
    (∃ e, (reset : Step (Traced σ ε) ε Unit) r = .error e r) ∨
      ∃ s pre ps, (reset : Step (Traced σ ε) ε Unit) r = .ok () s ∧ passed = pre ++ ps ∧
        Logged pre s ∧ s.source = r.source := by
  cases hp : r.buffer.window.past with
  | none => exact .inl ⟨_, reset_none hp⟩
  | some p =>
    obtain ⟨b, hb, hst⟩ := reset_some (ε := ε) h.valid hp
    have hsuf := h.past
    rw [hp] at hsuf
    obtain ⟨pre, hpre⟩ := hsuf
    refine .inr ⟨_, pre, p.map some, hb, hpre.symm, ⟨hst.valid, ?_, ?_⟩, rfl⟩
    · show r.source.delivered = pre ++ b.toList.map some
      rw [hst.toList, h.log, ← hpre, List.append_assoc, List.map_append]
      rfl
    · show (b.window.past.getD []).map some <:+ pre
      rw [hst.window]
      exact List.nil_suffix

/-! ## moves and paths -/

section
variable [Source σ ε] {passed cs : List (Option Char)} {r s : Reader (Traced σ ε)}

theorem Move.logged (m : Move cs r s) (h : Logged passed r) : Logged (passed ++ cs) s := by
  cases m with
  | pulled _ _ hs hb =>
    rw [List.append_nil]
    exact h.pulled (Traced.delivered_readChar hs) hb
  | ended _ _ hs =>
    rw [List.append_nil]
    exact h.quiet ((Traced.delivered_readChar hs).trans (List.append_nil _))
  | failed _ _ hs =>
    rw [List.append_nil]
    exact h.quiet (Traced.delivered_readChar_error hs)
  | taken hk => exact h.taken hk
  | passed hd hs => exact h.direct hd (Traced.delivered_readChar hs)
  | wrote hd _ hs _ => exact h.direct hd (Traced.delivered_readInto hs)
  | dropped hd _ hs => exact h.direct hd (Traced.delivered_skip hs)
  | notDropped _ _ hs =>
    rw [List.append_nil]
    exact h.quiet (Traced.delivered_skip_error hs)
  | asked _ _ hs =>
    rw [List.append_nil]
    exact h.quiet (Traced.delivered_ready hs)

theorem Path.logged (p : Path cs r s) (h : Logged passed r) : Logged (passed ++ cs) s := by
  induction p with
  | refl r => rwa [List.append_nil]
  | tail _ m ih =>
    rw [← List.append_assoc]
    exact m.logged (ih h)

theorem Move.grows (m : Move cs r s) : r.source.delivered <+: s.source.delivered := by
  cases m with
  | pulled _ _ hs _ => exact ⟨_, (Traced.delivered_readChar hs).symm⟩
  | ended _ _ hs => exact ⟨_, (Traced.delivered_readChar hs).symm⟩
  | failed _ _ hs => exact ⟨[], (List.append_nil _).trans (Traced.delivered_readChar_error hs).symm⟩
  | taken _ => exact List.prefix_rfl
  | passed _ hs => exact ⟨_, (Traced.delivered_readChar hs).symm⟩
  | wrote _ _ hs _ => exact ⟨_, (Traced.delivered_readInto hs).symm⟩
  | dropped _ _ hs => exact ⟨_, (Traced.delivered_skip hs).symm⟩
  | notDropped _ _ hs => exact ⟨[], (List.append_nil _).trans (Traced.delivered_skip_error hs).symm⟩
  | asked _ _ hs => exact ⟨[], (List.append_nil _).trans (Traced.delivered_ready hs).symm⟩

theorem Path.grows (p : Path cs r s) : r.source.delivered <+: s.source.delivered := by
  induction p with
  | refl r => exact List.prefix_rfl
  | tail _ m ih => exact ih.trans m.grows

/-! ## operations and runs -/

variable (rules : Rules) (limit : Nat)

/-- an operation that neither goes back nor closes passes on what its outcome tells -/
theorem Op.logged {op : Op} (hreset : op ≠ .reset) (hclose : op ≠ .close) (h : Logged passed r) :
    ∃ cs, Logged (passed ++ cs) (op.run rules limit r).2 ∧
      r.source.delivered <+: (op.run rules limit r).2.source.delivered ∧
      op.Tells cs ((op.run rules limit r).2.buffer.toList.map some) (op.run rules limit r).1 := by
  by_cases hop : op.Forward
  · obtain ⟨cs, hp, ht⟩ := Op.told rules limit hop h.valid
    exact ⟨cs, hp.logged h, hp.grows, ht⟩
  · cases op with
    | mark n =>
      rw [Op.run_mark]
      by_cases hn : r.capacity < n
      · rw [if_pos hn]
        exact ⟨[], by rwa [List.append_nil], List.prefix_rfl, rfl⟩
      · rw [if_neg hn]
        refine ⟨[], ?_, List.prefix_rfl, rfl⟩
        rw [List.append_nil]
        exact ⟨h.valid.markHead, h.log, List.nil_suffix⟩
    | reset => exact absurd rfl hreset
    | close => exact absurd rfl hclose
    | _ => exact absurd trivial hop

theorem run_logged (ops : List Op) (hops : Op.close ∉ ops) (h : Logged passed r) :
    ∃ passed, Logged passed (run rules limit ops r).2 := by
  induction ops generalizing passed r with
  | nil => exact ⟨passed, h⟩
  | cons op ops ih =>
    rw [run_cons]
    have hclose : op ≠ .close := fun e => hops (e ▸ List.mem_cons_self)
    have hrest : Op.close ∉ ops := fun e => hops (List.mem_cons_of_mem op e)
    by_cases hreset : op = .reset
    · subst hreset
      rw [Op.run_reset]
      obtain ⟨e, he⟩ | ⟨s, pre, ps, hs, -, hlog, -⟩ := h.reset
      · rw [he]
        exact ih hrest h
      · rw [hs]
        exact ih hrest hlog
    · obtain ⟨cs, hlog, -, -⟩ := Op.logged rules limit hreset hclose h
      exact ih hrest hlog

end

/-- **Nothing is lost, given twice or given out of order.**  Over any source, after any run that
does not close the reader, the characters held are the last ones of those delivered.  The next
operation only adds to what was delivered, and what stands there from the position before it to the
position after it is what its outcome says that it read or passed over, also when it fails; only
going back moves the position back, and it delivers nothing. -/
theorem nothing_lost [Source σ ε] (s : σ) {n : Nat} (hn : 0 < n) (rules : Rules) (limit : Nat)
    (ops : List Op) (hops : Op.close ∉ ops) :
    ∃ r₀, create (⟨s, #[]⟩ : Traced σ ε) n = .ok r₀ ∧
      let r := (run rules limit ops r₀).2
      r.buffered ≤ r.source.delivered.length ∧
      r.source.delivered.drop r.position = r.buffer.toList.map some ∧
      ∀ op : Op, op ≠ .close →
        let o := op.run rules limit r
        let log := o.2.source.delivered
        r.source.delivered <+: log ∧
        (op ≠ .reset → r.position ≤ o.2.position ∧
          op.Tells ((log.drop r.position).take (o.2.position - r.position))
            (log.drop o.2.position) o.1) ∧
        (op = .reset → log = r.source.delivered ∧ o.2.position ≤ r.position ∧
          ∀ e, o.1 = .failed e → o.2 = r) := by
  refine ⟨_, create_eq _ hn, ?_⟩
  have hnew : Logged (σ := σ) (ε := ε) [] ⟨⟨s, #[]⟩, Buffer.ofCapacity n, false, false⟩ :=
    ⟨Buffer.valid_ofCapacity hn, rfl, List.nil_suffix⟩
  intro r
  obtain ⟨passed, h⟩ : ∃ passed, Logged passed r := run_logged rules limit ops hops hnew
  refine ⟨?_, h.drop_position, fun op hclose => ?_⟩
  · rw [h.length]
    exact Nat.le_add_left _ _
  by_cases hreset : op = .reset
  · -- what is given up by going back was passed over last
    subst hreset
    rw [Op.run_reset]
    obtain ⟨e, he⟩ | ⟨t, pre, ps, ht, hpre, hlog, hsource⟩ := h.reset
    · rw [he]
      refine ⟨List.prefix_rfl, fun hno => absurd rfl hno, fun _ => ?_⟩
      exact ⟨rfl, Nat.le_refl _, fun _ _ => rfl⟩
    · rw [ht]
      show _ <+: t.source.delivered ∧ _
      rw [hsource]
      refine ⟨List.prefix_rfl, fun hno => absurd rfl hno, fun _ => ?_⟩
      refine ⟨rfl, ?_, fun _ hf => by cases hf⟩
      show t.position ≤ r.position
      rw [hlog.position, h.position, hpre, List.length_append]
      exact Nat.le_add_right _ _
  · obtain ⟨cs, hlog, hgrows, htells⟩ := Op.logged rules limit hreset hclose h
    refine ⟨hgrows, fun _ => ⟨?_, ?_⟩, fun hno => absurd hno hreset⟩
    · rw [hlog.position, h.position, List.length_append]
      exact Nat.le_add_right _ _
    · show op.Tells ((List.drop r.position (op.run rules limit r).2.source.delivered).take _)
        (List.drop (op.run rules limit r).2.position _) _
      rw [h.between hlog, hlog.drop_position]
      exact htells

/-- a source that fails, and that goes on after its end: one character was given up by going back -/
theorem nothing_lost_abc :
    let source : Script String := ⟨[.char 'a', .failure "slow", .char 'b', .stop, .char 'c']⟩
    let ops := [Op.mark 2, .read, .fill 1, .fill 1, .reset, .acceptChar 'a', .peekNth 1]
    0 < 2 ∧ Op.close ∉ ops ∧
    ∃ r₀, create (⟨source, #[]⟩ : Traced (Script String) String) 2 = .ok r₀ ∧
      let r := (run Rules.standard 9 ops r₀).2
      r.source.delivered = [some 'a', some 'b'] ∧ r.position = 1 ∧
      r.source.delivered.drop r.position = r.buffer.toList.map some := by
  refine ⟨by decide, by decide, ?_⟩
  obtain ⟨r₀, hr, -, hdrop, -⟩ := nothing_lost (n := 2)
    (⟨[.char 'a', .failure "slow", .char 'b', .stop, .char 'c']⟩ : Script String) (by decide)
    Rules.standard 9 [Op.mark 2, .read, .fill 1, .fill 1, .reset, .acceptChar 'a', .peekNth 1]
    (by decide)
  refine ⟨r₀, hr, ?_, ?_, hdrop⟩
  · cases hr
    decide +kernel
  · cases hr
    decide +kernel

end Reader

end Lookahead
