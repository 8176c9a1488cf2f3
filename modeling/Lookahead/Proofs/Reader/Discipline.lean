import Lookahead.Proofs.Reader.Operations
import Lookahead.Proofs.Source.Calls

/-!
# How a reader treats its source

A reader remembers two things about its source: that it has reported its end, and that it was closed.
Once it has either, it asks nothing more of the source, and closes it at most once.  So the calls
made to a source over a whole run are in order, whatever the source answers.

* `Disciplined`        the calls so far are in order, and the reader knows what they came to;
* `Move.disciplined`   every single thing a reader does keeps this;
* `run_disciplined`    so does a whole run.
-/

namespace Lookahead.Reader

variable {σ ε : Type} {r s : Reader (Traced σ ε)}

/-- after a call that reported the end the source is closed at most, after one that closed it nothing
is called; every call asked for something; the reader knows whether the end was reported and whether
the source was closed -/
structure Disciplined (r : Reader (Traced σ ε)) : Prop where
  order : r.source.calls.toList.Pairwise fun c d => (c.Ends → d.Closes) ∧ ¬ c.Closes
  proper : ∀ c ∈ r.source.calls.toList, c.Proper
  ended_iff : r.ended = true ↔ (∃ c ∈ r.source.calls.toList, c.Ends) ∨ r.closed = true
  closed_iff : r.closed = true ↔ ∃ c ∈ r.source.calls.toList, c.Closes

namespace Disciplined

theorem wet (h : Disciplined r) (hr : r.isDry = false) {c : Call ε}
    (hc : c ∈ r.source.calls.toList) : ¬ c.Ends ∧ ¬ c.Closes := by
  obtain ⟨hended, hclosed⟩ := Bool.or_eq_false_iff.1 hr
  refine ⟨fun he => ?_, fun hl => ?_⟩
  · have := h.ended_iff.2 (.inl ⟨c, hc, he⟩)
    rw [hended] at this
    cases this
  · have := h.closed_iff.2 ⟨c, hc, hl⟩
    rw [hclosed] at this
    cases this

theorem called (h : Disciplined r) (hr : r.isDry = false) {c : Call ε} {t : Traced σ ε}
    (ht : t.calls = r.source.calls.push c) (hc : c.Proper) (hopen : ¬ c.Closes) {ended : Bool}
    (hended : ended = true ↔ c.Ends) (b : Buffer) :
    Disciplined { r with source := t, ended, buffer := b } := by
  have hlist : t.calls.toList = r.source.calls.toList ++ [c] := by rw [ht, Array.toList_push]
  have hclosed : r.closed = false := (Bool.or_eq_false_iff.1 hr).2
  constructor
  · show t.calls.toList.Pairwise _
    rw [hlist, List.pairwise_append]
    refine ⟨h.order, List.pairwise_singleton _ _, fun d hd _ _ => ?_⟩
    exact ⟨fun he => absurd he (h.wet hr hd).1, (h.wet hr hd).2⟩
  · show ∀ d ∈ t.calls.toList, d.Proper
    rw [hlist]
    intro d hd
    obtain hd | hd := List.mem_append.1 hd
    · exact h.proper d hd
    · rwa [List.mem_singleton.1 hd]
  · show ended = true ↔ (∃ d ∈ t.calls.toList, d.Ends) ∨ r.closed = true
    rw [hlist, hclosed, hended]
    refine ⟨fun he => .inl ⟨c, List.mem_append_right _ List.mem_cons_self, he⟩, ?_⟩
    rintro (⟨d, hd, he⟩ | hno)
    · obtain hd | hd := List.mem_append.1 hd
      · exact absurd he (h.wet hr hd).1
      · rwa [← List.mem_singleton.1 hd]
    · exact absurd hno Bool.false_ne_true
  · show r.closed = true ↔ ∃ d ∈ t.calls.toList, d.Closes
    rw [hlist, hclosed]
    refine ⟨fun hno => absurd hno Bool.false_ne_true, ?_⟩
    rintro ⟨d, hd, hl⟩
    obtain hd | hd := List.mem_append.1 hd
    · exact absurd hl (h.wet hr hd).2
    · exact absurd (List.mem_singleton.1 hd ▸ hl) hopen

theorem closing (h : Disciplined r) (hr : r.closed = false) {result : Except ε Unit}
    {t : Traced σ ε} (ht : t.calls = r.source.calls.push (.close result)) (b : Buffer) :
    Disciplined { r with source := t, ended := true, closed := true, buffer := b } := by
  have hlist : t.calls.toList = r.source.calls.toList ++ [.close result] := by
    rw [ht, Array.toList_push]
  have hopen : ∀ c ∈ r.source.calls.toList, ¬ c.Closes := fun c hc hl => by
    have := h.closed_iff.2 ⟨c, hc, hl⟩
    rw [hr] at this
    cases this
  constructor
  · show t.calls.toList.Pairwise _
    rw [hlist, List.pairwise_append]
    refine ⟨h.order, List.pairwise_singleton _ _, fun c hc d hd => ⟨fun _ => ?_, hopen c hc⟩⟩
    rw [List.mem_singleton.1 hd]
    trivial
  · show ∀ c ∈ t.calls.toList, c.Proper
    rw [hlist]
    intro c hc
    obtain hc | hc := List.mem_append.1 hc
    · exact h.proper c hc
    · rw [List.mem_singleton.1 hc]
      trivial
  · exact ⟨fun _ => .inr rfl, fun _ => rfl⟩
  · show true = true ↔ ∃ c ∈ t.calls.toList, c.Closes
    rw [hlist]
    exact ⟨fun _ => ⟨_, List.mem_append_right _ List.mem_cons_self, trivial⟩, fun _ => rfl⟩

theorem quiet (h : Disciplined r) (b : Buffer) : Disciplined { r with buffer := b } :=
  ⟨h.order, h.proper, h.ended_iff, h.closed_iff⟩

end Disciplined

/-! ## moves and paths -/

section
variable [Source σ ε] {cs : List (Option Char)}

theorem Move.disciplined (m : Move cs r s) (h : Disciplined r) : Disciplined s := by
  have hended : ∀ {q : Reader (Traced σ ε)}, q.isDry = false → (q.ended = true ↔ False) := by
    intro q hq
    rw [(Bool.or_eq_false_iff.1 hq).1]
    exact ⟨Bool.false_ne_true, False.elim⟩
  cases m with
  | pulled hr _ hs _ => exact h.called hr (Traced.calls_of_ok hs) trivial id (hended hr) _
  | ended hr _ hs => exact h.called hr (Traced.calls_of_ok hs) trivial id (iff_of_true rfl trivial) _
  | failed hr _ hs => exact h.called hr (Traced.calls_of_error hs) trivial id (hended hr) _
  | taken _ => exact h.quiet _
  | passed hd hs => exact h.called hd.wet (Traced.calls_of_ok hs) trivial id (hended hd.wet) _
  | @wrote _ room b t e hd hpos hs he =>
    refine h.called hd.wet (Traced.calls_of_readInto hs) hpos id (he.trans ?_) _
    cases b with
    | ended => exact iff_of_true rfl trivial
    | read cs => exact iff_of_false nofun id
    | failed cs e => exact iff_of_false nofun id
  | dropped hd hpos hs => exact h.called hd.wet (Traced.calls_of_ok hs) hpos id (hended hd.wet) _
  | notDropped hd hpos hs =>
    exact h.called hd.wet (Traced.calls_of_error hs) hpos id (hended hd.wet) _
  | @asked _ x hr _ hs =>
    cases x with
    | ok b t => exact h.called hr (Traced.calls_of_ok hs) trivial id (hended hr) _
    | error e t => exact h.called hr (Traced.calls_of_error hs) trivial id (hended hr) _

theorem Path.disciplined (p : Path cs r s) (h : Disciplined r) : Disciplined s := by
  induction p with
  | refl r => exact h
  | tail _ m ih => exact m.disciplined (ih h)

/-! ## operations and runs -/

variable (rules : Rules) (limit : Nat)

theorem Op.disciplined (op : Op) (hv : r.buffer.Valid) (h : Disciplined r) :
    Disciplined (op.run rules limit r).2 := by
  by_cases hop : op.Forward
  · obtain ⟨_, hp, -⟩ := Op.told rules limit hop hv
    exact hp.disciplined h
  · cases op with
    | mark n =>
      rw [Op.run_mark]
      by_cases hn : r.capacity < n
      · rw [if_pos hn]
        exact h
      · rw [if_neg hn]
        exact h.quiet _
    | reset =>
      rw [Op.run_reset]
      cases hp : r.buffer.window.past with
      | none =>
        rw [reset_none hp]
        exact h
      | some p =>
        obtain ⟨b, hb, -⟩ := reset_some (ε := ε) hv hp
        rw [hb]
        exact h.quiet b
    | close =>
      rw [Op.run_step (x := Reader.close) r (fun _ => .done) rfl, close_eq]
      by_cases hc : r.closed = true
      · rw [if_pos hc]
        exact ⟨h.order, h.proper, iff_of_true rfl (.inr rfl), iff_of_true rfl (h.closed_iff.1 hc)⟩
      · rw [if_neg hc]
        have hopen : r.closed = false := by simpa using hc
        unfold onSource
        cases hx : Source.close r.source with
        | ok _ t => exact h.closing hopen (Traced.calls_of_ok hx) _
        | error e t => exact h.closing hopen (Traced.calls_of_error hx) _
    | _ => exact absurd trivial hop

/-- over a whole run the calls are in order, and the reader is closed when it was asked to be -/
theorem run_disciplined (ops : List Op) (hv : r.buffer.Valid) (h : Disciplined r) :
    Disciplined (run rules limit ops r).2 ∧
      ((run rules limit ops r).2.closed = true ↔ r.closed = true ∨ Op.close ∈ ops) := by
  induction ops generalizing r with
  | nil => exact ⟨h, by simp [run]⟩
  | cons op ops ih =>
    have hclosed := op.closed_run (ε := ε) rules limit hv
    obtain ⟨hend, hiff⟩ := ih (op.valid_run rules limit hv).1 (op.disciplined rules limit hv h)
    rw [run_cons]
    refine ⟨hend, hiff.trans ?_⟩
    rw [hclosed, or_assoc, List.mem_cons, @eq_comm _ op]

end

end Lookahead.Reader
