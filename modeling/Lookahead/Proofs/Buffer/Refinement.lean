import Lookahead.Proofs.Buffer.Stands
import Lookahead.Source.Bulk

/-!
# Runs on a ring

A ring and its window answer every operation alike, and so a run of requests, with copies saved and
restored in between, gives the same answers on the slots of a ring as on the two lists of a window.

* `Buffer.Stands.apply`        one operation keeps the ring and the window together;
* `Buffer.Session.Stands.run`  so does a run;
* `Buffer.ring_is_window`      what is seen of a ring after any run is what is seen of the window.
-/

namespace Lookahead.Buffer

variable {b : Buffer} {n : Nat} {w : Window}

/-! ## one operation -/

theorem Stands.reply {α : Type} (h : Stands n b w) (say : α → Reply)
    {x : EStateM BufferError Buffer α} {y : EStateM BufferError Window α}
    (hxy : Agree (Stands n) x y) : Beside (Stands n) (Reply.of say x b) (Reply.of say y w) := by
  unfold Reply.of
  obtain ⟨a, b', w', hx, hy, hr⟩ | ⟨e, b', w', hx, hy, hr⟩ := (hxy b w h).cases
  · rw [hx, hy]
    exact ⟨rfl, hr⟩
  · rw [hx, hy]
    exact ⟨rfl, hr⟩

/-- an operation answers alike on a ring and on its window and keeps them together -/
theorem Stands.apply (h : Stands n b w) (op : Op) :
    Beside (Stands n) (op.apply b) (Window.apply n op w) := by
  cases op with
  | add c => exact h.reply _ (agree_add c)
  | addAll cs => exact h.reply _ (agree_addAll cs)
  | remove => exact h.reply _ agree_remove
  | advance k => exact h.reply _ (agree_advance k)
  | peekAt i => exact ⟨congrArg Reply.char (h.peekAt i), h⟩
  | drain room =>
    obtain ⟨hcs, hb⟩ := h.drain room
    exact ⟨congrArg Reply.drained hcs, hb⟩
  | setMark limit => exact h.reply _ (agree_setMark limit)
  | resetToMark => exact h.reply _ agree_resetToMark
  | clearMark => exact ⟨rfl, h.clearMark⟩
  | clear => exact ⟨rfl, h.clear⟩
  | capacity => exact ⟨congrArg Reply.count h.capacity, h⟩

/-- one operation is refused without leaving a trace; a list of additions keeps the first ones -/
theorem apply_of_failed {op : Op} (hop : ∀ cs, op ≠ .addAll cs) {e : BufferError}
    (h : (op.apply b).1 = .failed e) : (op.apply b).2 = b := by
  cases op with
  | add c =>
    simp only [Op.apply, Reply.of, add] at h ⊢
    by_cases hf : b.isFull = true
    · rw [if_pos hf]
    · rw [if_neg hf] at h
      by_cases hm : b.markAtTail = true
      · rw [if_pos hm] at h; cases h
      · rw [if_neg hm] at h; cases h
  | addAll cs => exact absurd rfl (hop cs)
  | remove =>
    simp only [Op.apply, Reply.of, remove] at h ⊢
    by_cases hf : b.isEmpty = true
    · rw [if_pos hf]
    · rw [if_neg hf] at h; cases h
  | advance k =>
    simp only [Op.apply, Reply.of, advance] at h ⊢
    by_cases hf : b.count < k
    · rw [if_pos hf]
    · rw [if_neg hf] at h; cases h
  | setMark limit =>
    simp only [Op.apply, Reply.of, setMark] at h ⊢
    by_cases hf : b.capacity < limit
    · rw [if_pos hf]
    · rw [if_neg hf] at h; cases h
  | resetToMark =>
    simp only [Op.apply, Reply.of, resetToMark] at h ⊢
    cases hm : b.mark with
    | none => rfl
    | some m => rw [hm] at h; cases h
  | peekAt i => rfl
  | drain room => cases h
  | clearMark => cases h
  | clear => cases h
  | capacity => rfl

/-! ## runs -/

namespace Session

/-- the store and the saved copy of one session stand for those of the other -/
def Stands (n : Nat) (s : Session Buffer) (t : Session Window) : Prop :=
  Buffer.Stands n s.current t.current ∧
    match s.saved, t.saved with
    | none, none => True
    | some b, some w => Buffer.Stands n b w
    | _, _ => False

theorem Stands.step {s : Session Buffer} {t : Session Window} (h : Stands n s t) (q : Request) :
    Beside (Stands n) (step Op.apply q s) (step (Window.apply n) q t) := by
  obtain ⟨hcur, hsaved⟩ := h
  cases q with
  | op o =>
    obtain ⟨hr, hb⟩ := hcur.apply o
    exact ⟨congrArg Answer.reply hr, hb, hsaved⟩
  | save => exact ⟨rfl, hcur, hcur⟩
  | load =>
    obtain ⟨b, sb⟩ := s
    obtain ⟨w, sw⟩ := t
    match sb, sw with
    | none, none => exact ⟨rfl, hcur, trivial⟩
    | some b', some w' => exact ⟨rfl, hsaved, hsaved⟩

theorem Stands.run {s : Session Buffer} {t : Session Window} (h : Stands n s t)
    (qs : List Request) :
    Beside (Stands n) (run Op.apply qs s) (run (Window.apply n) qs t) := by
  induction qs generalizing s t with
  | nil => exact ⟨rfl, h⟩
  | cons q qs ih =>
    obtain ⟨ha, hs⟩ := h.step q
    obtain ⟨has, hss⟩ := ih hs
    rw [run_cons, run_cons, ha, has]
    exact ⟨rfl, hss⟩

end Session

/-- **A ring of slots is a bounded queue with a replayable past.**  Whatever is asked of a new ring,
saving and restoring copies included, it answers as the window does that starts with nothing; after
every run its size, its emptiness, fullness and mark, every character that can be looked at and what
a destination holds after draining are those of the window, what is worth keeping fits into the
slots, and an operation that is refused changes nothing. -/
theorem ring_is_window (hn : 0 < n) (qs : List Request) :
    ∃ b₀, create n = .ok b₀ ∧
      let ring := Session.run Op.apply qs (Session.start b₀)
      let view := Session.run (Window.apply n) qs (Session.start Window.empty)
      let b := ring.2.current
      let w := view.2.current
      ring.1 = view.1 ∧ w.size ≤ n ∧ b.count = w.queue.length ∧ b.isEmpty = w.isEmpty ∧
        b.isFull = w.isFull n ∧ b.isMarked = w.isMarked ∧ (∀ i, b.peekAt i = w.peekAt i) ∧
        (∀ dst : List Char, (Bulk.read (b.drain dst.length).1 : Bulk Empty).fill dst =
          w.queue.take dst.length ++ dst.drop (min dst.length w.queue.length)) ∧
        ∀ op : Op, (∀ cs, op ≠ .addAll cs) → ∀ e, (op.apply b).1 = .failed e →
          (op.apply b).2 = b ∧ (Window.apply n op w).2 = w := by
  refine ⟨Buffer.ofCapacity n, if_neg (Nat.ne_of_gt hn), ?_⟩
  obtain ⟨hans, hst, -⟩ := Session.Stands.run
    (s := Session.start (Buffer.ofCapacity n)) (t := Session.start Window.empty)
    ⟨Stands.ofCapacity hn, trivial⟩ qs
  refine ⟨hans, hst.size_le, hst.count, hst.isEmpty, hst.isFull, hst.isMarked, hst.peekAt, ?_, ?_⟩
  · intro dst
    rw [(hst.drain dst.length).1, Bulk.fill, Bulk.written, List.length_take]
  · intro op hop e he
    have hb := apply_of_failed hop he
    have hw := (hst.apply op).2.window
    rw [hb, hst.window] at hw
    exact ⟨hb, hw.symm⟩

/-- three slots: a mark holds until the character after the third one comes -/
theorem ring_is_window_abcd : 0 < 3 ∧ ∃ b₀, create 3 = .ok b₀ ∧
    (Session.run Op.apply [.op (.setMark 3), .op (.addAll ['a', 'b', 'c']), .op .remove, .save,
      .op (.add 'd'), .op .resetToMark, .load, .op .resetToMark, .op (.drain 2)]
      (Session.start b₀)).1 =
      [.reply .done, .reply .done, .reply (.char 'a'), .saved, .reply .done,
        .reply (.failed .invalidMark), .loaded true, .reply .done,
        .reply (.drained ['a', 'b'])] := by
  refine ⟨by decide, ?_⟩
  obtain ⟨b₀, hb, hans, -⟩ := ring_is_window (n := 3) (by decide) [.op (.setMark 3),
    .op (.addAll ['a', 'b', 'c']), .op .remove, .save, .op (.add 'd'), .op .resetToMark, .load,
    .op .resetToMark, .op (.drain 2)]
  exact ⟨b₀, hb, hans.trans (by decide)⟩

end Lookahead.Buffer
