import Lookahead.Proofs.Reader.Resumes

/-!
# What a reader does over again

All that looks ahead, and reading one character, can be asked for again after a failure of the
source.  What is let go of, marked or gone back to is so only after everything that could fail.

* `resumes_fill`, `settles_fill`     pulling characters into the buffer;
* `recovers`                         the tests resume, and settle when they succeed;
* `resumes_read`                     reading one character resumes;
* `Op.Repeatable`, `Op.resumes`      so do these operations.
-/

namespace Lookahead

open Scan (step)

namespace Reader

variable {σ τ ε α : Type} {R : List ε → σ → τ → Prop} {es : List ε} {r : Reader σ}
  {q p o : Reader τ} {reach n k : Nat}

/-! ## pulling -/

/-- `p` is `q` with these characters pulled -/
structure Pulled (cs : List Char) (q p : Reader τ) : Prop where
  capacity : p.capacity = q.capacity
  held : p.buffer.toList = q.buffer.toList ++ cs

namespace Pulled
variable {cs : List Char}

theorem nil (h : p.buffer = q.buffer) : Pulled [] q p :=
  ⟨congrArg Buffer.capacity h, by rw [h, List.append_nil]⟩

theorem add (hv : q.buffer.Valid) {c : Char} {b : Buffer} (hb : Buffer.add c q.buffer = .ok () b)
    {t : τ} (h : Pulled cs { q with source := t, buffer := b } p) : Pulled (c :: cs) q p := by
  have hst := hv.stands.add hb
  refine ⟨h.capacity.trans hst.capacity, ?_⟩
  rw [h.held]
  show b.toList ++ cs = q.buffer.toList ++ c :: cs
  rw [hst.toList, List.append_assoc]
  rfl

theorem buffered (h : Pulled cs q p) : p.buffered = q.buffered + cs.length := by
  have := congrArg List.length h.held
  rwa [List.length_append, Buffer.length_toList, Buffer.length_toList] at this

theorem further (h : Pulled cs q p) (hwet : q.isDry = false)
    (hroom : reach ≤ q.buffered → cs = []) : Further reach q p where
  capacity := h.capacity
  held := ⟨cs, h.held.symm⟩
  full hq := by rw [h.held, hroom hq, List.append_nil]
  dry hq := by
    rw [hwet] at hq
    cases hq

end Pulled

section
variable [Source σ ε] [Source τ ε]

theorem pullMore_ok (hv : q.buffer.Valid) (h : pullMore k q = .ok () p) :
    p.buffer.Valid ∧ ∃ cs, Pulled cs q p ∧ cs.length ≤ k ∧ (p.isDry = true ∨ cs.length = k) := by
  induction k generalizing q with
  | zero =>
    cases h
    exact ⟨hv, [], Pulled.nil rfl, Nat.le_refl 0, .inr rfl⟩
  | succ k ih =>
    rw [pullMore_succ] at h
    cases ht : Source.readChar q.source with
    | error e t =>
      rw [ht] at h
      cases h
    | ok c t =>
      rw [ht] at h
      cases c with
      | none =>
        cases h
        exact ⟨hv, [], Pulled.nil rfl, Nat.zero_le _, .inl rfl⟩
      | some c =>
        dsimp only at h
        cases hb : Buffer.add c q.buffer with
        | error e b =>
          rw [hb] at h
          cases h
        | ok _ b =>
          rw [hb] at h
          obtain ⟨hv', cs, hpulled, hle, hend⟩ := ih (hv.stands.add hb).valid h
          exact ⟨hv', c :: cs, hpulled.add hv hb, Nat.succ_le_succ hle,
            hend.imp_right (congrArg (· + 1))⟩

/-- pulling that fails has pulled some characters, and pulling the others does the rest -/
theorem resumed_pullMore (hR : Source.Mended R) (h : Awaits R es r q) :
    Resumed ReadError.failure? (Awaits R) es (fun p => ∃ cs, Pulled cs q p ∧
      (cs = [] → p.buffer = q.buffer) ∧ p.isDry = q.isDry ∧ cs.length < k ∧
      pullMore (k - cs.length) p = pullMore k q)
      (pullMore k q) (pullMore k r) := by
  induction k generalizing r q with
  | zero => exact .ok rfl rfl h
  | succ k ih =>
    rw [pullMore_succ r]
    cases hs : Source.readChar r.source with
    | error e s =>
      -- nothing was pulled here, so that as many characters are to be pulled as before
      obtain ⟨fs, t, rfl, hfs, hagain⟩ := hR.error h.source hs
      refine .failed rfl rfl rfl (h.withSource hfs)
        ⟨[], Pulled.nil rfl, fun _ => rfl, rfl, Nat.succ_pos k, ?_⟩
      show pullMore (k + 1) { q with source := t } = pullMore (k + 1) q
      rw [pullMore_succ, pullMore_succ]
      dsimp only
      rw [hagain]
    | ok c s =>
      obtain ⟨t, ht, hst⟩ := hR.ok h.source hs
      have hq := pullMore_succ q k
      rw [ht] at hq
      cases c with
      | none =>
        rw [hq]
        exact .ok rfl rfl ((h.withSource hst).withEnded true)
      | some c =>
        dsimp only at hq ⊢
        rw [h.buffer]
        cases hb : Buffer.add c q.buffer with
        | error e b =>
          rw [hb] at hq
          rw [hq]
          have hv : b.Valid := by
            obtain ⟨_, _, _, hno, _⟩ | ⟨_, b', _, hb', _, hst⟩ :=
              (Buffer.agree_add c _ _ h.valid.stands).cases
            · rw [hb] at hno
              cases hno
            · cases hb.symm.trans hb'
              exact hst.valid
          exact .refused rfl rfl rfl ((h.withSource hst).withBuffer hv)
        | ok _ b =>
          rw [hb] at hq
          rw [hq]
          refine (ih ((h.withSource hst).withBuffer (h.valid.stands.add hb).valid)).imp ?_
          rintro p ⟨cs, hpulled, -, hdry, hlt, hagain⟩
          refine ⟨c :: cs, hpulled.add h.valid hb, nofun, hdry, Nat.succ_lt_succ hlt, ?_⟩
          rw [List.length_cons, Nat.add_sub_add_right]
          exact hagain

/-! ## looking ahead -/

theorem fill_ok (hv : q.buffer.Valid) (h : fill n q = .ok () p) :
    p.buffer.Valid ∧ Further n q p ∧ n ≤ p.capacity ∧ (p.isDry = true ∨ n ≤ p.buffered) := by
  rw [fill_eq] at h
  by_cases hc : q.capacity < n
  · rw [if_pos hc] at h
    cases h
  · rw [if_neg hc] at h
    by_cases hd : q.isDry = true
    · rw [if_pos hd] at h
      cases h
      exact ⟨hv, Further.refl n q, Nat.le_of_not_lt hc, .inl hd⟩
    · rw [if_neg hd] at h
      obtain ⟨hv', cs, hpulled, hle, hend⟩ := pullMore_ok hv h
      have hbuffered := hpulled.buffered
      refine ⟨hv', hpulled.further (by simpa using hd) fun hq => ?_, ?_, hend.imp_right ?_⟩
      · exact List.eq_nil_of_length_eq_zero (by omega)
      · rw [hpulled.capacity]
        exact Nat.le_of_not_lt hc
      · omega

/-- what was looked at once is there from further on -/
theorem fill_further (hcapacity : n ≤ p.capacity) (hp : p.isDry = true ∨ n ≤ p.buffered)
    (h : Further reach p o) : fill n o = .ok () o := by
  rw [fill_eq, if_neg (by rw [h.capacity]; exact Nat.not_lt.2 hcapacity)]
  by_cases hd : o.isDry = true
  · rw [if_pos hd]
  · rw [if_neg hd]
    have hle : n ≤ o.buffered := by
      obtain hp | hp := hp
      · exact absurd (h.dry hp).1 hd
      · exact Nat.le_trans hp h.buffered_le
    rw [Nat.sub_eq_zero_of_le hle]
    rfl

theorem settles_fill (hn : n ≤ reach) : Settles reach (fill n : Step τ ε Unit) := by
  intro q _ p hv h
  obtain ⟨hv', hfar, hcapacity, hp⟩ := fill_ok hv h
  exact ⟨hv', hfar.mono hn, fun o ho => fill_further hcapacity hp ho⟩

theorem peekAt_further (h : Further maxCount p o)
    (hp : p.isDry = true ∨ min (n + 1) maxCount ≤ p.buffered) :
    o.buffer.peekAt n = p.buffer.peekAt n := by
  rw [Buffer.peekAt_eq_getElem?, Buffer.peekAt_eq_getElem?]
  by_cases hn : n < p.buffer.toList.length
  · obtain ⟨cs, hcs⟩ := h.held
    rw [← hcs, List.getElem?_append_left hn]
  · obtain hp | hp := hp
    · rw [(h.dry hp).2]
    · rw [Buffer.length_toList] at hn
      rw [h.full (show maxCount ≤ p.buffer.count from by
        have : min (n + 1) maxCount ≤ p.buffer.count := hp
        omega)]

theorem settles_peekNth (n : Nat) : Settles maxCount (peekNth n : Step τ ε (Option Char)) := by
  intro q c p hv h
  rw [peekNth_eq] at h
  cases hx : fill (min (n + 1) maxCount) q with
  | error e p =>
    rw [hx] at h
    cases h
  | ok _ p =>
    rw [hx] at h
    cases h
    obtain ⟨hv', hfar, hcapacity, hp⟩ := fill_ok hv hx
    refine ⟨hv', hfar.mono (Nat.min_le_right _ _), fun o ho => ?_⟩
    rw [peekNth_eq, fill_further hcapacity hp ho]
    dsimp only
    rw [peekAt_further ho hp]

theorem resumed_fill (hR : Source.Mended R) (h : Awaits R es r q) (n : Nat) :
    Resumed ReadError.failure? (Awaits R) es (fun p => ∃ cs, Pulled cs q p ∧
      (cs = [] → p.buffer = q.buffer) ∧ q.isDry = false ∧ cs.length < n - q.buffered ∧
      fill n p = fill n q) (fill n q) (fill n r) := by
  have hq := fill_eq q n
  rw [fill_eq r, h.capacity, h.isDry, h.buffered]
  by_cases hc : q.capacity < n
  · rw [if_pos hc] at hq ⊢
    rw [hq]
    exact .refused rfl rfl rfl h
  · rw [if_neg hc] at hq ⊢
    by_cases hd : q.isDry = true
    · rw [if_pos hd] at hq ⊢
      rw [hq]
      exact .ok rfl rfl h
    · rw [if_neg hd] at hq ⊢
      rw [hq]
      refine (resumed_pullMore hR h).imp ?_
      rintro p ⟨cs, hpulled, hnone, hdry, hlt, hagain⟩
      refine ⟨cs, hpulled, hnone, by simpa using hd, hlt, ?_⟩
      rw [fill_eq, hpulled.capacity, hdry, if_neg hc, if_neg hd, hpulled.buffered,
        ← Nat.sub_sub]
      exact hagain

theorem resumes_fill (hR : Source.Mended R) (hn : n ≤ reach) :
    Resumes ReadError.failure? R reach (fill n : Step σ ε Unit) (fill n) := by
  intro es r q h
  refine (resumed_fill hR h n).imp ?_
  rintro p ⟨cs, hpulled, -, hwet, hlt, hagain⟩
  refine ⟨hpulled.further hwet fun hq => ?_, hagain⟩
  exact List.eq_nil_of_length_eq_zero (by omega)

theorem resumes_peekNth (hR : Source.Mended R) (n : Nat) :
    Resumes ReadError.failure? R maxCount (peekNth n : Step σ ε (Option Char)) (peekNth n) := by
  refine (resumes_fill hR (Nat.min_le_right _ _)).bind (settles_fill (Nat.min_le_right _ _)) ?_
  intro _ es r q h
  show Resumed _ (Awaits R) es _ (.ok (q.buffer.peekAt n) q) (.ok (r.buffer.peekAt n) r)
  rw [h.buffer]
  exact .ok rfl rfl h

theorem recovers (hR : Source.Mended R) :
    ForTests (σ := σ) (τ := τ) (ε := ε) (δ := ε) (fun x y => Recovers R x y) where
  pure a := ⟨resumes_pure a, settles_pure a⟩
  bind h k :=
    ⟨h.resumes.bind h.settles fun a => (k a).resumes, h.settles.bind fun a => (k a).settles⟩
  peekNth n := ⟨resumes_step (resumes_peekNth hR n), settles_step (settles_peekNth n)⟩

/-! ## reading -/

theorem resumed_takeBuffered (hR : Source.Mended R) (h : Awaits R es r q) :
    Resumed ReadError.failure? (Awaits R) es
      (fun p => p.buffer = q.buffer ∧ q.isDry = false ∧ takeBuffered p = takeBuffered q)
      (takeBuffered q : EStateM.Result (ReadError ε) _ _) (takeBuffered r) := by
  have hq := takeBuffered_eq (ε := ε) q
  rw [takeBuffered_eq r]
  cases resumed_fill hR h 1 with
  | @ok _ r' q' hr' hq' h' =>
    rw [hq'] at hq
    rw [hr', hq]
    dsimp only
    rw [h'.buffer]
    by_cases hempty : q'.buffer.isEmpty = true
    · rw [if_pos hempty, if_pos hempty]
      exact .ok rfl rfl h'
    · rw [if_neg hempty, if_neg hempty]
      have hpos : 1 ≤ q'.buffer.count :=
        Nat.pos_of_ne_zero fun h0 => hempty (Buffer.isEmpty_iff.2 h0)
      exact .ok rfl rfl (h'.withBuffer (h'.valid.consume hpos))
  | refused hr' hq' hd h' =>
    rw [hq'] at hq
    rw [hr', hq]
    exact .refused rfl rfl hd h'
  | failed hr' hd hes h' moved =>
    -- one character was asked for, so that none was pulled before the failure
    obtain ⟨cs, -, hnone, hwet, hlt, hagain⟩ := moved
    rw [hr']
    refine .failed rfl hd hes h' ⟨hnone (List.eq_nil_of_length_eq_zero (by omega)), hwet, ?_⟩
    rw [takeBuffered_eq, takeBuffered_eq, hagain]

theorem resumed_pull (hR : Source.Mended R) (h : Awaits R es r q) :
    Resumed ReadError.failure? (Awaits R) es
      (fun p => p.buffer = q.buffer ∧ q.isDry = false ∧ pull p = pull q)
      (pull q : EStateM.Result (ReadError ε) _ _) (pull r) := by
  have hq := pull_eq (ε := ε) q
  rw [pull_eq r, h.isDry]
  by_cases hd : q.isDry = true
  · rw [if_pos hd] at hq ⊢
    rw [hq]
    exact .ok rfl rfl h
  · rw [if_neg hd] at hq ⊢
    cases hs : Source.readChar r.source with
    | error e s =>
      obtain ⟨fs, t, rfl, hfs, hagain⟩ := hR.error h.source hs
      refine .failed rfl rfl rfl (h.withSource hfs) ⟨rfl, by simpa using hd, ?_⟩
      have hwet : ¬ ({ q with source := t } : Reader τ).isDry = true := hd
      rw [pull_eq, if_neg hwet, hq]
      dsimp only
      rw [hagain]
    | ok c s =>
      obtain ⟨t, ht, hst⟩ := hR.ok h.source hs
      rw [ht] at hq
      rw [hq]
      cases c with
      | none => exact .ok rfl rfl ((h.withSource hst).withEnded true)
      | some c => exact .ok rfl rfl (h.withSource hst)

theorem resumes_read (hR : Source.Mended R) :
    Resumes ReadError.failure? R reach (read : Step σ ε (Option Char)) read := by
  intro es r q h
  have hq := read_eq (ε := ε) q
  rw [read_eq r, h.buffer]
  by_cases he : q.buffer.isEmpty = true
  · rw [if_pos he] at hq ⊢
    by_cases hm : q.buffer.isMarked = true
    · rw [if_pos hm] at hq ⊢
      rw [hq]
      refine (resumed_takeBuffered hR h).imp ?_
      rintro p ⟨hb, hwet, hagain⟩
      refine ⟨(Pulled.nil hb).further hwet fun _ => rfl, ?_⟩
      rw [read_eq, hb, if_pos he, if_pos hm, hagain]
    · rw [if_neg hm] at hq ⊢
      rw [hq]
      refine (resumed_pull hR h).imp ?_
      rintro p ⟨hb, hwet, hagain⟩
      refine ⟨(Pulled.nil hb).further hwet fun _ => rfl, ?_⟩
      rw [read_eq, hb, if_pos he, if_neg hm, hagain]
  · rw [if_neg he] at hq ⊢
    rw [hq]
    have hpos : 1 ≤ q.buffer.count := Nat.pos_of_ne_zero fun h0 => he (Buffer.isEmpty_iff.2 h0)
    exact .ok rfl rfl (h.withBuffer (h.valid.consume hpos))

/-! ## operations -/

/-- the operations that look ahead, read one character or what a test has found, mark and go back -/
def Op.Repeatable : Op → Prop
  | .skipComment => False
  | .skipTrivia => False
  | .readInto _ => False
  | .skip _ => False
  | .ready => False
  | .chars _ => False
  | .rest => False
  | .close => False
  | _ => True

theorem Op.resumes (hR : Source.Mended R) (rules : Rules) (limit : Nat) {op : Op}
    (hop : op.Repeatable) : ∃ reach, Resumes Halt.failure? R reach
      (op.perform rules limit : Scan σ ε _) (op.perform rules limit) := by
  have h := recovers (σ := σ) (τ := τ) hR
  cases op with
  | fill n => exact ⟨n, (resumes_step (resumes_fill hR (Nat.le_refl n))).map _⟩
  | peek => exact ⟨_, h.peek.resumes.map _⟩
  | peekNth n => exact ⟨_, (h.peekNth n).resumes.map _⟩
  | read => exact ⟨0, (resumes_step (resumes_read hR)).map _⟩
  | atChar c => exact ⟨_, (h.atNth 0 c).resumes.map _⟩
  | atNth n c => exact ⟨_, (h.atNth n c).resumes.map _⟩
  | atText s => exact ⟨_, (h.atText s).resumes.map _⟩
  | atWord w => exact ⟨_, (h.atWord rules w).resumes.map _⟩
  | atComment => exact ⟨_, (h.atComment rules).resumes.map _⟩
  | atEnd => exact ⟨_, h.atEnd.resumes.map _⟩
  | atLineEnd => exact ⟨_, (h.atLineEnd rules).resumes.map _⟩
  | atBlank => exact ⟨_, (h.atBlank rules).resumes.map _⟩
  | acceptChar c => exact ⟨_, ((h.atNth 0 c).accepting 1).map _⟩
  | acceptText s => exact ⟨_, ((h.atText s).accepting s.length).map _⟩
  | acceptWord w => exact ⟨_, ((h.atWord rules w).accepting w.length).map _⟩
  | acceptBlank => exact ⟨_, ((h.atBlank rules).accepting 1).map _⟩
  | mark n =>
    exact ⟨0, (resumes_step (resumes_onBuffer fun _ => Buffer.agree_setMark n)).map _⟩
  | reset =>
    exact ⟨0, (resumes_step (resumes_onBuffer fun _ => Buffer.agree_resetToMark)).map _⟩
  | _ => exact hop.elim

end

end Reader

end Lookahead
