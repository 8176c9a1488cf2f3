import Lookahead.Proofs.Reader.Passing

/-!
# Operations follow paths

Every operation of a reader but `mark`, `reset` and `close` follows a path, scans that fail or are
cut short among them, and its outcome tells what was passed over on the way.

* `Op.Forward`   the operations that follow a path;
* `Op.Tells`     what an outcome says of the characters passed over and of those still held;
* `Op.told`      every operation that neither goes back nor closes follows a path, as it tells.
-/

namespace Lookahead.Reader

variable {σ ε : Type} [Source σ ε] {r : Reader σ}

/-! ## scans -/

theorem Drifts.step {α : Type} {x : Step σ ε α} (h : Drifts x) : Drifts (Scan.step x) := by
  intro r
  rw [finalState_step]
  exact h r

theorem drifts_advance (n : Nat) : Drifts (onBuffer (Buffer.advance n) : Step σ ε Unit) := by
  intro r
  show ∃ cs, Path cs r (finalState (onBuffer (Buffer.advance n) r))
  unfold onBuffer Buffer.advance
  by_cases hn : r.buffer.count < n
  · simp only [if_pos hn]
    exact ⟨[], Path.refl r⟩
  · simp only [if_neg hn]
    obtain ⟨cs, -, hp⟩ := taken_path (Nat.le_of_not_lt hn)
    exact ⟨cs, hp⟩

theorem drifts_read : Drifts (read : Step σ ε (Option Char)) := by
  have hremove : ∀ r : Reader σ, ¬ r.buffer.isEmpty = true →
      ∃ cs, Path cs r { r with buffer := r.buffer.consume 1 } := by
    intro r he
    obtain ⟨cs, -, hp⟩ := taken_path (Nat.pos_of_ne_zero (mt Buffer.isEmpty_iff.2 he))
    exact ⟨cs, hp⟩
  intro r
  rw [read_eq]
  by_cases he : r.buffer.isEmpty = true
  · rw [if_pos he]
    by_cases hm : r.buffer.isMarked = true
    · rw [if_pos hm, takeBuffered_eq]
      have hf := looks_fill (ε := ε) 1 r
      cases hx : fill 1 r with
      | error e s =>
        rw [hx] at hf
        exact ⟨[], hf⟩
      | ok _ s =>
        rw [hx] at hf
        dsimp only
        by_cases hs : s.buffer.isEmpty = true
        · rw [if_pos hs]
          exact ⟨[], hf⟩
        · rw [if_neg hs]
          obtain ⟨cs, hp⟩ := hremove s hs
          exact ⟨cs, Path.after hf hp⟩
    · rw [if_neg hm]
      have hp := pull_path (ε := ε) he (by simpa using hm)
      cases hx : pull r with
      | error e s =>
        rw [hx] at hp
        exact ⟨[], hp⟩
      | ok o s =>
        rw [hx] at hp
        exact ⟨one o, hp⟩
  · rw [if_neg he]
    exact hremove r he

theorem drifts : ForScans (σ := σ) (τ := σ) (ε := ε) (δ := ε) (fun x _ => Drifts x) where
  pure a := (looks_pure a).drifts
  bind hx hf := hx.bind hf
  peekNth n := (looks_peekNth n).drifts.step
  unfinished := fun r => ⟨[], Path.refl r⟩
  advance n := (drifts_advance n).step
  read := drifts_read.step

theorem iterate_restRound_path (limit : Nat) (taken : List Char) (h : r.buffer.Valid) :
    match Scan.iterate (restRound (ε := ε)) limit taken r with
    | .ok cs s => ∃ ds, cs = taken.reverse ++ ds ∧ Path (ds.map some) r s ∧ s.buffer.toList = []
    | .error _ s => ∃ cs, Path cs r s := by
  induction limit generalizing taken r with
  | zero => exact ⟨[], Path.refl r⟩
  | succ limit ih =>
    have hr := read_path (ε := ε) h
    rw [iterate_restRound]
    cases hx : read (ε := ε) r with
    | error e s =>
      rw [hx] at hr
      exact ⟨[], hr⟩
    | ok o s =>
      rw [hx] at hr
      cases o with
      | none => exact ⟨[], (List.append_nil _).symm, hr, read_none hx⟩
      | some c =>
        have hs := ih (c :: taken) (Path.valid hr h)
        show match Scan.iterate (restRound (ε := ε)) limit (c :: taken) s with
          | .ok cs t => ∃ ds, cs = taken.reverse ++ ds ∧ Path (ds.map some) r t ∧
              t.buffer.toList = []
          | .error _ t => ∃ cs, Path cs r t
        cases hy : Scan.iterate (restRound (ε := ε)) limit (c :: taken) s with
        | ok cs t =>
          rw [hy] at hs
          obtain ⟨ds, rfl, hp, hheld⟩ := hs
          refine ⟨c :: ds, ?_, Path.trans hr hp, hheld⟩
          rw [List.reverse_cons, List.append_assoc]
          rfl
        | error e t =>
          rw [hy] at hs
          obtain ⟨cs, hp⟩ := hs
          exact ⟨[some c] ++ cs, Path.trans hr hp⟩

theorem looks_ready : Looks (ready : Step σ ε Bool) := by
  intro r
  rw [ready_eq]
  by_cases he : r.buffer.isEmpty = true
  · rw [if_pos he]
    by_cases hd : r.isDry = true
    · rw [if_pos hd]
      exact Path.refl r
    · rw [if_neg hd]
      have hm := (Move.asked (by simpa using hd) he rfl).path
      unfold onSource
      cases hx : Source.ready r.source with
      | ok b s =>
        rw [hx] at hm
        exact hm
      | error e s =>
        rw [hx] at hm
        exact hm
  · rw [if_neg he]
    exact Path.refl r

/-! ## what an outcome tells -/

/-- the operations that neither go back nor close -/
def Op.Forward : Op → Prop
  | .mark _ => False
  | .reset => False
  | .close => False
  | _ => True

/-- what an outcome says of the characters passed over and of those held afterwards: what gives less
than it was asked for leaves nothing held.  A skip or a scan that fails, and a scan of trivia, does
not say how many were passed over. -/
def Op.Tells (passed held : List (Option Char)) : Op → Outcome ε → Prop
  | .read, .answer (.char c) => passed = one c ∧ (c = none → held = [])
  | .peek, .answer (.char c) => passed = [] ∧ held[0]? = c.map some
  | .peekNth n, .answer (.char c) => passed = [] ∧ held[n]? = c.map some
  | .acceptChar _, .answer (.flag b) => passed.length = if b then 1 else 0
  | .acceptText s, .answer (.flag b) => passed.length = if b then s.length else 0
  | .acceptWord w, .answer (.flag b) => passed.length = if b then w.length else 0
  | .acceptBlank, .answer (.flag b) => passed.length = if b then 1 else 0
  | .readInto room, .answer (.bulk b) =>
    passed = b.written.map some ∧ (b.result ≠ .ok (some room) → held = [])
  | .skip n, .answer (.count k) => passed.length = k ∧ (k ≠ n → held = [])
  | .skip _, .failed _ => held = []
  | .skipComment, _ => True
  | .skipTrivia, _ => True
  | .chars n, .answer (.items is) => passed = delivered is ∧ (is.length ≠ n → held = [])
  | .rest, .answer (.text cs) => passed = cs.map some ∧ held = []
  | .rest, _ => True
  | _, _ => passed = []

/-- a path was followed, and the outcome tells which -/
def Told (op : Op) (r : Reader σ) (o : Outcome ε × Reader σ) : Prop :=
  ∃ cs, Path cs r o.2 ∧ op.Tells cs (o.2.buffer.toList.map some) o.1

section
variable {op : Op} {rules : Rules} {limit : Nat} {α : Type} {x : Step σ ε α} {f : α → Answer ε}

theorem told_step (h : op.perform rules limit = f <$> Scan.step x)
    (hok : ∀ a s, x r = .ok a s → Told op r (.answer (f a), s))
    (herror : ∀ e s, x r = .error e s → Told op r (.failed e, s)) :
    Told op r (op.run rules limit r) := by
  rw [Op.run_step r f h]
  cases hx : x r with
  | ok a s => exact hok a s hx
  | error e s => exact herror e s hx

theorem told_looks (h : op.perform rules limit = f <$> Scan.step x) (hx : Looks x)
    (hok : ∀ a s, x r = .ok a s → op.Tells [] (s.buffer.toList.map some) (.answer (f a)))
    (herror : ∀ held e, op.Tells [] held (.failed e : Outcome ε)) :
    Told op r (op.run rules limit r) := by
  have hr := hx r
  refine told_step h (fun a s hs => ?_) fun e s hs => ?_
  · rw [hs] at hr
    exact ⟨[], hr, hok a s hs⟩
  · rw [hs] at hr
    exact ⟨[], hr, herror _ e⟩

theorem told_drifts {y : Scan σ ε α} (h : op.perform rules limit = f <$> y) (hy : Drifts y)
    (ht : ∀ cs held (o : Outcome ε), op.Tells cs held o) : Told op r (op.run rules limit r) := by
  obtain ⟨cs, hp⟩ := hy r
  refine ⟨cs, ?_, ht cs _ _⟩
  rw [Op.run_snd, h, finalState_map]
  exact hp

theorem told_accepting {test : Step σ ε Bool} {n : Nat}
    (h : op.perform rules limit = .flag <$> Scan.step (accepting test n)) (hx : Looks test)
    (hok : ∀ (b : Bool) cs held, cs.length = (if b then n else 0) →
      op.Tells cs held (.answer (.flag b) : Outcome ε))
    (herror : ∀ held e, op.Tells [] held (.failed e : Outcome ε)) :
    Told op r (op.run rules limit r) := by
  have hr := accepting_path hx n r
  refine told_step h (fun b s hs => ?_) fun e s hs => ?_
  · rw [hs] at hr
    cases b with
    | true =>
      obtain ⟨cs, hlen, hp⟩ := hr
      exact ⟨cs, hp, hok true cs _ hlen⟩
    | false => exact ⟨[], hr, hok false [] _ rfl⟩
  · rw [hs] at hr
    exact ⟨[], hr, herror _ e⟩

end

theorem peekNth_ok {n : Nat} {c : Option Char} {s : Reader σ} (h : peekNth n r = .ok c s) :
    (s.buffer.toList.map some)[n]? = c.map some := by
  rw [peekNth_eq] at h
  cases hx : fill (min (n + 1) maxCount) r with
  | error e t =>
    rw [hx] at h
    cases h
  | ok _ t =>
    rw [hx] at h
    cases h
    rw [List.getElem?_map, ← Buffer.peekAt_eq_getElem?]

/-- an operation that neither goes back nor closes follows the path of which its outcome tells -/
theorem Op.told (rules : Rules) (limit : Nat) {op : Op} (hop : op.Forward) (h : r.buffer.Valid) :
    Told op r (op.run rules limit r) := by
  cases op with
  | mark _ => exact hop.elim
  | reset => exact hop.elim
  | close => exact hop.elim
  | fill n => exact told_looks rfl (looks_fill n) (fun _ _ _ => rfl) fun _ _ => rfl
  | peek => exact told_looks rfl looks.peek.of_step (fun _ _ hs => ⟨rfl, peekNth_ok hs⟩) fun _ _ => rfl
  | peekNth n =>
    exact told_looks rfl (looks_peekNth n) (fun _ _ hs => ⟨rfl, peekNth_ok hs⟩) fun _ _ => rfl
  | atChar c => exact told_looks rfl (looks.atNth 0 c).of_step (fun _ _ _ => rfl) fun _ _ => rfl
  | atNth n c => exact told_looks rfl (looks.atNth n c).of_step (fun _ _ _ => rfl) fun _ _ => rfl
  | atText s => exact told_looks rfl (looks.atText s).of_step (fun _ _ _ => rfl) fun _ _ => rfl
  | atWord w => exact told_looks rfl (looks.atWord rules w).of_step (fun _ _ _ => rfl) fun _ _ => rfl
  | atComment => exact told_looks rfl (looks.atComment rules).of_step (fun _ _ _ => rfl) fun _ _ => rfl
  | atEnd => exact told_looks rfl looks.atEnd.of_step (fun _ _ _ => rfl) fun _ _ => rfl
  | atLineEnd => exact told_looks rfl (looks.atLineEnd rules).of_step (fun _ _ _ => rfl) fun _ _ => rfl
  | atBlank => exact told_looks rfl (looks.atBlank rules).of_step (fun _ _ _ => rfl) fun _ _ => rfl
  | ready => exact told_looks rfl looks_ready (fun _ _ _ => rfl) fun _ _ => rfl
  | acceptChar c => exact told_accepting rfl (looks.atNth 0 c).of_step (fun _ _ _ h => h) fun _ _ => rfl
  | acceptText s => exact told_accepting rfl (looks.atText s).of_step (fun _ _ _ h => h) fun _ _ => rfl
  | acceptWord w =>
    exact told_accepting rfl (looks.atWord rules w).of_step (fun _ _ _ h => h) fun _ _ => rfl
  | acceptBlank => exact told_accepting rfl (looks.atBlank rules).of_step (fun _ _ _ h => h) fun _ _ => rfl
  | read =>
    have hr := read_path (ε := ε) h
    refine told_step rfl (fun c s hs => ?_) fun e s hs => ?_
    · rw [hs] at hr
      refine ⟨one c, hr, rfl, fun hc => ?_⟩
      subst hc
      rw [read_none hs]
      rfl
    · rw [hs] at hr
      exact ⟨[], hr, rfl⟩
  | skip n =>
    have hr := skip_path (ε := ε) n h
    have hheld := skip_held (ε := ε) n h
    refine told_step rfl (fun k s hs => ?_) fun e s hs => ?_
    · rw [hs] at hr hheld
      obtain ⟨cs, hlen, hp⟩ := hr
      exact ⟨cs, hp, hlen, fun hk => List.map_eq_nil_iff.2 (hheld hk)⟩
    · rw [hs] at hr hheld
      obtain ⟨cs, hp⟩ := hr
      exact ⟨cs, hp, List.map_eq_nil_iff.2 hheld⟩
  | readInto room =>
    exact ⟨_, readInto_path room h, rfl, fun hb => List.map_eq_nil_iff.2 (readInto_held room h hb)⟩
  | chars n =>
    exact ⟨_, chars_path n h, rfl, fun hn => List.map_eq_nil_iff.2 (chars_held n r hn)⟩
  | skipComment => exact told_drifts rfl (drifts.skipComment rules limit) fun _ _ _ => trivial
  | skipTrivia => exact told_drifts rfl (drifts.skipTrivia rules limit) fun _ _ _ => trivial
  | rest =>
    have hr := iterate_restRound_path (ε := ε) limit [] h
    unfold Told
    rw [Op.run, Op.perform, rest_eq, map_apply]
    cases hx : Scan.iterate (restRound (ε := ε)) limit [] r with
    | ok cs s =>
      rw [hx] at hr
      obtain ⟨ds, hcs, hp, hheld⟩ := hr
      rw [List.reverse_nil, List.nil_append] at hcs
      exact ⟨ds.map some, hp, congrArg _ hcs.symm, List.map_eq_nil_iff.2 hheld⟩
    | error e s =>
      rw [hx] at hr
      obtain ⟨cs, hp⟩ := hr
      cases e with
      | error e => exact ⟨cs, hp, trivial⟩
      | limit => exact ⟨cs, hp, trivial⟩

theorem Op.valid_run (op : Op) (rules : Rules) (limit : Nat) (h : r.buffer.Valid) :
    (op.run rules limit r).2.buffer.Valid ∧ (op.run rules limit r).2.capacity = r.capacity := by
  by_cases hop : op.Forward
  · obtain ⟨_, hp, -⟩ := Op.told rules limit hop h
    exact ⟨hp.valid h, hp.capacity⟩
  · cases op with
    | mark n =>
      rw [Op.run_mark]
      by_cases hn : r.capacity < n
      · rw [if_pos hn]
        exact ⟨h, rfl⟩
      · rw [if_neg hn]
        exact ⟨h.markHead, rfl⟩
    | reset =>
      rw [Op.run_reset]
      cases hp : r.buffer.window.past with
      | none =>
        rw [reset_none hp]
        exact ⟨h, rfl⟩
      | some p =>
        obtain ⟨b, hb, hst⟩ := reset_some (ε := ε) h hp
        rw [hb]
        exact ⟨hst.valid, hst.capacity⟩
    | close =>
      unfold capacity
      rw [Op.buffer_run_close]
      exact ⟨h.clear, rfl⟩
    | _ => exact absurd trivial hop

theorem valid_run (rules : Rules) (limit : Nat) (ops : List Op) (h : r.buffer.Valid) :
    (run rules limit ops r).2.buffer.Valid ∧ (run rules limit ops r).2.capacity = r.capacity := by
  induction ops generalizing r with
  | nil => exact ⟨h, rfl⟩
  | cons op ops ih =>
    obtain ⟨hvalid, hcapacity⟩ := op.valid_run rules limit h
    obtain ⟨hvalid', hcapacity'⟩ := ih hvalid
    rw [run_cons]
    exact ⟨hvalid', hcapacity'.trans hcapacity⟩

/-- a reader is closed by being closed, and by nothing else -/
theorem Op.closed_run (op : Op) (rules : Rules) (limit : Nat) (h : r.buffer.Valid) :
    (op.run rules limit r).2.closed = true ↔ r.closed = true ∨ op = .close := by
  by_cases hop : op.Forward
  · obtain ⟨_, hp, -⟩ := Op.told rules limit hop h
    have hne : op ≠ .close := fun e => by rw [e] at hop; exact hop
    rw [hp.closed, or_iff_left hne]
  · cases op with
    | mark n =>
      rw [Op.run_mark, or_iff_left nofun]
      by_cases hn : r.capacity < n
      · rw [if_pos hn]
      · rw [if_neg hn]
    | reset =>
      rw [Op.run_reset, or_iff_left nofun]
      cases hp : r.buffer.window.past with
      | none => rw [reset_none hp]
      | some p =>
        obtain ⟨b, hb, -⟩ := reset_some (ε := ε) h hp
        rw [hb]
    | close =>
      refine iff_of_true ?_ (.inr rfl)
      rw [Op.run_step (x := Reader.close) r (fun _ => .done) rfl, close_eq]
      by_cases hc : r.closed = true
      · rw [if_pos hc]
      · rw [if_neg hc]
        unfold onSource
        cases Source.close r.source <;> rfl
    | _ => exact absurd trivial hop

end Lookahead.Reader
