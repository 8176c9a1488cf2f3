import Lookahead.Proofs.Reader.Behind
import Lookahead.Proofs.Reader.Moves

/-!
# What operations pass over

Reading follows a path, and what it gives to the caller is what the path passes over: one character,
the characters that stand in a destination, as many as were dropped.

* `read_path`, `chars_path`, `readInto_path`   characters that the caller gets;
* `skip_path`, `accepting_path`                characters that the caller only counts;
* `readInto_held`, `skip_held`, `chars_held`   what gives less than it was asked for leaves nothing
  held.
-/

namespace Lookahead.Reader

variable {σ ε : Type} [Source σ ε] {r : Reader σ}

/-- from `r`, a value is reached by passing over what it stands for, a failure by passing over
nothing -/
def Passing {η α : Type} (r : Reader σ) (f : α → List (Option Char)) :
    EStateM.Result η (Reader σ) α → Prop
  | .ok a s => Path (f a) r s
  | .error _ s => Path [] r s

def one (o : Option Char) : List (Option Char) := o.toList.map some

/-! ## one character -/

theorem remove_path (h : r.buffer.Valid) (he : ¬ r.buffer.isEmpty = true) :
    Path [some (r.buffer.slot r.buffer.head)] r { r with buffer := r.buffer.consume 1 } := by
  have hpos : 0 < r.buffer.count := Nat.pos_of_ne_zero (mt Buffer.isEmpty_iff.2 he)
  have hfirst : r.buffer.toList.take 1 = [r.buffer.slot r.buffer.head] := by
    rw [List.take_one, h.slot_head he]
    rfl
  have hm : Move (σ := σ) _ r _ := Move.taken (k := 1) hpos
  rw [hfirst] at hm
  exact hm.path

theorem takeBuffered_path (h : r.buffer.Valid) :
    Passing r one (takeBuffered r : EStateM.Result (ReadError ε) _ _) := by
  rw [takeBuffered_eq]
  have hf := looks_fill (σ := σ) 1 r
  cases hx : fill 1 r with
  | error e s =>
    rw [hx] at hf
    exact hf
  | ok _ s =>
    rw [hx] at hf
    by_cases he : s.buffer.isEmpty = true
    · simp only [if_pos he]
      exact hf
    · simp only [if_neg he]
      exact hf.after (remove_path (hf.valid h) he)

theorem pull_path (hr : r.buffer.isEmpty = true) (hm : r.buffer.isMarked = false) :
    Passing r one (pull r : EStateM.Result (ReadError ε) _ _) := by
  rw [pull_eq]
  by_cases hd : r.isDry = true
  · rw [if_pos hd]
    exact Path.refl r
  · rw [if_neg hd]
    have hdirect : r.Direct := ⟨by simpa using hd, hr, hm⟩
    cases hs : Source.readChar r.source with
    | error e s => exact (Move.failed hdirect.wet (.inr hdirect) hs).path
    | ok o s =>
      cases o with
      | none => exact (Move.ended hdirect.wet (.inr hdirect) hs).path
      | some c => exact (Move.passed hdirect hs).path

theorem read_path (h : r.buffer.Valid) :
    Passing r one (read r : EStateM.Result (ReadError ε) _ _) := by
  rw [read_eq]
  by_cases he : r.buffer.isEmpty = true
  · rw [if_pos he]
    by_cases hm : r.buffer.isMarked = true
    · rw [if_pos hm]
      exact takeBuffered_path h
    · rw [if_neg hm]
      exact pull_path he (by simpa using hm)
  · rw [if_neg he]
    exact remove_path h he

def delivered {η : Type} (items : List (Except η Char)) : List (Option Char) :=
  items.flatMap fun i => one i.toOption

theorem chars_path (n : Nat) (h : r.buffer.Valid) :
    Path (delivered (chars n r).1) r (chars (ε := ε) n r).2 := by
  induction n generalizing r with
  | zero => exact Path.refl r
  | succ n ih =>
    have hr := read_path (ε := ε) h
    rw [chars]
    cases hx : read r with
    | error e s =>
      rw [hx] at hr
      exact Path.after hr (ih (Path.valid hr h))
    | ok o s =>
      rw [hx] at hr
      cases o with
      | none => exact hr
      | some c => exact Path.trans hr (ih (Path.valid hr h))

/-! ## bulk reads -/

theorem gather_path (room : Nat) (h : r.buffer.Valid) :
    Path ((gather (takeBuffered (ε := ε)) room r).1.written.map some) r
      (gather (takeBuffered (ε := ε)) room r).2 := by
  induction room generalizing r with
  | zero => exact Path.refl r
  | succ room ih =>
    have hr := takeBuffered_path (ε := ε) h
    rw [gather]
    cases hx : takeBuffered r with
    | error e s =>
      rw [hx] at hr
      exact hr
    | ok o s =>
      rw [hx] at hr
      cases o with
      | none => exact hr
      | some c =>
        have hs := Path.trans hr (ih (Path.valid hr h))
        refine hs.cast ?_
        show _ = ((Bulk.after [c] _).written).map some
        rw [Bulk.written_after, List.map_append]
        rfl

theorem pullInto_path (room : Nat) (he : r.buffer.isEmpty = true)
    (hm : r.buffer.isMarked = false) :
    Path ((pullInto (ε := ε) room r).1.written.map some) r (pullInto (ε := ε) room r).2 := by
  unfold pullInto
  by_cases hc : room = 0 ∨ r.isDry = true
  · rw [if_pos hc]
    exact Path.refl r
  · rw [if_neg hc]
    have hroom : 0 < room := by omega
    have hwet : r.isDry = false := by simpa using fun hd => hc (.inr hd)
    have hended : r.ended = false := by
      have : (r.ended || r.closed) = false := hwet
      exact (Bool.or_eq_false_iff.1 this).1
    rcases hb : Source.readInto room r.source with ⟨b, s⟩
    cases b with
    | ended => exact (Move.wrote ⟨hwet, he, hm⟩ hroom hb (by simp)).path
    | read cs =>
      have := Move.wrote (e := r.ended) ⟨hwet, he, hm⟩ hroom hb (by simp [hended])
      exact this.path
    | failed cs e =>
      have := Move.wrote (e := r.ended) ⟨hwet, he, hm⟩ hroom hb (by simp [hended])
      exact this.path

theorem fetchInto_path (room : Nat) (h : r.buffer.Valid) (he : r.buffer.isEmpty = true ∨ room = 0) :
    Path ((fetchInto (ε := ε) room r).1.written.map some) r (fetchInto (ε := ε) room r).2 := by
  unfold fetchInto
  by_cases hm : r.buffer.isMarked = true
  · rw [if_pos hm]
    exact gather_path room h
  · rw [if_neg hm]
    obtain he | h0 := he
    · exact pullInto_path room he (by simpa using hm)
    · rw [pullInto, if_pos (.inl h0)]
      exact Path.refl r

/-- a bulk read passes over what stands in the destination, also when it fails -/
theorem readInto_path (room : Nat) (h : r.buffer.Valid) :
    Path ((readInto (ε := ε) room r).1.written.map some) r (readInto (ε := ε) room r).2 := by
  unfold readInto
  by_cases h0 : room = 0
  · rw [if_pos h0]
    exact Path.refl r
  · rw [if_neg h0, Buffer.drain_eq h]
    let k := min room r.buffer.count
    have hk : k ≤ r.buffer.count := Nat.min_le_right _ _
    have htake : r.buffer.toList.take room = r.buffer.toList.take k := by
      rw [List.take_eq_take_min, Buffer.length_toList]
    have hdrain : Path ((r.buffer.toList.take room).map some) r
        { r with buffer := r.buffer.consume k } := by
      rw [htake]
      exact (Move.taken (σ := σ) hk).path
    have hrest := fetchInto_path (ε := ε) (room - (r.buffer.toList.take room).length)
      (r := { r with buffer := r.buffer.consume k }) (h.consume hk) (by
        rw [List.length_take, Buffer.length_toList]
        by_cases hle : r.buffer.count ≤ room
        · exact .inl (Buffer.isEmpty_consume (Nat.le_min.2 ⟨hle, Nat.le_refl _⟩))
        · exact .inr (by omega))
    refine (hdrain.trans hrest).cast ?_
    show _ = ((Bulk.after _ _).written).map some
    rw [Bulk.written_after, List.map_append]

/-! ## characters that are only counted -/

/-- from `r`, a count is reached by passing over so many characters -/
def Counting {η : Type} (r : Reader σ) : EStateM.Result η (Reader σ) Nat → Prop
  | .ok k s => ∃ cs, cs.length = k ∧ Path cs r s
  | .error _ s => ∃ cs, Path cs r s

theorem discard_path (n : Nat) (h : r.buffer.Valid) :
    Counting r (discard takeBuffered n r : EStateM.Result (ReadError ε) _ _) := by
  induction n generalizing r with
  | zero => exact ⟨[], rfl, Path.refl r⟩
  | succ n ih =>
    have hr := takeBuffered_path (ε := ε) h
    rw [discard]
    cases hx : takeBuffered r with
    | error e s =>
      rw [hx] at hr
      exact ⟨[], hr⟩
    | ok o s =>
      rw [hx] at hr
      cases o with
      | none => exact ⟨[], rfl, hr⟩
      | some c =>
        have hs := ih (Path.valid hr h)
        show Counting r (EStateM.map (· + 1) (discard takeBuffered n) s)
        unfold EStateM.map
        cases hy : discard takeBuffered n s with
        | ok k t =>
          rw [hy] at hs
          obtain ⟨cs, hlen, hp⟩ := hs
          exact ⟨some c :: cs, congrArg (· + 1) hlen, Path.trans hr hp⟩
        | error e t =>
          rw [hy] at hs
          obtain ⟨cs, hp⟩ := hs
          exact ⟨some c :: cs, Path.trans hr hp⟩

theorem skipPast_path (n : Nat) (h : r.buffer.Valid) (he : r.buffer.isEmpty = true) :
    Counting r (skipPast n r : EStateM.Result (ReadError ε) _ _) := by
  rw [skipPast_eq]
  by_cases hm : r.buffer.isMarked = true
  · rw [if_pos hm]
    exact discard_path n h
  · rw [if_neg hm]
    by_cases hc : n = 0 ∨ r.isDry = true
    · rw [if_pos hc]
      exact ⟨[], rfl, Path.refl r⟩
    · rw [if_neg hc]
      have hd : r.Direct := ⟨by simpa using fun hd => hc (.inr hd), he, by simpa using hm⟩
      have hpos : 0 < n := by omega
      unfold onSource
      cases hs : Source.skip n r.source with
      | ok k s =>
        exact ⟨List.replicate k none, List.length_replicate, (Move.dropped hd hpos hs).path⟩
      | error e s => exact ⟨[], (Move.notDropped hd hpos hs).path⟩

theorem taken_path {k : Nat} (hk : k ≤ r.buffered) :
    ∃ cs, cs.length = k ∧ Path cs r { r with buffer := r.buffer.consume k } := by
  refine ⟨_, ?_, (Move.taken hk).path⟩
  rw [List.length_map, List.length_take, Buffer.length_toList]
  exact Nat.min_eq_left hk

theorem skip_path (n : Nat) (h : r.buffer.Valid) :
    Counting r (skip n r : EStateM.Result (ReadError ε) _ _) := by
  rw [skip_eq]
  by_cases hn : n < r.buffered
  · rw [if_pos hn]
    exact taken_path (Nat.le_of_lt hn)
  · rw [if_neg hn]
    obtain ⟨cs, hlen, hp⟩ := taken_path (Nat.le_refl r.buffered)
    have hs := skipPast_path (ε := ε) (r := { r with buffer := r.buffer.consume r.buffered })
      (n - r.buffered) (h.consume (Nat.le_refl _)) (Buffer.isEmpty_consume (Nat.le_refl _))
    cases hx : skipPast (n - r.buffered) { r with buffer := r.buffer.consume r.buffered } with
    | ok k s =>
      rw [hx] at hs
      obtain ⟨ds, hlen', hq⟩ := hs
      exact ⟨cs ++ ds, by rw [List.length_append, hlen, hlen'], hp.trans hq⟩
    | error e s =>
      rw [hx] at hs
      obtain ⟨ds, hq⟩ := hs
      exact ⟨cs ++ ds, hp.trans hq⟩

theorem accepting_path {test : Step σ ε Bool} (ht : Looks test) (n : Nat) (r : Reader σ) :
    match accepting test n r with
    | .ok true s => ∃ cs, cs.length = n ∧ Path cs r s
    | .ok false s => Path [] r s
    | .error _ s => Path [] r s := by
  rw [accepting_eq]
  have hr := ht r
  cases hx : test r with
  | error e s =>
    rw [hx] at hr
    exact hr
  | ok b s =>
    rw [hx] at hr
    cases b with
    | false => exact hr
    | true =>
      by_cases hn : s.buffered < n
      · simp only [if_pos hn]
        exact hr
      · simp only [if_neg hn]
        obtain ⟨cs, hlen, hp⟩ := taken_path (Nat.le_of_not_lt hn)
        exact ⟨cs, hlen, Path.after hr hp⟩

/-! ## what is held afterwards -/

theorem takeBuffered_none {s : Reader σ} (h : takeBuffered r = .ok none s) :
    s.buffer.toList = [] := by
  rw [takeBuffered_eq] at h
  cases hx : fill 1 r with
  | error e t =>
    rw [hx] at h
    cases h
  | ok _ t =>
    rw [hx] at h
    by_cases ht : t.buffer.isEmpty = true
    · simp only [if_pos ht] at h
      cases h
      exact Buffer.toList_of_isEmpty ht
    · simp only [if_neg ht] at h
      cases h

theorem read_none {s : Reader σ} (h : read r = .ok none s) : s.buffer.toList = [] := by
  rw [read_eq] at h
  by_cases he : r.buffer.isEmpty = true
  · rw [if_pos he] at h
    by_cases hm : r.buffer.isMarked = true
    · rw [if_pos hm] at h
      exact takeBuffered_none h
    · rw [if_neg hm, pull_eq] at h
      by_cases hd : r.isDry = true
      · rw [if_pos hd] at h
        cases h
        exact Buffer.toList_of_isEmpty he
      · rw [if_neg hd] at h
        cases hs : Source.readChar r.source with
        | error e t =>
          rw [hs] at h
          cases h
        | ok o t =>
          rw [hs] at h
          cases o with
          | none =>
            cases h
            exact Buffer.toList_of_isEmpty he
          | some c => cases h
  · rw [if_neg he] at h
    cases h

theorem chars_held (n : Nat) (r : Reader σ) (hn : (chars (ε := ε) n r).1.length ≠ n) :
    (chars (ε := ε) n r).2.buffer.toList = [] := by
  induction n generalizing r with
  | zero => exact absurd rfl hn
  | succ n ih =>
    rw [chars] at hn ⊢
    cases hx : read r with
    | error e s =>
      rw [hx] at hn
      exact ih s fun h => hn (congrArg (· + 1) h)
    | ok o s =>
      rw [hx] at hn
      cases o with
      | none => exact read_none hx
      | some c => exact ih s fun h => hn (congrArg (· + 1) h)

theorem fetchInto_empty (room : Nat) (h : r.buffer.Valid) (he : r.buffer.isEmpty = true) :
    (fetchInto (ε := ε) room r).2.buffer.isEmpty = true := by
  unfold fetchInto
  by_cases hm : r.buffer.isMarked = true
  · rw [if_pos hm]
    exact ((hollow_takeBuffered (ε := ε)).gather room (Hollow.refl h he)).2.empty
  · rw [if_neg hm]
    unfold pullInto
    by_cases hc : room = 0 ∨ r.isDry = true
    · rw [if_pos hc]
      exact he
    · rw [if_neg hc]
      rcases Source.readInto room r.source with ⟨_ | _ | _, s⟩ <;> exact he

/-- unless a bulk read fills the destination, nothing is held after it -/
theorem readInto_held (room : Nat) (h : r.buffer.Valid)
    (hroom : (readInto (ε := ε) room r).1.result ≠ .ok (some room)) :
    (readInto (ε := ε) room r).2.buffer.toList = [] := by
  unfold readInto at hroom ⊢
  by_cases h0 : room = 0
  · rw [if_pos h0] at hroom
    exact absurd (congrArg (fun n => Except.ok (some n)) h0.symm) hroom
  rw [if_neg h0, Buffer.drain_eq h] at hroom
  rw [if_neg h0, Buffer.drain_eq h]
  have hlen : (r.buffer.toList.take room).length = min room r.buffer.count := by
    rw [List.length_take, Buffer.length_toList]
  dsimp only at hroom ⊢
  by_cases hle : room ≤ r.buffer.count
  · -- the buffered characters fill the destination
    rw [hlen, Nat.min_eq_left hle, Nat.sub_self, fetchInto_zero] at hroom
    rw [Nat.min_eq_left hle] at hlen
    obtain ⟨c, cs, hcs⟩ := List.exists_cons_of_length_pos (hlen ▸ Nat.pos_of_ne_zero h0)
    rw [hcs] at hroom hlen
    refine absurd ?_ hroom
    show Except.ok (some (c :: cs ++ []).length) = _
    rw [List.append_nil, hlen]
  · refine Buffer.toList_of_isEmpty (fetchInto_empty _ (h.consume (Nat.min_le_right _ _)) ?_)
    exact Buffer.isEmpty_consume (Nat.le_min.2 ⟨Nat.le_of_not_le hle, Nat.le_refl _⟩)

theorem skipPast_empty (n : Nat) (h : r.buffer.Valid) (he : r.buffer.isEmpty = true) :
    (finalState (skipPast (ε := ε) n r)).buffer.isEmpty = true := by
  rw [skipPast_eq]
  by_cases hm : r.buffer.isMarked = true
  · rw [if_pos hm]
    obtain ⟨_, s, _, hs, -, hend⟩ | ⟨_, s, _, hs, -, hend⟩ :=
      ((hollow_takeBuffered (ε := ε)).discard n r r (Hollow.refl h he)).cases
    · rw [hs]
      exact hend.empty
    · rw [hs]
      exact hend.empty
  · rw [if_neg hm]
    by_cases hc : n = 0 ∨ r.isDry = true
    · rw [if_pos hc]
      exact he
    · rw [if_neg hc]
      unfold onSource
      cases Source.skip n r.source <;> exact he

/-- unless a skip drops as many characters as it was asked for, nothing is held after it -/
theorem skip_held (n : Nat) (h : r.buffer.Valid) :
    match (skip n r : EStateM.Result (ReadError ε) _ _) with
    | .ok k s => k ≠ n → s.buffer.toList = []
    | .error _ s => s.buffer.toList = [] := by
  rw [skip_eq]
  by_cases hn : n < r.buffered
  · rw [if_pos hn]
    exact fun hne => absurd rfl hne
  · rw [if_neg hn]
    have hempty := skipPast_empty (ε := ε) (r := { r with buffer := r.buffer.consume r.buffered })
      (n - r.buffered) (h.consume (Nat.le_refl _)) (Buffer.isEmpty_consume (Nat.le_refl _))
    cases hx : skipPast (n - r.buffered) { r with buffer := r.buffer.consume r.buffered } with
    | ok k s =>
      rw [hx] at hempty
      exact fun _ => Buffer.toList_of_isEmpty hempty
    | error e s =>
      rw [hx] at hempty
      exact Buffer.toList_of_isEmpty hempty

end Lookahead.Reader
