import Lookahead.Proofs.Reader.Bypass
import Lookahead.Proofs.Reader.Destination
import Lookahead.Proofs.Reader.Operations

/-!
# Bulk reads that fail

A bulk read that fails tells the failure and not how many characters it has written.  What is in the
destination is nevertheless accounted for: it is what single reads would have given before they met
the same failure, whichever of the three ways it went, out of the buffer, through it or past it, and
what comes after the failure is still to be read.

* `answers`                what calls one after another come to;
* `Behind.answers`         what a reader gives that stands behind another one;
* `fetchInto_failed`       past the buffered characters, a bulk read fails where single reads do;
* `Path.past`              what a mark keeps grows by what is passed over;
* `failed_read_accounted`  what a failed bulk read has written, and where it leaves the reader.
-/

namespace Lookahead

/-! ## calls one after another -/

section
variable {σ τ ε : Type} {R : σ → τ → Prop} {next : EStateM ε σ (Option Char)} {s t : σ}

/-- what so many calls come to: characters and failures, up to the first call that finds nothing -/
def answers (next : EStateM ε σ (Option Char)) : Nat → σ → List (Except ε Char)
  | 0, _ => []
  | n + 1, s =>
    match next s with
    | .ok none _ => []
    | .ok (some c) t => .ok c :: answers next n t
    | .error e t => .error e :: answers next n t

theorem answers_char {c : Char} (h : next s = .ok (some c) t) (n : Nat) :
    answers next (n + 1) s = .ok c :: answers next n t := by
  rw [answers, h]

theorem answers_error {e : ε} (h : next s = .error e t) (n : Nat) :
    answers next (n + 1) s = .error e :: answers next n t := by
  rw [answers, h]

theorem Agree.answers {x : EStateM ε σ (Option Char)} {y : EStateM ε τ (Option Char)}
    (h : Agree R x y) (n : Nat) {s : σ} {t : τ} (hst : R s t) :
    Lookahead.answers x n s = Lookahead.answers y n t := by
  induction n generalizing s t with
  | zero => rfl
  | succ n ih =>
    rw [Lookahead.answers, Lookahead.answers]
    obtain ⟨o, s', t', hx, hy, h'⟩ | ⟨e, s', t', hx, hy, h'⟩ := (h s t hst).cases
    · rw [hx, hy]
      cases o with
      | none => rfl
      | some c => exact congrArg (_ :: ·) (ih h')
    · rw [hx, hy]
      exact congrArg (_ :: ·) (ih h')

theorem Bulk.of_after_failed {b : Bulk ε} {cs ds : List Char} {e : ε}
    (h : b.after cs = .failed ds e) : ∃ xs, b = .failed xs e ∧ ds = cs ++ xs := by
  cases b with
  | read xs =>
    rw [Bulk.after] at h
    cases hx : cs ++ xs <;> rw [hx] at h <;> cases h
  | ended =>
    rw [Bulk.after] at h
    cases cs <;> cases h
  | failed xs e' =>
    cases h
    exact ⟨xs, rfl, rfl⟩

theorem Bulk.eq_failed {b : Bulk ε} {cs : List Char} {e : ε} (hw : b.written = cs)
    (he : b.failure? = some e) : b = .failed cs e := by
  cases b with
  | failed xs d =>
    cases hw
    cases he
    rfl
  | _ => cases he

/-- a bulk read by single calls fails in the call that does, short of its room, and has written what
the calls before it gave -/
theorem gather_failed {room : Nat} {cs : List Char} {e : ε}
    (h : gather next room s = (.failed cs e, t)) :
    cs.length < room ∧ (∃ u, next u = .error e t) ∧
      ∀ m, answers next (cs.length + (m + 1)) s = cs.map .ok ++ .error e :: answers next m t := by
  induction room generalizing s cs with
  | zero => cases h
  | succ room ih =>
    rw [gather] at h
    cases hn : next s with
    | error d u =>
      rw [hn] at h
      cases h
      refine ⟨Nat.succ_pos room, ⟨s, hn⟩, fun m => ?_⟩
      rw [List.length_nil, Nat.zero_add, answers_error hn]
      rfl
    | ok o u =>
      rw [hn] at h
      cases o with
      | none => cases h
      | some c =>
        dsimp only at h
        rcases hg : gather next room u with ⟨b, v⟩
        rw [hg] at h
        obtain ⟨hb, rfl⟩ := Prod.mk.inj h
        obtain ⟨xs, rfl, rfl⟩ := Bulk.of_after_failed hb
        obtain ⟨hlt, hlast, hall⟩ := ih hg
        refine ⟨Nat.succ_lt_succ hlt, hlast, fun m => ?_⟩
        rw [List.singleton_append, List.length_cons, Nat.succ_add, answers_char hn, hall m]
        rfl

end

/-- the bulk read that this type of source has is made of single reads -/
def Source.Plain (σ : Type) {ε : outParam Type} [Source σ ε] : Prop :=
  ∀ room (s : σ), Source.readInto room s = gather Source.readChar room s

theorem Script.plain {ε : Type} : Source.Plain (Script ε) := fun _ _ => rfl

theorem Utf8.Decoder.plain {ε : Type} {decode : Decode} : Source.Plain (Decoder ε decode) :=
  fun _ _ => rfl

theorem Source.Plain.writes {σ ε : Type} [Source σ ε] (h : Source.Plain σ) :
    Source.Writes (Source.writeSingly (σ := σ)) := by
  intro dst s
  rw [h]
  exact Source.writeSingly_eq dst s

namespace Reader

variable {σ ε : Type} [Source σ ε] {r q s : Reader σ} {p cs : List Char}

theorem chars_eq_answers (n : Nat) (r : Reader σ) : (chars n r).1 = answers read n r := by
  induction n generalizing r with
  | zero => rfl
  | succ n ih =>
    rw [chars, answers]
    cases read r with
    | error e s => exact congrArg (_ :: ·) (ih s)
    | ok o s =>
      cases o with
      | none => rfl
      | some c => exact congrArg (_ :: ·) (ih s)

theorem Behind.answers (h : Behind p q r) (m : Nat) :
    answers (read (ε := ε)) (p.length + m) q = p.map .ok ++ answers read m r := by
  induction p generalizing q with
  | nil =>
    rw [List.length_nil, Nat.zero_add]
    exact agree_read.answers m h
  | cons c p ih =>
    obtain ⟨hread, hone, hrest⟩ := read_of_held (ε := ε) h.valid h.held
    have hnext : Behind p { q with buffer := q.buffer.consume 1 } r :=
      ⟨h.source, h.ended, h.closed, h.capacity, h.valid.consume hone, h.valid', hrest⟩
    rw [List.length_cons, Nat.succ_add, answers_char hread, ih hnext]
    rfl

/-! ## bulk reads that fail -/

theorem gather_pull_of_failed {room : Nat} {e : ReadError ε} (hd : r.isDry = false)
    (h : gather (onSource Source.readChar) room r = (.failed cs e, s)) :
    gather pull room r = (.failed cs e, s) := by
  induction room generalizing r cs with
  | zero => cases h
  | succ room ih =>
    rw [gather, onSource_eq] at h
    rw [gather, pull_eq, if_neg (by rw [hd]; exact Bool.false_ne_true)]
    cases hs : Source.readChar r.source with
    | error d t =>
      rw [hs] at h
      exact h
    | ok o t =>
      rw [hs] at h
      cases o with
      | none => cases h
      | some c =>
        dsimp only at h ⊢
        rcases hg : gather (onSource Source.readChar) room { r with source := t } with ⟨b, v⟩
        rw [hg] at h
        obtain ⟨hb, rfl⟩ := Prod.mk.inj h
        obtain ⟨xs, rfl, rfl⟩ := Bulk.of_after_failed hb
        rw [ih (r := { r with source := t }) hd hg]
        rfl

theorem fetchInto_gather (hbulk : Source.Plain σ) (h : r.buffer.Valid)
    (he : r.buffer.isEmpty = true) {room : Nat} {e : ReadError ε}
    (hx : fetchInto room r = (.failed cs e, s)) :
    ∃ t, gather pull room r = (.failed cs e, t) ∧ Hollow s t := by
  unfold fetchInto at hx
  by_cases hm : r.buffer.isMarked = true
  · rw [if_pos hm] at hx
    obtain ⟨hbulk, hleft⟩ := (hollow_takeBuffered (ε := ε)).gather room (Hollow.refl h he)
    rw [hx] at hbulk hleft
    exact ⟨(gather pull room r).2, Prod.ext hbulk.symm rfl, hleft⟩
  · rw [if_neg hm] at hx
    unfold pullInto at hx
    by_cases hc : room = 0 ∨ r.isDry = true
    · rw [if_pos hc] at hx
      cases hx
    · rw [if_neg hc, hbulk] at hx
      have hd : r.isDry = false := by simpa using fun hd => hc (.inr hd)
      have hgather := gather_onSource (Source.readChar (σ := σ)) room r
      rcases hg : gather Source.readChar room r.source with ⟨b, t⟩
      rw [hg] at hx hgather
      cases b with
      | read xs => cases hx
      | ended => cases hx
      | failed xs d =>
        cases hx
        exact ⟨_, gather_pull_of_failed hd hgather, Hollow.refl h he⟩

/-- past the buffered characters, a bulk read fails where single reads do -/
theorem fetchInto_failed (hbulk : Source.Plain σ) (h : r.buffer.Valid)
    (he : r.buffer.isEmpty = true) {room : Nat} {e : ReadError ε}
    (hx : fetchInto room r = (.failed cs e, s)) :
    cs.length < room ∧ (∃ d, e = .source d) ∧ s.buffer.isEmpty = true ∧
      ∀ m, answers read (cs.length + (m + 1)) r =
        cs.map .ok ++ .error e :: answers read m s := by
  obtain ⟨t, ht, hleft⟩ := fetchInto_gather hbulk h he hx
  obtain ⟨hlt, ⟨u, hu⟩, hall⟩ := gather_failed ht
  refine ⟨hlt, ?_, hleft.empty, fun m => ?_⟩
  · rw [pull_eq] at hu
    by_cases hd : u.isDry = true
    · rw [if_pos hd] at hu
      cases hu
    · rw [if_neg hd] at hu
      cases hs : Source.readChar u.source with
      | error d v =>
        rw [hs] at hu
        cases hu
        exact ⟨d, rfl⟩
      | ok o v =>
        rw [hs] at hu
        cases o <;> cases hu
  · rw [hollow_read.answers _ (Hollow.refl h he), hall m, hollow_read.answers m hleft]

/-- so a bulk read that fails has emptied the buffer, and single reads go the same way -/
theorem readInto_failed (hbulk : Source.Plain σ) (h : r.buffer.Valid) {room : Nat}
    {e : ReadError ε} (hx : readInto room r = (.failed cs e, s)) :
    cs.length < room ∧ (∃ d, e = .source d) ∧ r.buffer.toList <+: cs ∧
      s.buffer.isEmpty = true ∧
      ∀ m, answers read (cs.length + (m + 1)) r =
        cs.map .ok ++ .error e :: answers read m s := by
  unfold readInto at hx
  by_cases h0 : room = 0
  · rw [if_pos h0] at hx
    cases hx
  rw [if_neg h0, Buffer.drain_eq h] at hx
  dsimp only at hx
  rcases hf : fetchInto (ε := ε) (room - (r.buffer.toList.take room).length)
    { r with buffer := r.buffer.consume (min room r.buffer.count) } with ⟨b, t⟩
  rw [hf] at hx
  obtain ⟨hb, rfl⟩ := Prod.mk.inj hx
  obtain ⟨ds, rfl, rfl⟩ := Bulk.of_after_failed hb
  -- a destination that the buffered characters fill up is not read into any more
  have hmore : r.buffer.count < room := by
    refine Nat.lt_of_not_le fun hle => ?_
    rw [List.length_take, Buffer.length_toList, Nat.min_eq_left hle, Nat.sub_self,
      fetchInto_zero] at hf
    cases hf
  have htake : r.buffer.toList.take room = r.buffer.toList :=
    List.take_of_length_le (by rw [Buffer.length_toList]; omega)
  rw [Nat.min_eq_right (Nat.le_of_lt hmore), htake, Buffer.length_toList] at hf
  rw [htake]
  have hdrained : (r.buffer.consume r.buffer.count).toList = [] :=
    Buffer.toList_of_isEmpty (Buffer.isEmpty_consume (Nat.le_refl _))
  have hvalid : (r.buffer.consume r.buffer.count).Valid := h.consume (Nat.le_refl _)
  have hempty : (r.buffer.consume r.buffer.count).isEmpty = true :=
    Buffer.isEmpty_consume (Nat.le_refl _)
  have hbehind : Behind r.buffer.toList r
      { r with buffer := r.buffer.consume r.buffer.count } :=
    ⟨rfl, rfl, rfl, rfl, h, hvalid, by rw [hdrained, List.append_nil]⟩
  obtain ⟨hlt, hsource, hleft, hall⟩ := fetchInto_failed hbulk hvalid hempty hf
  refine ⟨?_, hsource, List.prefix_append _ _, hleft, fun m => ?_⟩
  · rw [List.length_append, Buffer.length_toList]
    omega
  · rw [List.length_append, Nat.add_assoc, hbehind.answers, hall m, List.map_append,
      List.append_assoc]

/-! ## marks -/

/-- along a move, what a mark keeps grows by what is passed over, if it stays -/
theorem Move.past {ps : List (Option Char)} {p' : List Char} (m : Move ps r s)
    (h : r.buffer.Valid) (hs : s.buffer.window.past = some p') :
    ∃ p, r.buffer.window.past = some p ∧ p'.map some = p.map some ++ ps := by
  have hdirect : r.Direct → r.buffer.window.past ≠ some p' := fun hd hno => by
    rw [Buffer.past_of_unmarked (by simpa [Buffer.isMarked] using hd.unmarked)] at hno
    cases hno
  cases m with
  | pulled _ _ _ hb =>
    refine ⟨p', ?_, (List.append_nil _).symm⟩
    have hnew := (h.stands.add hb).past
    rw [show _ = some p' from hs] at hnew
    by_cases hfull : r.buffer.window.size = r.buffer.capacity
    · rw [if_pos hfull] at hnew
      cases hnew
    · rw [if_neg hfull] at hnew
      exact hnew.symm
  | taken hk =>
    have hnew := Buffer.past_consume h hk
    rw [show _ = some p' from hs] at hnew
    obtain ⟨p, hp, rfl⟩ := Option.map_eq_some_iff.1 hnew.symm
    exact ⟨p, hp, List.map_append⟩
  | passed hd _ => exact absurd hs (hdirect hd)
  | wrote hd _ _ _ => exact absurd hs (hdirect hd)
  | dropped hd _ _ => exact absurd hs (hdirect hd)
  | notDropped hd _ _ => exact absurd hs (hdirect hd)
  | ended _ _ => exact ⟨p', hs, (List.append_nil _).symm⟩
  | failed _ _ => exact ⟨p', hs, (List.append_nil _).symm⟩
  | asked _ _ _ => exact ⟨p', hs, (List.append_nil _).symm⟩

theorem Path.past {ps : List (Option Char)} {p' : List Char} (m : Path ps r s)
    (h : r.buffer.Valid) (hs : s.buffer.window.past = some p') :
    ∃ p, r.buffer.window.past = some p ∧ p'.map some = p.map some ++ ps := by
  induction m generalizing p' with
  | refl r => exact ⟨p', hs, (List.append_nil _).symm⟩
  | tail path m ih =>
    obtain ⟨o, ho, hgrown⟩ := m.past (path.valid h) hs
    obtain ⟨p, hp, hgrown'⟩ := ih h ho
    exact ⟨p, hp, by rw [hgrown, hgrown', List.append_assoc]⟩

omit [Source σ ε] in
theorem behind_reset (h : r.buffer.Valid) (hq : (reset : Step σ ε Unit) r = .ok () q) :
    ∃ p, r.buffer.window.past = some p ∧ Behind p q r := by
  cases hp : r.buffer.window.past with
  | none =>
    rw [reset_none hp] at hq
    cases hq
  | some p =>
    obtain ⟨b, hb, hst⟩ := reset_some (ε := ε) h hp
    rw [hb] at hq
    cases hq
    exact ⟨p, rfl, rfl, rfl, rfl, hst.capacity, hst.valid, h, hst.toList⟩

/-- **A bulk read that fails accounts for all it took.**  Over any source that reads in bulk by
single reads, after any run, a bulk read that fails has written fewer characters than there is room
for, the buffered ones first, and whichever way they came, the rest of the destination is left as it
was; the buffer is empty.  Single reads would have given the same characters, then the same failure,
and then what they give from where the bulk read left the reader.  If a mark stood before and still
stands, going back brings what it brought before, then the characters that were written, and then
goes on in the same way. -/
theorem failed_read_accounted (hbulk : Source.Plain σ) (source : σ) {n : Nat} (hn : 0 < n)
    (rules : Rules) (limit : Nat) (ops : List Op) (room : Nat) :
    ∃ r₀, create source n = .ok r₀ ∧
      let r := (run rules limit ops r₀).2
      ∀ cs e s, readInto room r = (.failed cs e, s) →
        (∃ d, e = .source d) ∧ cs.length < room ∧ r.buffer.toList <+: cs ∧ s.buffered = 0 ∧
        (∀ dst : List Char, dst.length = room →
          let written := (Bulk.failed cs e).fill dst
          writeInto Source.writeSingly dst r = (.error e, written, s) ∧ written.length = room ∧
            written.take cs.length = cs ∧ written.drop cs.length = dst.drop cs.length) ∧
        (∀ m, (chars (cs.length + (m + 1)) r).1 = cs.map .ok ++ .error e :: (chars m s).1) ∧
        ∀ q q', (reset : Step σ ε Unit) r = .ok () q → (reset : Step σ ε Unit) s = .ok () q' →
          ∃ p : List Char,
            (∀ m, (chars (p.length + m) q).1 = p.map .ok ++ (chars (ε := ε) m r).1) ∧
            ∀ m, (chars (p.length + cs.length + m) q').1 =
              p.map .ok ++ cs.map .ok ++ (chars (ε := ε) m s).1 := by
  refine ⟨_, create_eq _ hn, ?_⟩
  intro r cs e s hx
  have h : r.buffer.Valid := (valid_run rules limit ops (Buffer.valid_ofCapacity hn)).1
  obtain ⟨hlt, hsource, hfirst, hempty, hall⟩ := readInto_failed hbulk h hx
  refine ⟨hsource, hlt, hfirst, Buffer.isEmpty_iff.1 hempty, fun dst hdst => ?_, fun m => ?_,
    fun q q' hq hq' => ?_⟩
  · refine ⟨?_, ?_, List.take_left, List.drop_left⟩
    · rw [writeInto_eq hbulk.writes h, hdst, hx]
      rfl
    · show (cs ++ dst.drop cs.length).length = room
      rw [List.length_append, List.length_drop]
      omega
  · rw [chars_eq_answers, chars_eq_answers, hall m]
  · have hpath := readInto_path (ε := ε) room h
    rw [hx] at hpath
    have hpath : Path (cs.map some) r s := hpath
    obtain ⟨p, hp, hbehind⟩ := behind_reset (ε := ε) h hq
    obtain ⟨p', hp', hbehind'⟩ := behind_reset (ε := ε) (hpath.valid h) hq'
    obtain ⟨o, ho, hgrown⟩ := hpath.past h hp'
    cases hp.symm.trans ho
    rw [← List.map_append] at hgrown
    obtain rfl : p' = p ++ cs := (List.map_inj_right fun _ _ => Option.some.inj).1 hgrown
    refine ⟨p, fun m => ?_, fun m => ?_⟩
    · rw [chars_eq_answers, chars_eq_answers, hbehind.answers m]
    · rw [chars_eq_answers, chars_eq_answers, ← List.length_append, hbehind'.answers m,
        List.map_append]

/-- a character since the mark, one in the buffer and one through it, and then the failure -/
theorem failed_read_accounted_abc :
    let source : Script String :=
      ⟨[.char 'a', .char 'b', .char 'c', .failure "slow", .char 'd', .char 'e']⟩
    let ops := [Op.mark 4, .read, .fill 1]
    Source.Plain (Script String) ∧ 0 < 4 ∧ ∃ r₀, create source 4 = .ok r₀ ∧
      let r := (run Rules.standard 9 ops r₀).2
      ∃ s q q', readInto 3 r = (.failed ['b', 'c'] (.source "slow"), s) ∧
        (reset : Step (Script String) String Unit) r = .ok () q ∧
        (reset : Step (Script String) String Unit) s = .ok () q' ∧
        writeInto Source.writeSingly ['x', 'y', 'z'] r =
          (.error (.source "slow"), ['b', 'c', 'z'], s) ∧
        (chars 4 r).1 = [.ok 'b', .ok 'c', .error (.source "slow")] ++ (chars 1 s).1 ∧
        (chars (ε := String) 1 s).1.map Except.toOption = [some 'd'] ∧
        ∃ p : List Char, ∀ m, (chars (p.length + 2 + m) q').1 =
          p.map .ok ++ [.ok 'b', .ok 'c'] ++ (chars (ε := String) m s).1 := by
  intro source ops
  refine ⟨Script.plain, by decide, ?_⟩
  obtain ⟨r₀, hr₀, hall⟩ :=
    failed_read_accounted Script.plain source (by decide : 0 < 4) Rules.standard 9 ops 3
  refine ⟨r₀, hr₀, ?_⟩
  cases hr₀
  intro r
  obtain ⟨s, hs⟩ : ∃ s, s = (readInto (ε := String) 3 r).2 := ⟨_, rfl⟩
  have hx : readInto 3 r = (.failed ['b', 'c'] (.source "slow"), s) := by
    refine Prod.ext (Bulk.eq_failed ?_ ?_) hs.symm <;> decide +kernel
  obtain ⟨q, hq⟩ := exists_of_outcome (x := (reset : Step (Script String) String Unit) r) (a := ())
    (by decide +kernel)
  obtain ⟨q', hq'⟩ := exists_of_outcome (x := (reset : Step (Script String) String Unit) s) (a := ())
    (by rw [hs]; decide +kernel)
  obtain ⟨-, -, -, -, hdst, hchars, hmark⟩ := hall _ _ s hx
  obtain ⟨p, -, hafter⟩ := hmark q q' hq hq'
  refine ⟨s, q, q', hx, hq, hq', (hdst ['x', 'y', 'z'] rfl).1, hchars 1, ?_, p, hafter⟩
  rw [hs]
  decide +kernel

end Reader

end Lookahead
