import Lookahead.Proofs.Reader.Recovery

/-!
# Asking again after a failure

A caller that meets a failure of the source may ask for the operation again, as often as the source
fails.  Each time one of the failures to come is used up, so that the operation succeeds, or is
refused for another reason, in the end.  Over a whole run this comes to the same as if the source had
not failed at all.

* `Op.insist`, `persist`   one operation and a run, each operation asked for again after a failure;
* `GoesAs`                 such a run comes to the same as one over another source;
* `failures_passed_over`   it comes to the same as over the source without its failures.
-/

namespace Lookahead

namespace Reader

variable {σ τ ε : Type}

/-! ## operations that are insisted on -/

section
variable [Source σ ε] (rules : Rules) (limit : Nat)

/-- asks for an operation again as long as the source fails, at most so many times: the failures
met, and how it went in the end -/
def Op.insist (op : Op) : Nat → Reader σ → List ε × Outcome ε × Reader σ
  | 0, r => ([], op.run rules limit r)
  | tries + 1, r =>
    match op.run rules limit r with
    | (.failed (.source e), s) =>
      let (es, last) := op.insist tries s
      (e :: es, last)
    | last => ([], last)

/-- how the operations go, in order, when each of them is insisted on -/
def persist (tries : Nat) : List Op → Reader σ → List ε × List (Outcome ε) × Reader σ
  | [], r => ([], [], r)
  | op :: ops, r =>
    let (es, o, s) := op.insist rules limit tries r
    let (fs, os, t) := persist tries ops s
    (es ++ fs, o :: os, t)

variable {rules limit} {op : Op} {r : Reader σ}

theorem Op.insist_failed {e : ε} (h : (op.run rules limit r).1 = .failed (.source e))
    (tries : Nat) : op.insist rules limit (tries + 1) r =
      (e :: (op.insist rules limit tries (op.run rules limit r).2).1,
        (op.insist rules limit tries (op.run rules limit r).2).2) := by
  rw [Op.insist]
  rcases hx : op.run rules limit r with ⟨o, s⟩
  rw [hx] at h
  cases h
  rfl

theorem Op.insist_done (h : ∀ e, (op.run rules limit r).1 ≠ .failed (.source e)) (tries : Nat) :
    op.insist rules limit tries r = ([], op.run rules limit r) := by
  cases tries with
  | zero => rfl
  | succ tries =>
    rw [Op.insist]
    rcases hx : op.run rules limit r with ⟨o, s⟩
    rw [hx] at h
    split
    · next e s' heq =>
      cases heq
      exact absurd rfl (h e)
    · rfl

end

/-! ## the source without its failures -/

section
variable [Source σ ε] [Source τ ε] {R : List ε → σ → τ → Prop} {es : List ε} {r : Reader σ}
  {q : Reader τ} {rules : Rules} {limit : Nat} (hR : Source.Mended R)
include hR

/-- one operation, asked for once: either it goes as without failures, or the first failure is met
and it can be asked for again -/
theorem Op.resumed {op : Op} (hop : op.Repeatable) (h : Awaits R es r q) :
    ((op.run rules limit r).1 = (op.run rules limit q).1 ∧
      Awaits R es (op.run rules limit r).2 (op.run rules limit q).2 ∧
      ∀ e, (op.run rules limit q).1 ≠ .failed (.source e)) ∨
    ∃ e fs p, (op.run rules limit r).1 = .failed (.source e) ∧ es = e :: fs ∧
      Awaits R fs (op.run rules limit r).2 p ∧ op.run rules limit p = op.run rules limit q := by
  obtain ⟨reach, hresumes⟩ := op.resumes hR rules limit hop
  cases hresumes es r q h with
  | ok hx hy h' =>
    left
    rw [Op.run, Op.run, hx, hy]
    refine ⟨rfl, h', fun e he => ?_⟩
    cases he
  | @refused d r' q' hx hy hd h' =>
    left
    rw [Op.run, Op.run, hx, hy]
    cases d with
    | limit =>
      refine ⟨rfl, h', fun e he => ?_⟩
      cases he
    | error d =>
      refine ⟨rfl, h', fun e he => ?_⟩
      cases he
      cases hd
  | @failed d e fs r' p hx hd hes h' moved =>
    right
    have hagain : op.run rules limit p = op.run rules limit q := by
      rw [Op.run, moved.2]
      rfl
    cases Halt.eq_of_failure? hd
    rw [Op.run, hx]
    exact ⟨e, fs, p, rfl, hes, h', hagain⟩

/-- an operation that is insisted on goes as without failures, and has met the first few of them -/
theorem Op.insisted {op : Op} (hop : op.Repeatable) {tries : Nat} (h : Awaits R es r q)
    (htries : es.length ≤ tries) :
    ∃ met left s, op.insist rules limit tries r = (met, (op.run rules limit q).1, s) ∧
      es = met ++ left ∧ Awaits R left s (op.run rules limit q).2 ∧
      ∀ e, (op.run rules limit q).1 ≠ .failed (.source e) := by
  induction tries generalizing es r q with
  | zero =>
    obtain ⟨hsame, h', hdone⟩ | ⟨e, fs, p, _, rfl, _⟩ := op.resumed hR hop h
    · refine ⟨[], es, (op.run rules limit r).2, ?_, rfl, h', hdone⟩
      rw [Op.insist, ← hsame]
    · cases htries
  | succ tries ih =>
    obtain ⟨hsame, h', hdone⟩ | ⟨e, fs, p, hfailed, rfl, h', hagain⟩ := op.resumed hR hop h
    · refine ⟨[], es, (op.run rules limit r).2, ?_, rfl, h', hdone⟩
      rw [Op.insist_done (hsame ▸ hdone), ← hsame]
    · obtain ⟨met, left, s, hinsist, rfl, hs, hdone⟩ := ih h' (Nat.le_of_succ_le_succ htries)
      rw [hagain] at hinsist hs hdone
      refine ⟨e :: met, left, s, ?_, rfl, hs, hdone⟩
      rw [Op.insist_failed hfailed, hinsist]

/-- a run whose operations are insisted on goes as without failures, and has met the first few -/
theorem persisted {ops : List Op} (hops : ∀ op ∈ ops, op.Repeatable) {tries : Nat}
    (h : Awaits R es r q) (htries : es.length ≤ tries) :
    ∃ met left s, persist rules limit tries ops r = (met, (run rules limit ops q).1, s) ∧
      es = met ++ left ∧ Awaits R left s (run rules limit ops q).2 ∧
      ∀ o ∈ (run rules limit ops q).1, ∀ e, o ≠ .failed (.source e) := by
  induction ops generalizing es r q with
  | nil => exact ⟨[], es, r, rfl, rfl, h, nofun⟩
  | cons op ops ih =>
    obtain ⟨met, later, s, hinsist, rfl, hs, hdone⟩ :=
      op.insisted hR (hops op List.mem_cons_self) h htries
    have hlater : later.length ≤ tries := by
      rw [List.length_append] at htries
      exact Nat.le_trans (Nat.le_add_left _ _) htries
    obtain ⟨met', left, t, hpersist, rfl, ht, hdone'⟩ :=
      ih (fun op' hmem => hops op' (List.mem_cons_of_mem _ hmem)) hs hlater
    rw [run_cons]
    refine ⟨met ++ met', left, t, ?_, (List.append_assoc _ _ _).symm, ht, ?_⟩
    · rw [persist, hinsist]
      dsimp only
      rw [hpersist]
    · intro o ho
      obtain rfl | ho := List.mem_cons.1 ho
      · exact hdone
      · exact hdone' o ho

end

/-- insisted on, the operations on `r` come to what the operations on `q` come to: they go the same,
none of them is left failing with its source, the buffer with its mark and the knowledge of the end
are the same, and every failure of the source was met once or is still to come -/
structure GoesAs [Source σ ε] [Source τ ε] (rules : Rules) (limit tries : Nat) (ops : List Op)
    (failures : σ → List ε) (r : Reader σ) (q : Reader τ) : Prop where
  outcomes : (persist rules limit tries ops r).2.1 = (run rules limit ops q).1
  unfailed : ∀ o ∈ (run rules limit ops q).1, ∀ e, o ≠ .failed (.source e)
  buffer : (persist rules limit tries ops r).2.2.buffer = (run rules limit ops q).2.buffer
  ended : (persist rules limit tries ops r).2.2.ended = (run rules limit ops q).2.ended
  met : failures r.source =
    (persist rules limit tries ops r).1 ++ failures (persist rules limit tries ops r).2.2.source

theorem goesAs [Source σ ε] [Source τ ε] {R : List ε → σ → τ → Prop} (hR : Source.Mended R)
    {failures : σ → List ε} (hfailures : ∀ es s t, R es s t → failures s = es) {n : Nat}
    (hn : 0 < n) (rules : Rules) (limit : Nat) {ops : List Op} (hops : ∀ op ∈ ops, op.Repeatable)
    {s : σ} {t : τ} {es : List ε} (h : R es s t) {tries : Nat} (htries : es.length ≤ tries) :
    ∃ r q, create s n = .ok r ∧ create t n = .ok q ∧
      GoesAs rules limit tries ops failures r q := by
  refine ⟨_, _, create_eq s hn, create_eq t hn, ?_⟩
  have hstart : Awaits R es (⟨s, Buffer.ofCapacity n, false, false⟩ : Reader σ)
      ⟨t, Buffer.ofCapacity n, false, false⟩ :=
    ⟨⟨h, rfl, rfl, rfl⟩, Buffer.valid_ofCapacity hn⟩
  obtain ⟨met, left, r, hpersist, hmet, hr, hdone⟩ := persisted hR hops hstart htries
  constructor
  · rw [hpersist]
  · exact hdone
  · rw [hpersist]
    exact hr.buffer
  · rw [hpersist]
    exact hr.ended
  · rw [hpersist, hfailures es s t h, hfailures left _ _ hr.source]
    exact hmet

/-- **Failures are passed over.**  Operations that look ahead, read single characters or what a test
has found, mark and go back are asked for again as long as the source fails.  Over a script with
failures anywhere, and over a decoder whose feed fails anywhere, also inside a character, they go as
they go once over the source without its failures: the outcomes are the same, the buffer and its
mark, and whether the end was found.  As many tries as there are failures are enough, and each
failure is met once. -/
theorem failures_passed_over {n : Nat} (hn : 0 < n) (rules : Rules) (limit : Nat) {ops : List Op}
    (hops : ∀ op ∈ ops, op.Repeatable) :
    (∀ (script : Script ε) (tries : Nat), script.failures.length ≤ tries →
      ∃ r q, create script n = .ok r ∧ create script.sound n = .ok q ∧
        GoesAs rules limit tries ops Script.failures r q) ∧
    (∀ (decode : Utf8.Decode) (feed : List (Utf8.Event ε)) (tries : Nat),
      (feed.filterMap Utf8.Event.failure?).length ≤ tries →
      ∃ r q, create ({ feed := { ahead := feed } } : Utf8.Decoder ε decode) n = .ok r ∧
        create ({ feed := { ahead := Utf8.sound feed } } : Utf8.Decoder ε decode) n = .ok q ∧
        GoesAs rules limit tries ops Utf8.Decoder.failures r q) := by
  refine ⟨fun script tries htries => ?_, fun decode feed tries htries => ?_⟩
  · exact goesAs Script.mended (fun _ _ _ h => h.1) hn rules limit hops ⟨rfl, rfl⟩ htries
  · exact goesAs Utf8.Decoder.mended (fun _ _ _ h => h.failures) hn rules limit hops
      (Utf8.Decoder.healed_fresh feed) htries

/-- a text that is compared over two failures and a character that is read over two more, and a
character whose bytes come with failures between them -/
theorem failures_passed_over_abc :
    let script : Script String := ⟨[.failure "slow", .char 'a', .failure "slow", .char 'b',
      .failure "late", .failure "later", .char 'c']⟩
    let feed : List (Utf8.Event String) :=
      [.byte 0xE2, .failure "slow", .byte 0x82, .interrupted, .failure "late", .byte 0xAC]
    let ops := [Op.mark 2, .acceptText ['a', 'b'], .read, .reset, .fill 3]
    0 < 2 ∧ (∀ op ∈ ops, op.Repeatable) ∧ script.failures.length ≤ 4 ∧
      (feed.filterMap Utf8.Event.failure?).length ≤ 4 ∧
      (∃ r q, create script 2 = .ok r ∧ create script.sound 2 = .ok q ∧
        GoesAs Rules.standard 9 4 ops Script.failures r q) ∧
      ∃ r q, create ({ feed := { ahead := feed } } : Utf8.Decoder String Utf8.front) 2 = .ok r ∧
        create ({ feed := { ahead := Utf8.sound feed } } : Utf8.Decoder String Utf8.front) 2 =
          .ok q ∧
        GoesAs Rules.standard 9 4 ops Utf8.Decoder.failures r q := by
  intro script feed ops
  have hops : ∀ op ∈ ops, op.Repeatable := by simp [ops, Op.Repeatable]
  have hscript : script.failures.length ≤ 4 := Nat.le_refl 4
  have hfeed : (feed.filterMap Utf8.Event.failure?).length ≤ 4 := by decide
  have hover := failures_passed_over (ε := String) Nat.two_pos Rules.standard 9 hops
  exact ⟨Nat.two_pos, hops, hscript, hfeed, hover.1 script 4 hscript,
    hover.2 Utf8.front feed 4 hfeed⟩

end Reader

end Lookahead
