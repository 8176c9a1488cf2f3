import Lookahead.Proofs.Source.Mended

/-!
# What readiness tells

A decoder calls itself ready while bytes are pending.  They were left behind by bytes that were no
character, or by a failure of the feed in the middle of one, and may be no more than the beginning
of the next character.  The next read then asks the feed for the other bytes, and may have to wait
for them, although the decoder was ready.

* `Ask`, `Decoder.after`    what can be asked of a decoder, and the decoder after it;
* `Grown`                   what pulling bytes changes;
* `length_pending_after`    a character's worth of bytes is never pending between two reads;
* `read_waits_when_ready`   a decoder that is ready and reads on;
* `ready_counts_pending`    what the next read of a ready decoder does.
-/

namespace Lookahead.Utf8

variable {ε : Type} {decode : Decode}

/-! ## reads of the feed -/

theorem Feed.reads_lt_retry (es : List (Event ε)) (past : Array (Event ε)) :
    past.size < (finalState (Feed.retry es past)).reads := by
  fun_induction Feed.retry es past with
  | case2 es past ih =>
    refine Nat.lt_trans ?_ ih
    rw [Array.size_push]
    exact Nat.lt_succ_self _
  | _ =>
    show _ < (Array.push _ _).size
    rw [Array.size_push]
    exact Nat.lt_succ_self _

theorem Feed.reads_lt_readByte (f : Feed ε) : f.reads < (finalState f.readByte).reads :=
  Feed.reads_lt_retry f.ahead f.answered

namespace Decoder

variable {d t : Decoder ε decode} {k : Nat}

/-! ## pulling bytes -/

/-- `t` is `d` with at most `k` more bytes pending -/
structure Grown (k : Nat) (d t : Decoder ε decode) : Prop where
  kept : d.pending <+: t.pending
  few : t.pending.length ≤ d.pending.length + k
  reads : d.feed.reads ≤ t.feed.reads

theorem grown_pull (k : Nat) (d : Decoder ε decode) : Grown k d (finalState (pull k d)) := by
  induction k generalizing d with
  | zero => exact ⟨List.prefix_rfl, Nat.le_refl _, Nat.le_refl _⟩
  | succ k ih =>
    have hreads := d.feed.reads_lt_readByte
    rw [pull]
    cases hf : d.feed.readByte with
    | error e f =>
      rw [hf] at hreads
      exact ⟨List.prefix_rfl, Nat.le_add_right _ _, Nat.le_of_lt hreads⟩
    | ok o f =>
      rw [hf] at hreads
      cases o with
      | none => exact ⟨List.prefix_rfl, Nat.le_add_right _ _, Nat.le_of_lt hreads⟩
      | some b =>
        have hgrown := ih { d with feed := f, pending := d.pending ++ [b] }
        refine ⟨(List.prefix_append _ _).trans hgrown.kept, ?_, ?_⟩
        · have hfew := hgrown.few
          rw [List.length_append, List.length_singleton, Nat.add_assoc, Nat.add_comm 1] at hfew
          exact hfew
        · exact Nat.le_trans (Nat.le_of_lt hreads) hgrown.reads

theorem reads_lt_pull (k : Nat) (d : Decoder ε decode) :
    d.feed.reads < (finalState (pull (k + 1) d)).feed.reads := by
  have hreads := d.feed.reads_lt_readByte
  rw [pull]
  cases hf : d.feed.readByte with
  | error e f =>
    rw [hf] at hreads
    exact hreads
  | ok o f =>
    rw [hf] at hreads
    cases o with
    | none => exact hreads
    | some b =>
      let u : Decoder ε decode := { d with feed := f, pending := d.pending ++ [b] }
      have hgrown := grown_pull k u
      exact Nat.lt_of_lt_of_le hreads hgrown.reads

theorem length_lt_of_pull_error {e : ε} (h : pull k d = .error e t) :
    t.pending.length < d.pending.length + k := by
  induction k generalizing d with
  | zero => cases h
  | succ k ih =>
    rw [pull] at h
    cases hf : d.feed.readByte with
    | error e f =>
      rw [hf] at h
      cases h
      exact Nat.lt_add_of_pos_right (Nat.succ_pos k)
    | ok o f =>
      rw [hf] at h
      cases o with
      | none => cases h
      | some b =>
        have hlt := ih h
        rw [List.length_append, List.length_singleton] at hlt
        omega

/-! ## what is pending between two reads -/

theorem length_takeFront_lt (hd : d.pending.length ≤ 4) :
    (finalState (takeFront d)).pending.length < 4 := by
  unfold takeFront
  cases hp : d.pending with
  | nil =>
    show d.pending.length < 4
    rw [hp]
    decide
  | cons b bs =>
    have hpos := (decode (b :: bs)).taken_pos
    rw [hp] at hd
    show ((b :: bs).drop (decode (b :: bs)).taken).length < 4
    rw [List.length_drop]
    omega

theorem length_require_le (hd : d.pending.length ≤ 4) (b : UInt8) :
    (finalState (require (announced b) d)).pending.length ≤ 4 := by
  have hannounced := announced_le b
  have hfew := (grown_pull (announced b - d.pending.length) d).few
  unfold require
  omega

theorem length_complete_lt (hd : d.pending.length < 4) :
    (finalState (complete d)).pending.length < 4 := by
  unfold complete
  cases hp : d.pending with
  | nil => exact hd
  | cons b bs =>
    have hfour := length_require_le (Nat.le_of_lt hd) b
    dsimp only
    cases hr : require (announced b) d with
    | error e t =>
      have hlt := length_lt_of_pull_error hr
      have hannounced := announced_le b
      show t.pending.length < 4
      omega
    | ok _ t =>
      -- a front of one byte at least is taken off
      rw [hr] at hfour
      exact length_takeFront_lt hfour

theorem length_readChar_lt (hd : d.pending.length < 4) :
    (finalState (readChar d)).pending.length < 4 := by
  unfold readChar require
  by_cases hc : d.closed = true
  · rw [if_pos hc]
    exact hd
  · rw [if_neg hc]
    have hfew := (grown_pull (1 - d.pending.length) d).few
    cases hr : pull (1 - d.pending.length) d with
    | error e t =>
      have hlt := length_lt_of_pull_error hr
      show t.pending.length < 4
      omega
    | ok _ t =>
      rw [hr] at hfew
      refine length_complete_lt ?_
      change t.pending.length ≤ _ at hfew
      omega

/-! ## runs -/

inductive Ask where
  | readChar
  | ready
  | close
  deriving DecidableEq

/-- the decoder after it was asked for this, whether or not its feed failed -/
def Ask.run : Ask → Decoder ε decode → Decoder ε decode
  | .readChar, d => finalState (Decoder.readChar d)
  | .ready, d => finalState (Decoder.ready d)
  | .close, d => finalState (Decoder.close d)

/-- a decoder of the feed that was asked for these, one after another -/
def after (feed : List (Event ε)) (asks : List Ask) : Decoder ε decode :=
  asks.foldl (fun d ask => ask.run d) { feed := { ahead := feed } }

theorem Ask.length_run_lt (ask : Ask) (hd : d.pending.length < 4) :
    (ask.run d).pending.length < 4 := by
  cases ask with
  | readChar => exact length_readChar_lt hd
  | ready => exact hd
  | close => exact Nat.succ_pos 3

/-- the bytes pending are fewer than the longest character has -/
theorem length_pending_after (feed : List (Event ε)) (asks : List Ask) :
    (after feed asks : Decoder ε decode).pending.length < 4 := by
  have hrun : ∀ d : Decoder ε decode, d.pending.length < 4 →
      (asks.foldl (fun d ask => ask.run d) d).pending.length < 4 := by
    induction asks with
    | nil => exact fun _ hd => hd
    | cons ask asks ih => exact fun d hd => ih _ (ask.length_run_lt hd)
  exact hrun _ (Nat.succ_pos 3)

/-! ## reading when ready -/

section
variable {b : UInt8} {bs : List UInt8}

theorem readChar_of_pending (hopen : d.closed = false) (hp : d.pending = b :: bs) :
    readChar d = complete d := by
  refine readChar_of_ok hopen (u := ()) ?_
  have hnone : 1 - d.pending.length = 0 := by
    rw [hp, List.length_cons]
    omega
  rw [require, hnone]
  rfl

theorem readChar_of_announced (hopen : d.closed = false) (hp : d.pending = b :: bs)
    (hall : announced b ≤ d.pending.length) :
    readChar d = .ok (some (decode (b :: bs)).char)
      { d with pending := (b :: bs).drop (decode (b :: bs)).taken } := by
  have hrequire : require (announced b) d = .ok () d := by
    rw [require, Nat.sub_eq_zero_of_le hall]
    rfl
  rw [readChar_of_pending hopen hp, complete_of_ok hp hrequire, takeFront, hp]

theorem takeFront_of_pending (hp : d.pending = b :: bs) :
    ∃ c t, takeFront d = .ok (some c) t ∧ t.feed = d.feed := by
  unfold takeFront
  rw [hp]
  exact ⟨_, _, rfl, rfl⟩

/-- where some of them are missing, the feed is asked for them, and the end is not reported -/
theorem readChar_of_missing (hopen : d.closed = false) (hp : d.pending = b :: bs)
    (hless : d.pending.length < announced b) :
    d.feed.reads < (finalState (readChar d)).feed.reads ∧ ∀ t, readChar d ≠ .ok none t := by
  obtain ⟨k, hk⟩ : ∃ k, announced b - d.pending.length = k + 1 :=
    ⟨announced b - d.pending.length - 1, by omega⟩
  have hrequire : require (announced b) d = pull (k + 1) d := by rw [require, hk]
  have hreads := reads_lt_pull k d
  have hkept := (grown_pull (k + 1) d).kept
  rw [readChar_of_pending hopen hp]
  cases hr : pull (k + 1) d with
  | error e t =>
    rw [hr] at hreads
    rw [complete_of_error hp (hrequire.trans hr)]
    exact ⟨hreads, fun _ hno => by cases hno⟩
  | ok _ t =>
    rw [hr] at hreads hkept
    obtain ⟨cs, hcs⟩ := hkept
    have hpending : t.pending = b :: (bs ++ cs) := by
      rw [← List.cons_append, ← hp]
      exact hcs.symm
    obtain ⟨c, u, hu, hfeed⟩ := takeFront_of_pending hpending
    rw [complete_of_ok hp (hrequire.trans hr), hu]
    refine ⟨?_, fun _ hno => by cases hno⟩
    show d.feed.reads < u.feed.reads
    rw [hfeed]
    exact hreads

end

/-- two bytes are to make a character, and a failure falls between them: the decoder is ready, and
then it reads the feed -/
theorem read_waits_when_ready :
    let feed : List (Event String) := [.byte 0xC3, .failure "slow", .byte 0xA9]
    let d : Decoder String front := after feed [.readChar]
    ready d = .ok true d ∧ d.feed.reads = 2 ∧ (finalState (readChar d)).feed.reads = 3 :=
  ⟨rfl, rfl, rfl⟩

/-- **Readiness counts pending bytes.**  Whatever was asked of a decoder, it calls itself ready
exactly while it is open and bytes are pending, of which there are at most three.  The next read of
a ready decoder gives a character or fails, and does not come to the end.  It makes no read of the
feed if as many bytes are pending as the first of them announces, and at least one if fewer are. -/
theorem ready_counts_pending (feed : List (Event ε)) (asks : List Ask) :
    let d : Decoder ε decode := after feed asks
    d.pending.length < 4 ∧
    (ready d = .ok true d ↔ d.closed = false ∧ d.pending ≠ []) ∧
    (ready d = .ok true d → ∃ b bs, d.pending = b :: bs ∧
      (announced b ≤ d.pending.length → readChar d =
        .ok (some (decode (b :: bs)).char)
          { d with pending := (b :: bs).drop (decode (b :: bs)).taken }) ∧
      (d.pending.length < announced b →
        d.feed.reads < (finalState (readChar d)).feed.reads ∧ ∀ t, readChar d ≠ .ok none t)) := by
  intro d
  have hready : ready d = .ok true d ↔ d.closed = false ∧ d.pending ≠ [] := by
    unfold ready
    simp
  refine ⟨length_pending_after feed asks, hready, fun h => ?_⟩
  obtain ⟨hopen, hne⟩ := hready.1 h
  obtain ⟨b, bs, hp⟩ := List.exists_cons_of_ne_nil hne
  exact ⟨b, bs, hp, readChar_of_announced hopen hp, readChar_of_missing hopen hp⟩

/-- a character that is broken off by another one: the byte that was read too far is at hand -/
theorem ready_counts_pending_abc :
    let feed : List (Event String) := [.byte 0xE2, .byte 0x41, .byte 0x42]
    let d : Decoder String front := after feed [.readChar]
    ready d = .ok true d ∧ readChar d = .ok (some 'A') { d with pending := [0x42] } := by
  intro feed d
  have hready : ready d = .ok true d := rfl
  obtain ⟨-, -, hnext⟩ := ready_counts_pending feed [.readChar]
  obtain ⟨b, bs, hp, hall, -⟩ := hnext hready
  obtain ⟨rfl, rfl⟩ := List.cons.inj (show [0x41, 0x42] = b :: bs from hp)
  exact ⟨hready, hall (by decide)⟩

end Decoder

end Lookahead.Utf8
