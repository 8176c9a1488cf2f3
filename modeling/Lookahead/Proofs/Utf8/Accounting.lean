import Lookahead.Proofs.Utf8.Slots

/-!
# Where the bytes went

Every byte that a decoder pulls belongs to the next character returned or is pending.  A read pulls
bytes, which are pending then, and takes those of one character off the front; nothing else is done
with them, wherever the feed fails or has nothing to read.

* `Makes`                   bytes that were read as one character, and those at hand after them;
* `Attributed`              pieces of the bytes pulled, each of which made its character;
* `Decoder.reads`           so many reads, whether or not they fail;
* `Accounts`                the bytes pulled are those of the characters returned and those pending;
* `Accounts.readChar`       one read keeps the accounts, and so do many (`Accounts.reads`);
* `every_byte_accounted`    the accounts and the four slots after every read.
-/

namespace Lookahead.Utf8

open Lookahead.Checked (ok_bind)

variable {ε : Type} {decode : Decode}

/-! ## the bytes of one character -/

/-- at the front of four bytes at most stands `p`, and is read as `c` -/
structure Makes (decode : Decode) (p more : List UInt8) (c : Char) : Prop where
  few : (p ++ more).length ≤ 4
  char : (decode (p ++ more)).char = c
  taken : (decode (p ++ more)).taken = p.length

theorem Makes.size {p more : List UInt8} {c : Char} (h : Makes decode p more c) :
    1 ≤ p.length ∧ p.length ≤ 4 := by
  have hpos := (decode (p ++ more)).taken_pos
  have hfew := h.few
  rw [h.taken] at hpos
  rw [List.length_append] at hfew
  exact ⟨hpos, by omega⟩

/-- each piece made its character, with bytes at hand that come after it -/
inductive Attributed (decode : Decode) (pending : List UInt8) :
    List (List UInt8) → List Char → Prop where
  | nil : Attributed decode pending [] []
  | cons {p more : List UInt8} {pieces : List (List UInt8)} {c : Char} {chars : List Char}
      (makes : Makes decode p more c) (next : more <+: pieces.flatten ++ pending)
      (rest : Attributed decode pending pieces chars) :
      Attributed decode pending (p :: pieces) (c :: chars)

namespace Attributed

variable {pending p : List UInt8} {pieces : List (List UInt8)} {c : Char} {chars : List Char}

theorem length (h : Attributed decode pending pieces chars) : pieces.length = chars.length := by
  induction h with
  | nil => rfl
  | cons _ _ _ ih => exact congrArg (· + 1) ih

theorem sizes (h : Attributed decode pending pieces chars) :
    ∀ p ∈ pieces, 1 ≤ p.length ∧ p.length ≤ 4 := by
  induction h with
  | nil => exact fun _ hp => absurd hp List.not_mem_nil
  | cons makes _ _ ih => exact List.forall_mem_cons.2 ⟨makes.size, ih⟩

theorem mono {held : List UInt8} (h : Attributed decode held pieces chars)
    (hheld : held <+: pending) : Attributed decode pending pieces chars := by
  induction h with
  | nil => exact .nil
  | cons makes next _ ih =>
    exact .cons makes (next.trans ((List.prefix_append_right_inj _).2 hheld)) ih

theorem concat (h : Attributed decode (p ++ pending) pieces chars)
    (hp : Makes decode p pending c) : Attributed decode pending (pieces ++ [p]) (chars ++ [c]) := by
  induction h with
  | nil => exact .cons hp List.prefix_rfl .nil
  | cons makes next _ ih =>
    refine .cons makes ?_ ih
    show _ <+: (_ ++ [p]).flatten ++ pending
    rw [List.flatten_append, List.flatten_singleton, List.append_assoc]
    exact next

end Attributed

/-! ## bytes as they are pulled -/

theorem Feed.pulled_retry (es : List (Event ε)) (past : Array (Event ε)) :
    (finalState (retry es past)).pulled = past.toList.filterMap Event.byte? ++
      match retry es past with
      | .ok (some b) _ => [b]
      | _ => [] := by
  fun_induction retry es past with
  | case2 es past ih =>
    rw [ih, Array.toList_push, List.filterMap_append]
    exact congrArg (· ++ _) (List.append_nil _)
  | _ =>
    show (Array.push _ _).toList.filterMap Event.byte? = _
    rw [Array.toList_push, List.filterMap_append]
    rfl

theorem Feed.pulled_readByte (f : Feed ε) :
    (finalState f.readByte).pulled = f.pulled ++
      match f.readByte with
      | .ok (some b) _ => [b]
      | _ => [] := Feed.pulled_retry f.ahead f.answered

namespace Decoder

variable {d t : Decoder ε decode} {past held : List UInt8} {k : Nat}

/-- an open decoder has pulled the bytes `past` and those that are pending, the bytes `held` before
the others -/
structure Owes (past held : List UInt8) (d : Decoder ε decode) : Prop where
  opened : d.closed = false
  pulled : d.feed.pulled = past ++ d.pending
  kept : held <+: d.pending

theorem Owes.pull (h : Owes past held d) (k : Nat) : Owes past held (finalState (pull k d)) := by
  induction k generalizing d with
  | zero => exact h
  | succ k ih =>
    have hread := d.feed.pulled_readByte
    rw [Decoder.pull]
    cases hf : d.feed.readByte with
    | error e f =>
      rw [hf] at hread
      exact ⟨h.opened, (hread.trans (List.append_nil _)).trans h.pulled, h.kept⟩
    | ok o f =>
      rw [hf] at hread
      cases o with
      | none => exact ⟨h.opened, (hread.trans (List.append_nil _)).trans h.pulled, h.kept⟩
      | some b =>
        refine ih ⟨h.opened, ?_, h.kept.trans (List.prefix_append _ _)⟩
        show f.pulled = past ++ (d.pending ++ [b])
        rw [← List.append_assoc, ← h.pulled]
        exact hread

theorem Owes.require (h : Owes past held d) (n : Nat) :
    Owes past held (finalState (require n d)) := h.pull (n - d.pending.length)

/-! ## one read -/

/-- what a read does to what is owed: a character takes the bytes it is made of -/
def Pays (past held : List UInt8) : EStateM.Result ε (Decoder ε decode) (Option Char) → Prop
  | .ok (some c) t =>
    ∃ p, Makes decode p t.pending c ∧ held <+: p ++ t.pending ∧ Owes (past ++ p) [] t
  | .ok none t => Owes past held t
  | .error _ t => Owes past held t

theorem Owes.takeFront (hdecode : decode.Fits) (h : Owes past held d)
    (hfew : d.pending.length ≤ 4) : Pays past held (takeFront d) := by
  unfold Decoder.takeFront
  cases hp : d.pending with
  | nil => exact h
  | cons b bs =>
    have hpulled := h.pulled
    have hkept := h.kept
    have hall := List.take_append_drop (decode (b :: bs)).taken (b :: bs)
    rw [hp] at hpulled hkept hfew
    refine ⟨(b :: bs).take (decode (b :: bs)).taken, ⟨?_, ?_, ?_⟩, ?_, h.opened, ?_,
      List.nil_prefix⟩
    · rwa [hall]
    · rw [hall]
    · rw [hall, List.length_take, Nat.min_eq_left (hdecode.taken_le b bs)]
    · rwa [hall]
    · show d.feed.pulled = past ++ _ ++ (b :: bs).drop (decode (b :: bs)).taken
      rw [List.append_assoc, hall]
      exact hpulled

theorem Owes.complete (hdecode : decode.Fits) (h : Owes past held d)
    (hfew : d.pending.length ≤ 4) : Pays past held (complete d) := by
  cases hp : d.pending with
  | nil =>
    rw [Decoder.complete, hp]
    exact h
  | cons b bs =>
    have hall := h.require (announced b)
    have hfour := length_require_le hfew b
    cases hx : Decoder.require (announced b) d with
    | error e t =>
      rw [hx] at hall
      rw [complete_of_error hp hx]
      exact hall
    | ok _ t =>
      rw [hx] at hall hfour
      rw [complete_of_ok hp hx]
      exact Owes.takeFront hdecode hall hfour

theorem Owes.readChar (hdecode : decode.Fits) (h : Owes past held d)
    (hfew : d.pending.length < 4) : Pays past held (readChar d) := by
  have hone := h.require 1
  have hgrown := (grown_pull (1 - d.pending.length) d).few
  cases hx : Decoder.require 1 d with
  | error e t =>
    rw [hx] at hone
    rw [readChar_of_error h.opened hx]
    exact hone
  | ok _ t =>
    rw [hx] at hone
    rw [show Decoder.pull (1 - d.pending.length) d = .ok () t from hx] at hgrown
    rw [readChar_of_ok h.opened hx]
    refine Owes.complete hdecode hone ?_
    change t.pending.length ≤ _ at hgrown
    omega

/-! ## many reads -/

/-- what `k` reads come to, failed ones among them, and the decoder after them -/
def reads : Nat → Decoder ε decode → List (Except ε (Option Char)) × Decoder ε decode
  | 0, d => ([], d)
  | k + 1, d =>
    let (os, d) := reads k d
    (os ++ [outcomeOf (readChar d)], finalState (readChar d))

def returned (os : List (Except ε (Option Char))) : List Char :=
  os.filterMap fun o => o.toOption.join

theorem reads_succ (k : Nat) (d : Decoder ε decode) :
    reads (k + 1) d = ((reads k d).1 ++ [outcomeOf (readChar (reads k d).2)],
      finalState (readChar (reads k d).2)) := rfl

theorem returned_append (os ps : List (Except ε (Option Char))) :
    returned (os ++ ps) = returned os ++ returned ps := List.filterMap_append

/-- the bytes pulled are those of the pieces, which made the characters returned, and those pending,
of which there are three at most -/
structure Accounts (pieces : List (List UInt8)) (chars : List Char) (d : Decoder ε decode) :
    Prop where
  owes : Owes pieces.flatten d.pending d
  few : d.pending.length < 4
  made : Attributed decode d.pending pieces chars

theorem Accounts.unread {pieces : List (List UInt8)} {chars : List Char} {t : Decoder ε decode}
    (h : Accounts pieces chars d) (howes : Owes pieces.flatten d.pending t)
    (hfew : t.pending.length < 4) : Accounts pieces chars t :=
  ⟨⟨howes.opened, howes.pulled, List.prefix_rfl⟩, hfew, h.made.mono howes.kept⟩

/-- one read adds the piece of the character it returns, if it does -/
theorem Accounts.readChar (hdecode : decode.Fits) {pieces : List (List UInt8)} {chars : List Char}
    (h : Accounts pieces chars d) : ∃ more : List (List UInt8),
      Accounts (pieces ++ more) (chars ++ returned [outcomeOf (readChar d)])
        (finalState (readChar d)) := by
  have hpays := h.owes.readChar hdecode h.few
  have hfew := length_readChar_lt h.few
  cases hx : Decoder.readChar d with
  | error e t =>
    rw [hx] at hpays hfew
    refine ⟨[], ?_⟩
    show Accounts (pieces ++ []) (chars ++ []) t
    rw [List.append_nil, List.append_nil]
    exact h.unread hpays hfew
  | ok o t =>
    rw [hx] at hpays hfew
    cases o with
    | none =>
      refine ⟨[], ?_⟩
      show Accounts (pieces ++ []) (chars ++ []) t
      rw [List.append_nil, List.append_nil]
      exact h.unread hpays hfew
    | some c =>
      obtain ⟨p, hp, hheld, howes⟩ := hpays
      refine ⟨[p], ⟨howes.opened, ?_, List.prefix_rfl⟩, hfew, (h.made.mono hheld).concat hp⟩
      rw [List.flatten_append, List.flatten_singleton]
      exact howes.pulled

/-- the pieces of all characters returned in `k` reads, those of fewer reads standing first -/
theorem Accounts.reads (hdecode : decode.Fits) (h : Accounts [] [] d) (k : Nat) :
    ∃ pieces : List (List UInt8), pieces.length = (returned (Decoder.reads k d).1).length ∧
      ∀ i ≤ k, Accounts (pieces.take (returned (Decoder.reads i d).1).length)
        (returned (Decoder.reads i d).1) (Decoder.reads i d).2 := by
  induction k with
  | zero =>
    refine ⟨[], rfl, fun i hi => ?_⟩
    obtain rfl : i = 0 := Nat.le_zero.1 hi
    exact h
  | succ k ih =>
    obtain ⟨pieces, hlen, hall⟩ := ih
    have hlast := hall k (Nat.le_refl k)
    rw [← hlen, List.take_length] at hlast
    obtain ⟨more, hmore⟩ := hlast.readChar hdecode
    have hnext : Accounts (pieces ++ more) (returned (Decoder.reads (k + 1) d).1)
        (Decoder.reads (k + 1) d).2 := by
      rw [reads_succ, returned_append]
      exact hmore
    refine ⟨pieces ++ more, hnext.made.length, fun i hi => ?_⟩
    obtain hi | rfl := Nat.le_succ_iff.1 hi
    · have hfirst := (hall i hi).made.length
      rw [List.length_take] at hfirst
      rw [List.take_append_of_le_length (by omega)]
      exact hall i hi
    · rw [← hnext.made.length, List.take_length]
      exact hnext

/-! ## many reads with four slots -/

theorem keeps_reads (hdecode : decode.Fits) {s : Slots ε decode} (h : s.Keeps d)
    (hfew : d.pending.length < 4) (k : Nat) :
    ∃ t, s.reads k = .ok ((reads k d).1, t) ∧ t.Keeps (reads k d).2 ∧
      (reads k d).2.pending.length < 4 := by
  induction k with
  | zero => exact ⟨s, rfl, h, hfew⟩
  | succ k ih =>
    obtain ⟨t, ht, hkeeps, hlt⟩ := ih
    obtain ⟨r, hr, hsame⟩ := hkeeps.readChar hdecode hlt
    have hnext := length_readChar_lt hlt
    rw [Slots.reads, ht, ok_bind]
    dsimp only
    rw [hr, ok_bind, reads_succ]
    obtain ⟨o, u, v, rfl, hv, hr⟩ | ⟨e, u, v, rfl, hv, hr⟩ := hsame.cases
    · rw [hv] at hnext ⊢
      exact ⟨u, rfl, hr, hnext⟩
    · rw [hv] at hnext ⊢
      exact ⟨u, rfl, hr, hnext⟩

/-- **Every byte is accounted for.**  A feed answers with bytes, interruptions, failures and nothing,
in any order, and no more bytes are taken for a character than there are.  Then there are pieces of
one to four bytes, one for each character returned in `k` reads.  After every one of these reads,
also one that failed, the bytes pulled so far are the pieces of the characters returned so far, in
order, and the bytes pending, of which there are three at most; and each of these pieces was read as
its character, with none or some of the bytes after it at hand.  Four slots hold the bytes pending:
with every slot looked up and every move of bytes checked, the reads go on without a fault and come
to the same. -/
theorem every_byte_accounted (hdecode : decode.Fits) (feed : List (Event ε)) (k : Nat) :
    let start : Decoder ε decode := { feed := { ahead := feed } }
    let machine : Slots ε decode := { feed := { ahead := feed } }
    ∃ pieces : List (List UInt8),
      (∀ p ∈ pieces, 1 ≤ p.length ∧ p.length ≤ 4) ∧
      pieces.length = (returned (reads k start).1).length ∧
      ∀ i ≤ k,
        let d := (reads i start).2
        let chars := returned (reads i start).1
        let sofar := pieces.take chars.length
        d.pending.length ≤ 3 ∧ Attributed decode d.pending sofar chars ∧
          d.feed.pulled = sofar.flatten ++ d.pending ∧
          ∃ s, machine.reads i = .ok ((reads i start).1, s) ∧ s.feed = d.feed ∧
            s.slots.size = 4 ∧ s.len = d.pending.length ∧
            s.slots.toList.take s.len = d.pending := by
  intro start machine
  have hstart : Accounts [] [] start := ⟨⟨rfl, rfl, List.prefix_rfl⟩, Nat.succ_pos 3, .nil⟩
  obtain ⟨pieces, hlen, hall⟩ := hstart.reads hdecode k
  have hlast := hall k (Nat.le_refl k)
  rw [← hlen, List.take_length] at hlast
  refine ⟨pieces, hlast.made.sizes, hlen, fun i hi => ?_⟩
  have haccounts := hall i hi
  obtain ⟨s, hs, hkeeps, -⟩ :=
    keeps_reads hdecode (Slots.keeps_start { ahead := feed }) (Nat.succ_pos 3) i
  exact ⟨Nat.le_of_lt_succ haccounts.few, haccounts.made, haccounts.owes.pulled, s, hs,
    hkeeps.feed, hkeeps.size, hkeeps.len, hkeeps.bytes⟩

/-- a character that fails in the middle and is broken off then: after the second read its two bytes
are accounted for, and the byte that broke it off stands in the first slot -/
theorem every_byte_accounted_abc :
    let feed : List (Event String) :=
      [.byte 0xE2, .interrupted, .byte 0x82, .failure "slow", .byte 0x61, .nothing, .byte 0xC3]
    let start : Decoder String front := { feed := { ahead := feed } }
    let machine : Slots String front := { feed := { ahead := feed } }
    Decode.Fits front ∧ 2 ≤ 3 ∧ ∃ pieces : List (List UInt8), pieces.length = 2 ∧
      (reads 2 start).2.feed.pulled = [0xE2, 0x82, 0x61] ∧
      (pieces.take 1).flatten ++ [0x61] = [0xE2, 0x82, 0x61] ∧
      ∃ s, machine.reads 2 = .ok ([.error "slow", .ok (some '\uFFFD')], s) ∧
        s.slots.toList.take s.len = [0x61] := by
  intro feed start machine
  have htwo : 2 ≤ 3 := by decide
  obtain ⟨pieces, -, hlen, hall⟩ := every_byte_accounted fits_front feed 3
  obtain ⟨-, -, hpulled, s, hs, -, -, -, hbytes⟩ := hall 2 htwo
  exact ⟨fits_front, htwo, pieces, hlen, rfl, hpulled.symm, s, hs, hbytes⟩

end Decoder

end Lookahead.Utf8
