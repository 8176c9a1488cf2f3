import Lookahead.Proofs.Source.Calls
import Lookahead.Proofs.Utf8.Encoding
import Lookahead.Utf8.Decoder

/-!
# Decoding as the bytes come

A decoder never sees its input as a whole: bytes come one at a time, reads are interrupted, and a
failure may fall between the bytes of one character.  What counts is what it is still to give, the
bytes that are pending and those ahead, and this list of bytes is only cut at its front: a read takes
the first character off it, a failure leaves it as it is.

* `Decoder.Holds`      the bytes and the failures that a decoder is still to give;
* `Holds.readChar`     what one read does to them;
* `Holds.remainder`    what all reads up to the end give;
* `streaming_lossy`    they give the characters of the whole input, and each failure once.
-/

namespace Lookahead

namespace Utf8

def Event.failure? {ε : Type} : Event ε → Option ε
  | .failure e => some e
  | _ => none

namespace Decoder

variable {ε : Type} {decode : Decode} {d : Decoder ε decode} {bs : List UInt8} {es : List ε}

/-- an open decoder, whose feed gives nothing only at its end, is still to give these bytes and these
failures -/
structure Holds (d : Decoder ε decode) (bs : List UInt8) (es : List ε) : Prop where
  opened : d.closed = false
  lasting : Event.nothing ∉ d.feed.ahead
  bytes : d.pending ++ d.feed.ahead.filterMap Event.byte? = bs
  failures : d.feed.ahead.filterMap Event.failure? = es

/-! ## one read of the feed -/

theorem retry_spec (ahead : List (Event ε)) (past : Array (Event ε))
    (h : Event.nothing ∉ ahead) :
    match Feed.retry ahead past with
    | .ok (some b) f =>
      ahead.filterMap Event.byte? = b :: f.ahead.filterMap Event.byte? ∧
        ahead.filterMap Event.failure? = f.ahead.filterMap Event.failure? ∧
        Event.nothing ∉ f.ahead
    | .ok none f =>
      ahead.filterMap Event.byte? = [] ∧ ahead.filterMap Event.failure? = [] ∧ f.ahead = []
    | .error e f =>
      ahead.filterMap Event.byte? = f.ahead.filterMap Event.byte? ∧
        ahead.filterMap Event.failure? = e :: f.ahead.filterMap Event.failure? ∧
        Event.nothing ∉ f.ahead := by
  fun_induction Feed.retry ahead past with
  | case1 past => exact ⟨rfl, rfl, rfl⟩
  | case2 es past ih => exact ih fun hmem => h (List.mem_cons_of_mem _ hmem)
  | case3 b es past => exact ⟨rfl, rfl, fun hmem => h (List.mem_cons_of_mem _ hmem)⟩
  | case4 e es past => exact ⟨rfl, rfl, fun hmem => h (List.mem_cons_of_mem _ hmem)⟩
  | case5 es past => exact absurd List.mem_cons_self h

/-! ## pulling bytes -/

/-- pulling moves bytes from those ahead to those pending: as many as asked for, or all there are; a
failure is met once -/
theorem Holds.pull (h : d.Holds bs es) (k : Nat) :
    match pull k d with
    | .ok _ t => t.Holds bs es ∧ t.pending = bs.take (d.pending.length + k) ∧
        (bs.length < d.pending.length + k → t.feed.ahead = [])
    | .error e t => ∃ fs, es = e :: fs ∧ t.Holds bs fs := by
  induction k generalizing d with
  | zero =>
    have hbytes := h.bytes
    refine ⟨h, ?_, fun hlt => ?_⟩
    · rw [← hbytes, Nat.add_zero, List.take_left]
    · rw [← hbytes, List.length_append] at hlt
      omega
  | succ k ih =>
    have hbytes := h.bytes
    have hfailures := h.failures
    have hread := retry_spec d.feed.ahead d.feed.answered h.lasting
    rw [Decoder.pull]
    unfold Feed.readByte
    cases hf : Feed.retry d.feed.ahead d.feed.answered with
    | error e f =>
      rw [hf] at hread
      obtain ⟨hb, he, hlast⟩ := hread
      rw [hb] at hbytes
      rw [he] at hfailures
      exact ⟨_, hfailures.symm, h.opened, hlast, hbytes, rfl⟩
    | ok o f =>
      rw [hf] at hread
      cases o with
      | none =>
        -- the feed has no answers left: all bytes still to be given are pending
        obtain ⟨hb, he, hend⟩ := hread
        rw [hb, List.append_nil] at hbytes
        rw [he] at hfailures
        refine ⟨⟨h.opened, ?_, ?_, ?_⟩, ?_, fun _ => hend⟩
        · show Event.nothing ∉ f.ahead
          rw [hend]
          exact List.not_mem_nil
        · show d.pending ++ f.ahead.filterMap Event.byte? = bs
          rw [hend, ← hbytes]
          exact List.append_nil _
        · show f.ahead.filterMap Event.failure? = es
          rw [hend, ← hfailures]
          rfl
        · rw [← hbytes, List.take_of_length_le (Nat.le_add_right _ _)]
      | some b =>
        obtain ⟨hb, he, hlast⟩ := hread
        have hnext : ({ d with feed := f, pending := d.pending ++ [b] } : Decoder ε decode).Holds
            bs es := by
          refine ⟨h.opened, hlast, ?_, he.symm.trans hfailures⟩
          show (d.pending ++ [b]) ++ f.ahead.filterMap Event.byte? = bs
          rw [List.append_assoc, List.singleton_append, ← hb, hbytes]
        have hrest := ih hnext
        rw [List.length_append, List.length_singleton, Nat.add_assoc, Nat.add_comm 1 k] at hrest
        exact hrest

theorem Holds.require (h : d.Holds bs es) (n : Nat) :
    match require n d with
    | .ok _ t => t.Holds bs es ∧ t.pending = bs.take (max n d.pending.length) ∧
        (bs.length < n → t.feed.ahead = [])
    | .error e t => ∃ fs, es = e :: fs ∧ t.Holds bs fs := by
  have hpull := h.pull (n - d.pending.length)
  unfold Decoder.require
  cases hx : Decoder.pull (n - d.pending.length) d with
  | error e t =>
    rw [hx] at hpull
    exact hpull
  | ok _ t =>
    rw [hx] at hpull
    obtain ⟨ht, hpending, hshort⟩ := hpull
    refine ⟨ht, ?_, fun hlt => hshort (by omega)⟩
    rw [hpending]
    exact congrArg bs.take (by omega)

/-! ## reading a character -/

/-- what reading a character does to what is still to give: enough of the bytes are decoded, and what
stands at their front is taken off -/
def Reads (bs : List UInt8) (es : List ε) :
    EStateM.Result ε (Decoder ε decode) (Option Char) → Prop
  | .ok none t => bs = [] ∧ es = [] ∧ t.Holds [] [] ∧ t.feed.ahead = []
  | .ok (some c) t => ∃ q later, bs = q ++ later ∧ Enough q later ∧ c = (decode q).char ∧
      t.Holds (q.drop (decode q).taken ++ later) es
  | .error e t => ∃ fs, es = e :: fs ∧ t.Holds bs fs

theorem Holds.takeFront {b : UInt8} {rest : List UInt8} {m : Nat} (h : d.Holds (b :: rest) es)
    (hpending : d.pending = (b :: rest).take m) (hm : announced b ≤ m) :
    Reads (b :: rest) es (takeFront d) := by
  have hpos := announced_pos b
  obtain ⟨j, rfl⟩ : ∃ j, m = j + 1 := ⟨m - 1, by omega⟩
  rw [List.take_succ_cons] at hpending
  have hbytes := h.bytes
  rw [hpending] at hbytes
  unfold Decoder.takeFront
  rw [hpending]
  refine ⟨b :: rest.take j, _, hbytes.symm, ⟨b, _, rfl, ?_⟩, rfl, h.opened, h.lasting, rfl,
    h.failures⟩
  by_cases hj : j ≤ rest.length
  · left
    rw [List.length_cons, List.length_take, Nat.min_eq_left hj]
    exact hm
  · right
    rw [List.take_of_length_le (by omega)] at hbytes
    exact List.append_right_eq_self.1 hbytes

theorem Holds.complete (h : d.Holds bs es) (hpending : d.pending = bs.take (max 1 d.pending.length))
    (hshort : bs = [] → d.feed.ahead = []) : Reads bs es (complete d) := by
  unfold Decoder.complete
  cases bs with
  | nil =>
    have hend := hshort rfl
    obtain rfl : [] = es := by
      rw [← h.failures, hend]
      rfl
    rw [List.take_nil] at hpending
    rw [hpending]
    exact ⟨rfl, rfl, h, hend⟩
  | cons b rest =>
    obtain ⟨j, hj⟩ : ∃ j, max 1 d.pending.length = j + 1 := ⟨max 1 d.pending.length - 1, by omega⟩
    rw [hj, List.take_succ_cons] at hpending
    have hrequire := h.require (announced b)
    rw [hpending]
    dsimp only
    cases hx : Decoder.require (announced b) d with
    | error e t =>
      rw [hx] at hrequire
      exact hrequire
    | ok _ t =>
      rw [hx] at hrequire
      obtain ⟨ht, hp, -⟩ := hrequire
      exact ht.takeFront hp (Nat.le_max_left _ _)

/-- a read takes the first character off the bytes, or meets the first failure and leaves them -/
theorem Holds.readChar (h : d.Holds bs es) : Reads bs es (readChar d) := by
  have hrequire := h.require 1
  unfold Decoder.readChar
  rw [if_neg (by rw [h.opened]; exact Bool.false_ne_true)]
  cases hx : Decoder.require 1 d with
  | error e t =>
    rw [hx] at hrequire
    exact hrequire
  | ok _ t =>
    rw [hx] at hrequire
    obtain ⟨ht, hp, hshort⟩ := hrequire
    refine ht.complete ?_ fun hnil => hshort (by rw [hnil]; exact Nat.one_pos)
    have hlen := congrArg List.length hp
    rw [List.length_take] at hlen
    rw [hp]
    refine List.take_eq_take_iff.2 ?_
    rw [List.length_take]
    omega

/-! ## reading to the end -/

/-- reads up to the end give the characters of all bytes still to come and each failure once -/
theorem Holds.remainder (hdecode : decode.Cuts) (h : d.Holds bs es) :
    (Source.remainder d).filterMap Except.toOption = lossy decode bs ∧
      (Source.remainder d).filterMap failure? = es := by
  have hread := h.readChar
  induction d using Source.remainder.induct generalizing bs es with
  | case1 d t hx =>
    have hx : Decoder.readChar d = .ok none t := hx
    rw [hx] at hread
    obtain ⟨rfl, rfl, -⟩ := hread
    rw [Source.remainder_none hx, lossy_nil]
    exact ⟨rfl, rfl⟩
  | case2 d c t hx ih =>
    have hx : Decoder.readChar d = .ok (some c) t := hx
    rw [hx] at hread
    obtain ⟨q, later, rfl, hq, rfl, ht⟩ := hread
    obtain ⟨hchars, hfailures⟩ := ih ht ht.readChar
    rw [Source.remainder_some hx, hdecode.lossy_enough hq]
    exact ⟨congrArg (_ :: ·) hchars, hfailures⟩
  | case3 d e t hx ih =>
    have hx : Decoder.readChar d = .error e t := hx
    rw [hx] at hread
    obtain ⟨fs, rfl, ht⟩ := hread
    obtain ⟨hchars, hfailures⟩ := ih ht ht.readChar
    rw [Source.remainder_error hx]
    exact ⟨hchars, congrArg (e :: ·) hfailures⟩

/-- **Streaming decodes as the whole input does.**  What is taken for a front is the piece that
stands there: the bytes of a character, as many bytes as could have begun one where it breaks off,
or a byte that begins none.  A feed gives its bytes one by one, with interruptions and failures
wherever they fall, and then nothing for good.  Reading character by character up to the end gives
the one reading that the bytes have as a whole, and besides it each failure once, in order; an
interruption is never told. -/
theorem streaming_lossy (hdecode : decode.Cuts) (feed : List (Event ε))
    (h : Event.nothing ∉ feed) :
    let d : Decoder ε decode := { feed := { ahead := feed } }
    let bytes := feed.filterMap Event.byte?
    let chars := (Source.remainder d).filterMap Except.toOption
    chars = lossy decode bytes ∧ (∀ cs, ReadsAs bytes cs ↔ cs = chars) ∧
      (Source.remainder d).filterMap failure? = feed.filterMap Event.failure? := by
  intro d bytes chars
  have hd : d.Holds bytes (feed.filterMap Event.failure?) := ⟨rfl, h, rfl, rfl⟩
  obtain ⟨hchars, hfailures⟩ := hd.remainder hdecode
  refine ⟨hchars, fun cs => ?_, hfailures⟩
  rw [show chars = lossy decode bytes from hchars]
  exact hdecode.readsAs_iff

/-- a character of three bytes, interrupted and failed in, then one that is broken off at the end -/
theorem streaming_lossy_abc :
    let feed : List (Event String) :=
      [.byte 0xE2, .interrupted, .byte 0x82, .failure "slow", .interrupted, .byte 0xAC, .byte 0x61,
        .failure "reset", .byte 0xF0, .byte 0x9F]
    let d : Decoder String front := { feed := { ahead := feed } }
    Decode.Cuts front ∧ Event.nothing ∉ feed ∧
      (Source.remainder d).filterMap Except.toOption = ['€', 'a', '\uFFFD'] ∧
      (Source.remainder d).filterMap failure? = ["slow", "reset"] := by
  intro feed d
  have hfeed : Event.nothing ∉ feed := by simp [feed]
  obtain ⟨hchars, -, hfailures⟩ := streaming_lossy cuts_front feed hfeed
  refine ⟨cuts_front, hfeed, hchars.trans ?_, hfailures⟩
  have heuro : front [0xE2, 0x82, 0xAC, 0x61, 0xF0, 0x9F] = ⟨some '€', 3⟩ := by decide +kernel
  have hletter : front [0x61, 0xF0, 0x9F] = ⟨some 'a', 1⟩ := by decide +kernel
  have hbroken : front [0xF0, 0x9F] = ⟨none, 2⟩ := by decide +kernel
  show lossy front [0xE2, 0x82, 0xAC, 0x61, 0xF0, 0x9F] = _
  rw [lossy_cons, heuro]
  show '€' :: lossy front [0x61, 0xF0, 0x9F] = _
  rw [lossy_cons, hletter]
  show '€' :: 'a' :: lossy front [0xF0, 0x9F] = _
  rw [lossy_cons, hbroken]
  show '€' :: 'a' :: replacement :: lossy front [] = _
  rw [lossy_nil]
  rfl

end Decoder

end Utf8

end Lookahead
