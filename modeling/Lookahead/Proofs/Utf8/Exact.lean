import Lookahead.Proofs.Source.Mended
import Lookahead.Proofs.Source.SameText

/-!
# No byte too many

A decoder learns from the first byte of a character how many there are, and pulls no more.  So as
long as its feed gives what a text is written in, a character is read when its own bytes have come:
none is pending, none of the next character was touched, and what the feed would answer after the
text, valid or not, makes no difference.  Whoever takes the feed back in the middle of the text has
all the bytes of the characters that were not read.

* `Faces`                a decoder whose feed gives these bytes next;
* `Faces.readChar`       one character takes its own bytes from the feed;
* `text_read_exactly`    so do any number of them.
-/

namespace Lookahead.Utf8

open String (utf8EncodeChar)

variable {ε : Type} {decode : Decode}

theorem Feed.retry_interrupted {es : List (Event ε)} {b : UInt8} {bs : List UInt8}
    (h : Interrupted es (b :: bs)) (rest : List (Event ε)) (past : Array (Event ε)) :
    ∃ f later, retry (es ++ rest) past = .ok (some b) f ∧ Interrupted later bs ∧
      f.ahead = later ++ rest ∧ f.pulled = past.toList.filterMap Event.byte? ++ [b] := by
  generalize hbs : b :: bs = xs at h
  induction h generalizing past with
  | done => cases hbs
  | byte _ h =>
    obtain ⟨rfl, rfl⟩ := List.cons.inj hbs
    refine ⟨_, _, rfl, h, rfl, ?_⟩
    rw [pulled, Array.toList_push, List.filterMap_append]
    rfl
  | again _ ih =>
    obtain ⟨f, later, hf, hlater, hahead, hpulled⟩ := ih (past.push .interrupted) hbs
    refine ⟨f, later, hf, hlater, hahead, hpulled.trans ?_⟩
    rw [Array.toList_push, List.filterMap_append]
    exact congrArg (· ++ [b]) (List.append_nil _)

namespace Decoder

variable {d : Decoder ε decode} {past bs : List UInt8} {rest : List (Event ε)}

/-- an open decoder has pulled the bytes `past`; its feed gives `bs` next, interrupted anywhere, and
then answers with `rest` -/
structure Faces (d : Decoder ε decode) (past bs : List UInt8) (rest : List (Event ε)) : Prop where
  opened : d.closed = false
  pulled : d.feed.pulled = past
  ahead : ∃ later, Interrupted later bs ∧ d.feed.ahead = later ++ rest

theorem Faces.pull {xs : List UInt8} (h : d.Faces past (xs ++ bs) rest) :
    ∃ t, pull xs.length d = .ok () t ∧ t.pending = d.pending ++ xs ∧
      t.Faces (past ++ xs) bs rest := by
  induction xs generalizing d past with
  | nil => exact ⟨d, rfl, (List.append_nil _).symm, by rwa [List.append_nil]⟩
  | cons x xs ih =>
    obtain ⟨es, hes, hahead⟩ := h.ahead
    obtain ⟨f, later, hf, hlater, hahead', hpulled⟩ :=
      Feed.retry_interrupted hes rest d.feed.answered
    have hread : d.feed.readByte = .ok (some x) f := by
      unfold Feed.readByte
      rw [hahead, hf]
    let u : Decoder ε decode := { d with feed := f, pending := d.pending ++ [x] }
    have hnext : u.Faces (past ++ [x]) (xs ++ bs) rest :=
      ⟨h.opened, hpulled.trans (congrArg (· ++ [x]) h.pulled), later, hlater, hahead'⟩
    obtain ⟨t, ht, hpending, hfaces⟩ := ih hnext
    refine ⟨t, ?_, hpending.trans (List.append_assoc _ _ _), ?_⟩
    · rw [List.length_cons, pull_succ, hread]
      exact ht
    · rw [List.append_assoc] at hfaces
      exact hfaces

/-- a character is read as soon as the feed gave the bytes it is written in -/
theorem Faces.readChar {c : Char} (hdecode : decode.Undoes)
    (h : d.Faces past (utf8EncodeChar c ++ bs) rest) (hp : d.pending = []) :
    ∃ t, readChar d = .ok (some c) t ∧ t.pending = [] ∧
      t.Faces (past ++ utf8EncodeChar c) bs rest := by
  obtain ⟨b, xs, hc⟩ := List.exists_cons_of_ne_nil String.utf8EncodeChar_ne_nil
  have hfront := hdecode c []
  rw [List.append_nil, hc] at hfront
  rw [hc] at h ⊢
  have hfirst : d.Faces past ([b] ++ (xs ++ bs)) rest := h
  obtain ⟨u, hu, hpu, hfu⟩ := hfirst.pull
  obtain ⟨t, ht, hpt, hft⟩ := hfu.pull
  rw [hp, List.nil_append] at hpu
  rw [hpu, List.singleton_append] at hpt
  have hone : require 1 d = .ok () u := by
    rw [require, hp]
    exact hu
  have hall : require (announced b) u = .ok () t := by
    rw [require, announced_encode hc, hpu]
    exact ht
  refine ⟨{ t with pending := [] }, ?_, rfl, hft.opened, ?_, hft.ahead⟩
  · rw [readChar_of_ok h.opened hone, complete_of_ok hpu hall, takeFront, hpt]
    dsimp only
    rw [hfront, Front.taken_of_pos _ (show 0 < (b :: xs).length from Nat.succ_pos _),
      List.drop_length]
    rfl
  · rw [← List.singleton_append, ← List.append_assoc]
    exact hft.pulled

/-- the answers to so many reads, up to the first that fails -/
def readTimes : Nat → EStateM ε (Decoder ε decode) (List (Option Char))
  | 0 => pure []
  | n + 1 => do
    let o ← readChar
    let os ← readTimes n
    pure (o :: os)

theorem readTimes_succ {n : Nat} {o : Option Char} {os : List (Option Char)} {t u : Decoder ε decode}
    (h : readChar d = .ok o t) (ht : readTimes n t = .ok os u) :
    readTimes (n + 1) d = .ok (o :: os) u := by
  show EStateM.bind readChar (fun o => readTimes n >>= fun os => pure (o :: os)) d = _
  rw [EStateM.bind, h]
  show EStateM.bind (readTimes n) (fun os => pure (o :: os)) t = _
  rw [EStateM.bind, ht]
  rfl

theorem Faces.readTimes {cs ds : List Char} (hdecode : decode.Undoes)
    (h : d.Faces past (encode (cs ++ ds)) rest) (hp : d.pending = []) :
    ∃ t, readTimes cs.length d = .ok (cs.map some) t ∧ t.pending = [] ∧
      t.Faces (past ++ encode cs) (encode ds) rest := by
  induction cs generalizing d past with
  | nil =>
    refine ⟨d, rfl, hp, ?_⟩
    rw [show encode [] = [] from rfl, List.append_nil]
    exact h
  | cons c cs ih =>
    rw [List.cons_append, encode_cons] at h
    obtain ⟨u, hu, hpu, hfu⟩ := h.readChar hdecode hp
    obtain ⟨t, ht, hpt, hft⟩ := ih hfu hpu
    refine ⟨t, readTimes_succ hu ht, hpt, ?_⟩
    rw [encode_cons, ← List.append_assoc]
    exact hft

/-- **Valid text is decoded without a byte too many.**  The bytes of a character are read as it,
whatever follows them.  A feed gives what a text is written in, interrupted anywhere, and after that
answers with anything at all.  Then for every `i` up to the length of the text, the first `i` reads
give the first `i` characters; the bytes pulled from the feed by then are exactly those which these
characters are written in, none of them is pending, and the feed is left with the bytes of the other
characters and the rest. -/
theorem text_read_exactly (hdecode : decode.Undoes) (text : List Char) {feed : List (Event ε)}
    (h : Interrupted feed (encode text)) (rest : List (Event ε)) :
    let d : Decoder ε decode := { feed := { ahead := feed ++ rest } }
    ∀ i ≤ text.length, ∃ t, readTimes i d = .ok ((text.take i).map some) t ∧
      t.feed.pulled = encode (text.take i) ∧ t.pending = [] ∧
      ∃ later, Interrupted later (encode (text.drop i)) ∧ t.feed.ahead = later ++ rest := by
  intro d i hi
  have hd : d.Faces [] (encode (text.take i ++ text.drop i)) rest := by
    rw [List.take_append_drop]
    exact ⟨rfl, rfl, feed, h, rfl⟩
  obtain ⟨t, ht, hpt, hft⟩ := hd.readTimes hdecode rfl
  rw [List.length_take, Nat.min_eq_left hi] at ht
  exact ⟨t, ht, hft.pulled, hpt, hft.ahead⟩

/-- characters of two and three bytes, then a byte that begins none and a failure -/
theorem text_read_exactly_abc :
    let feed : List (Event String) :=
      [.byte 0xC3, .interrupted, .byte 0xA9, .interrupted, .byte 0xE2, .byte 0x82, .byte 0xAC]
    let rest : List (Event String) := [.byte 0xFF, .failure "slow"]
    let d : Decoder String front := { feed := { ahead := feed ++ rest } }
    Decode.Undoes front ∧ Interrupted feed (encode ['é', '€']) ∧ 1 ≤ ['é', '€'].length ∧
      ∃ t, readTimes 1 d = .ok [some 'é'] t ∧ t.feed.pulled = [0xC3, 0xA9] ∧ t.pending = [] := by
  intro feed rest d
  have hbytes : encode ['é', '€'] = [0xC3, 0xA9, 0xE2, 0x82, 0xAC] := by decide +kernel
  have hfeed : Interrupted feed (encode ['é', '€']) := by
    rw [hbytes]
    exact .byte _ (.again (.byte _ (.again (.byte _ (.byte _ (.byte _ .done))))))
  have hone : 1 ≤ ['é', '€'].length := by decide
  obtain ⟨t, ht, hpulled, hpending, -⟩ :=
    text_read_exactly undoes_front ['é', '€'] hfeed rest 1 hone
  refine ⟨undoes_front, hfeed, hone, t, ht, hpulled.trans ?_, hpending⟩
  decide +kernel

end Decoder

end Lookahead.Utf8
