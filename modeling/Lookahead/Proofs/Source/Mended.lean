import Lookahead.Proofs.Agreement
import Lookahead.Proofs.Utf8.Streaming
import Lookahead.Source.Script

/-!
# Sources and what they would be without their failures

A source that fails may go on afterwards.  Without its failures it would give the same characters,
one after the other, and come to its end in the same place.  For a script this is plain.  A decoder
may fail in the middle of a character, and then has to remember the bytes before the failure.

* `Source.Mended`          one source is the other without its failures;
* `Script.mended`          a script without its failures is;
* `Utf8.Decoder.mended`    so is a decoder over a feed without its failures.
-/

namespace Lookahead

variable {σ τ ε : Type}

/-- related sources give the same, but for the failures of the first one, which the relation names
in the order in which they will be met; where one is met, the other source may be moved on by what
was already read of the next character -/
structure Source.Mended [Source σ ε] [Source τ ε] (R : List ε → σ → τ → Prop) : Prop where
  ok : ∀ {es : List ε} {s s' : σ} {t : τ} {o : Option Char}, R es s t →
    Source.readChar s = .ok o s' → ∃ t', Source.readChar t = .ok o t' ∧ R es s' t'
  error : ∀ {es : List ε} {s s' : σ} {t : τ} {e : ε}, R es s t → Source.readChar s = .error e s' →
    ∃ fs t', es = e :: fs ∧ R fs s' t' ∧ Source.readChar t' = Source.readChar t

/-! ## scripts -/

def Item.failure? : Item ε → Option ε
  | failure e => some e
  | _ => none

namespace Script

def failures (s : Script ε) : List ε := s.items.filterMap Item.failure?

/-- the script without its failures -/
def sound (s : Script ε) : Script ε := ⟨s.items.filter fun i => i.failure?.isNone⟩

theorem mended : Source.Mended fun es (s t : Script ε) => s.failures = es ∧ s.sound = t where
  ok := by
    rintro es ⟨is⟩ s' t o ⟨rfl, rfl⟩ h
    cases is with
    | nil =>
      cases h
      exact ⟨_, rfl, rfl, rfl⟩
    | cons i is =>
      cases i with
      | failure e => cases h
      | _ =>
        cases h
        exact ⟨_, rfl, rfl, rfl⟩
  error := by
    rintro es ⟨is⟩ s' t e ⟨rfl, rfl⟩ h
    cases is with
    | nil => cases h
    | cons i is =>
      cases i with
      | failure e =>
        cases h
        exact ⟨_, _, rfl, ⟨rfl, rfl⟩, rfl⟩
      | _ => cases h

end Script

/-! ## feeds -/

namespace Utf8

/-- the answers of a feed without its failures -/
def sound (feed : List (Event ε)) : List (Event ε) := feed.filter fun e => e.failure?.isNone

namespace Feed

/-- the second feed is to answer as the first one but for these failures -/
def Healed (es : List ε) (f g : Feed ε) : Prop :=
  g.ahead = sound f.ahead ∧ f.ahead.filterMap Event.failure? = es

theorem resumed_retry (ahead : List (Event ε)) (past past' : Array (Event ε)) :
    Resumed some Healed (ahead.filterMap Event.failure?)
      (fun p => readByte p = retry (sound ahead) past') (retry (sound ahead) past')
      (retry ahead past) := by
  fun_induction retry ahead past generalizing past' with
  | case1 past => exact .ok rfl rfl ⟨rfl, rfl⟩
  | case2 es past ih => exact ih (past'.push .interrupted)
  | case3 b es past => exact .ok rfl rfl ⟨rfl, rfl⟩
  | case4 e es past => exact .failed rfl rfl rfl (p := ⟨sound es, past'⟩) ⟨rfl, rfl⟩ rfl
  | case5 es past => exact .ok rfl rfl ⟨rfl, rfl⟩

end Feed

/-! ## decoders -/

namespace Decoder
variable {decode : Decode} {es : List ε} {d t : Decoder ε decode}

def failures (d : Decoder ε decode) : List ε := d.feed.ahead.filterMap Event.failure?

/-- both decoders are open and have the same bytes pending, and the feed of the second one is that of
the first one without these failures -/
structure Healed (es : List ε) (d t : Decoder ε decode) : Prop where
  opened : d.closed = false
  opened' : t.closed = false
  pending : d.pending = t.pending
  ahead : t.feed.ahead = sound d.feed.ahead
  failures : d.failures = es

theorem pull_succ (k : Nat) (d : Decoder ε decode) :
    pull (k + 1) d = match d.feed.readByte with
      | .error e f => .error e { d with feed := f }
      | .ok none f => .ok () { d with feed := f }
      | .ok (some b) f => pull k { d with feed := f, pending := d.pending ++ [b] } := rfl

/-- pulling that fails has pulled some bytes, and pulling the others does the rest -/
theorem resumed_pull (h : Healed es d t) (k : Nat) :
    Resumed some Healed es (fun p => ∃ bs, p.pending = t.pending ++ bs ∧ bs.length < k ∧
      pull (k - bs.length) p = pull k t) (pull k t) (pull k d) := by
  induction k generalizing d t with
  | zero => exact .ok rfl rfl h
  | succ k ih =>
    have hread := Feed.resumed_retry d.feed.ahead d.feed.answered t.feed.answered
    rw [← h.ahead, show d.feed.ahead.filterMap Event.failure? = es from h.failures] at hread
    cases hread with
    | @ok o f g hf hg hfeed =>
      have hd : d.feed.readByte = .ok o f := hf
      have ht : t.feed.readByte = .ok o g := hg
      rw [pull_succ k d, pull_succ k t, hd, ht]
      cases o with
      | none => exact .ok rfl rfl ⟨h.opened, h.opened', h.pending, hfeed.1, hfeed.2⟩
      | some b =>
        have hnext : Healed es ({ d with feed := f, pending := d.pending ++ [b] } : Decoder ε decode)
            { t with feed := g, pending := t.pending ++ [b] } :=
          ⟨h.opened, h.opened', congrArg (· ++ [b]) h.pending, hfeed.1, hfeed.2⟩
        refine (ih hnext).imp ?_
        rintro p ⟨bs, hpending, hlt, hagain⟩
        refine ⟨b :: bs, ?_, Nat.succ_lt_succ hlt, ?_⟩
        · rw [hpending, List.append_assoc]
          rfl
        · rw [List.length_cons, Nat.add_sub_add_right]
          exact hagain
    | refused _ _ hno => cases hno
    | @failed e _ fs f g hf he hes hfeed hagain =>
      cases he
      have hd : d.feed.readByte = .error e f := hf
      have ht : g.readByte = t.feed.readByte := hagain
      rw [pull_succ k d, hd]
      refine .failed rfl rfl hes (p := { t with feed := g })
        ⟨h.opened, h.opened', h.pending, hfeed.1, hfeed.2⟩
        ⟨[], (List.append_nil _).symm, Nat.succ_pos k, ?_⟩
      show pull (k + 1) { t with feed := g } = pull (k + 1) t
      rw [pull_succ, pull_succ, ht]

theorem resumed_require (h : Healed es d t) (n : Nat) :
    Resumed some Healed es (fun p => (∃ bs, p.pending = t.pending ++ bs) ∧
      require n p = require n t) (require n t) (require n d) := by
  have hpull := resumed_pull h (n - t.pending.length)
  unfold require
  rw [h.pending]
  refine hpull.imp ?_
  rintro p ⟨bs, hpending, hlt, hagain⟩
  refine ⟨⟨bs, hpending⟩, ?_⟩
  rw [hpending, List.length_append, ← Nat.sub_sub]
  exact hagain

section
variable {u : Unit} {b : UInt8} {rest : List UInt8}

theorem complete_of_ok (hp : d.pending = b :: rest) (h : require (announced b) d = .ok u t) :
    complete d = takeFront t := by
  rw [complete, hp]
  dsimp only
  rw [h]

theorem complete_of_error {e : ε} (hp : d.pending = b :: rest)
    (h : require (announced b) d = .error e t) : complete d = .error e t := by
  rw [complete, hp]
  dsimp only
  rw [h]

theorem readChar_of_ok (hd : d.closed = false) (h : require 1 d = .ok u t) :
    readChar d = complete t := by rw [readChar, if_neg (by simp [hd]), h]

theorem readChar_of_error {e : ε} (hd : d.closed = false) (h : require 1 d = .error e t) :
    readChar d = .error e t := by rw [readChar, if_neg (by simp [hd]), h]

end

/-- what is broken off in the middle of a character is completed from where it was -/
theorem resumed_complete (h : Healed es d t) :
    Resumed some Healed es (fun p => p.pending ≠ [] ∧ complete p = complete t) (complete t)
      (complete d) := by
  cases ht : t.pending with
  | nil =>
    unfold complete
    rw [h.pending, ht]
    exact .ok rfl rfl h
  | cons b rest =>
    have hd : d.pending = b :: rest := h.pending.trans ht
    cases resumed_require h (announced b) with
    | @ok _ d' t' hd' ht' h' =>
      rw [complete_of_ok hd hd', complete_of_ok ht ht']
      unfold takeFront
      rw [h'.pending]
      cases t'.pending with
      | nil => exact .ok rfl rfl h'
      | cons c cs => exact .ok rfl rfl ⟨h'.opened, h'.opened', rfl, h'.ahead, h'.failures⟩
    | refused _ _ hno => cases hno
    | failed hd' he hes h' moved =>
      obtain ⟨⟨bs, hpending⟩, hagain⟩ := moved
      rw [ht, List.cons_append] at hpending
      rw [complete_of_error hd hd']
      refine .failed rfl he hes h' ⟨by rw [hpending]; exact List.cons_ne_nil _ _, ?_⟩
      rw [complete, complete, hpending, ht]
      dsimp only
      rw [hagain]

theorem resumed_readChar (h : Healed es d t) :
    Resumed some Healed es (fun p => readChar p = readChar t) (readChar t) (readChar d) := by
  cases resumed_require h 1 with
  | ok hd ht h' =>
    rw [readChar_of_ok h.opened hd, readChar_of_ok h.opened' ht]
    cases resumed_complete h' with
    | ok hx hy h'' => exact .ok hx hy h''
    | refused _ _ hno => cases hno
    | @failed _ _ _ _ p hx he hes h'' moved =>
      refine .failed hx he hes h'' ?_
      -- the first byte is pending now, so that none is required
      have hnone : require 1 p = .ok () p := by
        have hpos := List.length_pos_iff.2 moved.1
        rw [require, Nat.sub_eq_zero_of_le hpos]
        rfl
      rw [readChar_of_ok h''.opened' hnone]
      exact moved.2
  | refused _ _ hno => cases hno
  | failed hd he hes h' moved =>
    rw [readChar_of_error h.opened hd]
    refine .failed rfl he hes h' ?_
    rw [readChar, readChar, h'.opened', h.opened', if_neg Bool.false_ne_true,
      if_neg Bool.false_ne_true, moved.2]

theorem mended : Source.Mended fun es (d t : Decoder ε decode) => Healed es d t where
  ok := by
    intro es d d' t o h hd
    have hd' : readChar d = .ok o d' := hd
    cases resumed_readChar h with
    | ok hx hy h' =>
      cases hd'.symm.trans hx
      exact ⟨_, hy, h'⟩
    | refused _ _ hno => cases hno
    | failed hx => cases hd'.symm.trans hx
  error := by
    intro es d d' t e h hd
    have hd' : readChar d = .error e d' := hd
    cases resumed_readChar h with
    | ok hx => cases hd'.symm.trans hx
    | refused _ _ hno => cases hno
    | failed hx he hes h' moved =>
      cases hd'.symm.trans hx
      cases he
      exact ⟨_, _, hes, h', moved⟩

theorem healed_fresh (feed : List (Event ε)) :
    Healed (feed.filterMap Event.failure?) ({ feed := { ahead := feed } } : Decoder ε decode)
      { feed := { ahead := sound feed } } := ⟨rfl, rfl, rfl, rfl, rfl⟩

end Decoder

end Utf8

end Lookahead
