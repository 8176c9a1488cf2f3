import Lookahead.Proofs.Source.Alike
import Lookahead.Proofs.Utf8.Streaming
import Lookahead.Source.Script
import Lookahead.Source.Text

/-!
# Sources whose end is final

A steady source reports its end again and again once it has reported it, and its bulk reads and skips
do what single reads do.  How much of such a source is left does not depend on the calls it was read
by.  Steadiness is stated with a relation that says when two states of a source leave the same to
read, so that a source may keep a record or hold the same bytes in different places.

* `Source.Done`, `Source.Steady`   the end is reported for good;
* `Text.steady`, `Script.steady`, `Decoder.steady`   texts, scripts that stop only at their end, and
  decoders over a feed that gives nothing only at its end.
-/

namespace Lookahead

variable {σ ε α : Type}

theorem Agree.refl (x : EStateM ε σ α) : Agree Eq x x := by
  intro s t h
  subst h
  cases hx : x s with
  | ok a s => exact Same.ok a rfl
  | error e s => exact Same.error e rfl

section
variable [Source σ ε]

/-- the source reports its end, and that changes nothing -/
def Source.Done (E : σ → σ → Prop) (s : σ) : Prop := ∃ t, Source.readChar s = .ok none t ∧ E s t

/-- states that `E` relates leave the same to read, whatever calls it is read by -/
structure Source.Steady (E : σ → σ → Prop) : Prop where
  symm : ∀ {s t : σ}, E s t → E t s
  trans : ∀ {s t u : σ}, E s t → E t u → E s u
  readChar : Agree E (Source.readChar : EStateM ε σ _) Source.readChar
  readInto : ∀ (room : Nat) (s : σ), Source.readInto room s = gather Source.readChar room s
  skip : ∀ (n : Nat) (s : σ), Source.skip n s = discard Source.readChar n s
  ready : Agree E (Source.ready : EStateM ε σ _) Source.ready
  close : Agree E (Source.close : EStateM ε σ _) Source.close
  sticky : ∀ {s t : σ}, E s s → Source.readChar s = .ok none t → Source.Done E t
  unready : ∀ {s : σ}, Source.Done E s → ∃ t, Source.ready s = .ok false t ∧ E s t

namespace Source.Steady
variable {E : σ → σ → Prop} {s t : σ}

theorem left (h : Steady E) (hst : E s t) : E s s := h.trans hst (h.symm hst)

theorem done (h : Steady E) (hst : E s t) (hs : Done E s) : Done E t := by
  obtain ⟨s', hs', hss'⟩ := hs
  obtain ⟨t', ht', hst'⟩ := (h.readChar s t hst).of_ok hs'
  exact ⟨t', ht', h.trans (h.symm hst) (h.trans hss' hst')⟩

end Source.Steady

end

/-! ## texts and scripts -/

theorem Text.steady : Source.Steady (Eq : Text → Text → Prop) where
  symm := Eq.symm
  trans := Eq.trans
  readChar := Agree.refl _
  readInto := fun _ _ => rfl
  skip := Text.skip_eq_discard
  ready := Agree.refl _
  close := Agree.refl _
  sticky := fun {s t} _ h => by
    obtain ⟨cs⟩ := s
    cases cs with
    | nil =>
      cases h
      exact ⟨_, rfl, rfl⟩
    | cons c cs => cases h
  unready := fun {s} h => by
    obtain ⟨t, h, -⟩ := h
    obtain ⟨cs⟩ := s
    cases cs with
    | nil => exact ⟨_, rfl, rfl⟩
    | cons c cs => cases h

namespace Script

/-- the script ends at its end only -/
def Lasting (s : Script ε) : Prop := Item.stop ∉ s.items

/-- the same script, which ends at its end only -/
def Left (s t : Script ε) : Prop := s = t ∧ s.Lasting

theorem Lasting.tail {i : Item ε} {is : List (Item ε)} (h : Lasting ⟨i :: is⟩) : Lasting ⟨is⟩ :=
  fun hmem => h (List.mem_cons_of_mem i hmem)

theorem agree_readChar : Agree Left (readChar : EStateM ε (Script ε) _) readChar := by
  rintro ⟨is⟩ _ ⟨rfl, h⟩
  match is with
  | [] => exact Same.ok none ⟨rfl, h⟩
  | .char c :: is => exact Same.ok (some c) ⟨rfl, h.tail⟩
  | .failure e :: is => exact Same.error e ⟨rfl, h.tail⟩
  | .stop :: is => exact absurd List.mem_cons_self h

theorem items_of_readChar {s t : Script ε} (h : s.Lasting) (hs : readChar s = .ok none t) :
    s = ⟨[]⟩ ∧ t = ⟨[]⟩ := by
  obtain ⟨is⟩ := s
  match is with
  | [] =>
    cases hs
    exact ⟨rfl, rfl⟩
  | .char c :: is => cases hs
  | .failure e :: is => cases hs
  | .stop :: is => exact absurd List.mem_cons_self h

theorem steady : Source.Steady (Left (ε := ε)) where
  symm := fun ⟨h, hl⟩ => ⟨h.symm, h ▸ hl⟩
  trans := fun ⟨h, hl⟩ ⟨h', _⟩ => ⟨h.trans h', hl⟩
  readChar := agree_readChar
  readInto := fun _ _ => rfl
  skip := fun _ _ => rfl
  ready := fun _ _ h => Same.ok false h
  close := fun _ _ h => Same.ok () h
  sticky := fun {s t} hs h => by
    obtain ⟨-, rfl⟩ := items_of_readChar hs.2 h
    exact ⟨⟨[]⟩, rfl, rfl, List.not_mem_nil⟩
  unready := fun {s} h => by
    obtain ⟨t, -, rfl, hl⟩ := h
    exact ⟨s, rfl, rfl, hl⟩

end Script

/-! ## decoders -/

namespace Utf8.Decoder
variable {decode : Decode} {d t : Decoder ε decode}

/-- the decoders differ in nothing but the record of the answers given -/
structure Alike (d t : Decoder ε decode) : Prop where
  ahead : d.feed.ahead = t.feed.ahead
  pending : d.pending = t.pending
  closed : d.closed = t.closed

theorem agree_retry (es : List (Event ε)) (past past' : Array (Event ε)) :
    Same (fun f g : Feed ε => f.ahead = g.ahead) (Feed.retry es past) (Feed.retry es past') := by
  induction es generalizing past past' with
  | nil => exact Same.ok none rfl
  | cons e es ih =>
    cases e with
    | byte b => exact Same.ok (some b) rfl
    | interrupted => exact ih _ _
    | failure e => exact Same.error e rfl
    | nothing => exact Same.ok none rfl

theorem agree_pull (k : Nat) : Agree Alike (pull k : EStateM ε (Decoder ε decode) Unit) (pull k) := by
  induction k with
  | zero => exact fun _ _ h => Same.ok () h
  | succ k ih =>
    intro d t h
    have hread := agree_retry d.feed.ahead d.feed.answered t.feed.answered
    rw [pull, pull]
    unfold Feed.readByte
    rw [← h.ahead]
    obtain ⟨o, f, g, hf, hg, hahead⟩ | ⟨e, f, g, hf, hg, hahead⟩ := hread.cases
    · rw [hf, hg]
      cases o with
      | none => exact Same.ok () ⟨hahead, h.pending, h.closed⟩
      | some b => exact ih _ _ ⟨hahead, congrArg (· ++ [b]) h.pending, h.closed⟩
    · rw [hf, hg]
      exact Same.error e ⟨hahead, h.pending, h.closed⟩

theorem agree_require (n : Nat) :
    Agree Alike (require n : EStateM ε (Decoder ε decode) Unit) (require n) := by
  intro d t h
  unfold require
  rw [← h.pending]
  exact agree_pull _ d t h

theorem agree_takeFront :
    Agree Alike (takeFront : EStateM ε (Decoder ε decode) (Option Char)) takeFront := by
  intro d t h
  unfold takeFront
  rw [← h.pending]
  cases d.pending with
  | nil => exact Same.ok none h
  | cons b bs => exact Same.ok _ ⟨h.ahead, rfl, h.closed⟩

theorem agree_complete :
    Agree Alike (complete : EStateM ε (Decoder ε decode) (Option Char)) complete := by
  intro d t h
  unfold complete
  rw [← h.pending]
  cases d.pending with
  | nil => exact Same.ok none h
  | cons b bs =>
    obtain ⟨_, d', t', hd, ht, h'⟩ | ⟨e, d', t', hd, ht, h'⟩ :=
      (agree_require (announced b) d t h).cases
    · dsimp only
      rw [hd, ht]
      exact agree_takeFront d' t' h'
    · dsimp only
      rw [hd, ht]
      exact Same.error e h'

theorem agree_readChar :
    Agree Alike (readChar : EStateM ε (Decoder ε decode) (Option Char)) readChar := by
  intro d t h
  unfold readChar
  rw [← h.closed]
  by_cases hc : d.closed = true
  · rw [if_pos hc, if_pos hc]
    exact Same.ok none h
  · rw [if_neg hc, if_neg hc]
    obtain ⟨_, d', t', hd, ht, h'⟩ | ⟨e, d', t', hd, ht, h'⟩ := (agree_require 1 d t h).cases
    · rw [hd, ht]
      exact agree_complete d' t' h'
    · rw [hd, ht]
      exact Same.error e h'

/-- the decoder is closed, or its feed gives nothing only at its end -/
def Lasting (d : Decoder ε decode) : Prop := d.closed = true ∨ Event.nothing ∉ d.feed.ahead

/-- the decoders leave the same to read and differ in nothing but the record of the answers given -/
def Left (d t : Decoder ε decode) : Prop := d.Alike t ∧ d.Lasting

theorem Lasting.holds (h : d.Lasting) (hc : ¬ d.closed = true) : ∃ bs es, d.Holds bs es :=
  ⟨_, _, by simpa using hc, h.resolve_left hc, rfl, rfl⟩

theorem readChar_of_closed (hc : d.closed = true) : readChar d = .ok none d := if_pos hc

theorem Lasting.readChar (h : d.Lasting) : (finalState (readChar d)).Lasting := by
  by_cases hc : d.closed = true
  · rw [readChar_of_closed hc]
    exact h
  · obtain ⟨bs, es, hd⟩ := h.holds hc
    have hread := hd.readChar
    cases hx : Decoder.readChar d with
    | error e t =>
      rw [hx] at hread
      obtain ⟨_, -, ht⟩ := hread
      exact .inr ht.lasting
    | ok o t =>
      rw [hx] at hread
      cases o with
      | none => exact .inr hread.2.2.1.lasting
      | some c =>
        obtain ⟨_, _, -, -, -, ht⟩ := hread
        exact .inr ht.lasting

theorem end_of_readChar (h : d.Lasting) (hc : ¬ d.closed = true)
    (hd : readChar d = .ok none t) : d.pending = [] ∧ t.Alike ⟨⟨[], #[]⟩, [], false⟩ := by
  obtain ⟨bs, es, hholds⟩ := h.holds hc
  have hread := hholds.readChar
  rw [hd] at hread
  obtain ⟨rfl, -, ht, hend⟩ := hread
  exact ⟨(List.append_eq_nil_iff.1 hholds.bytes).1, hend,
    (List.append_eq_nil_iff.1 ht.bytes).1, ht.opened⟩

theorem steady : Source.Steady fun d t : Decoder ε decode => Left d t where
  symm := fun {d t} ⟨h, hl⟩ => ⟨⟨h.ahead.symm, h.pending.symm, h.closed.symm⟩, by
    rwa [Lasting, ← h.closed, ← h.ahead]⟩
  trans := fun ⟨h, hl⟩ ⟨h', _⟩ =>
    ⟨⟨h.ahead.trans h'.ahead, h.pending.trans h'.pending, h.closed.trans h'.closed⟩, hl⟩
  readChar := fun d t ⟨h, hl⟩ => by
    have hlast := hl.readChar
    obtain ⟨o, d', t', hd, ht, h'⟩ | ⟨e, d', t', hd, ht, h'⟩ := (agree_readChar d t h).cases
    · show Same Left (Decoder.readChar d) (Decoder.readChar t)
      rw [hd] at hlast ⊢
      rw [ht]
      exact Same.ok o ⟨h', hlast⟩
    · show Same Left (Decoder.readChar d) (Decoder.readChar t)
      rw [hd] at hlast ⊢
      rw [ht]
      exact Same.error e ⟨h', hlast⟩
  readInto := fun _ _ => rfl
  skip := fun _ _ => rfl
  ready := fun d t h => by
    show Same Left (.ok (!d.closed && !d.pending.isEmpty) d) (.ok (!t.closed && !t.pending.isEmpty) t)
    rw [h.1.closed, h.1.pending]
    exact Same.ok _ h
  close := fun d t h => Same.ok () ⟨⟨h.1.ahead, rfl, rfl⟩, .inl rfl⟩
  sticky := fun {d t} h hd => by
    by_cases hc : d.closed = true
    · cases (readChar_of_closed hc).symm.trans hd
      exact ⟨d, hd, h⟩
    · obtain ⟨-, ht⟩ := end_of_readChar h.2 hc hd
      obtain ⟨_, t', _, hread, hend, ht'⟩ | ⟨_, _, _, _, hend, _⟩ := (agree_readChar t _ ht).cases
      · cases hend
        exact ⟨t', hread, ⟨ht.ahead.trans ht'.ahead.symm, ht.pending.trans ht'.pending.symm,
          ht.closed.trans ht'.closed.symm⟩, .inr (by rw [ht.ahead]; exact List.not_mem_nil)⟩
      · cases hend
  unready := fun {d} h => by
    obtain ⟨t, hd, hdt, hl⟩ := h
    refine ⟨d, ?_, ⟨rfl, rfl, rfl⟩, hl⟩
    show EStateM.Result.ok (!d.closed && !d.pending.isEmpty) d = .ok false d
    by_cases hc : d.closed = true
    · rw [hc]
      rfl
    · rw [(end_of_readChar hl hc hd).1]
      simp

end Utf8.Decoder

end Lookahead
