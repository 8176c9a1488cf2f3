import Lookahead.Proofs.Reader.Alike
import Lookahead.Proofs.Source.SameText
import Lookahead.Token.Binding
import Lookahead.Token.Settings

/-!
# It does not matter where a text comes from

Readers of one text cannot be told apart, whether its characters are at hand, come one after another
or are decoded from bytes whose reads were interrupted.  So the tokens are the same as well.

* `ForScans.bindingNext`, `ForScans.settingsNext`   the tokenizers are composed as the scans are;
* `alike_settings`, `alike_bindings`   both tokenizers give the same for alike readers;
* `same_from_any_source`               operations and tokenizers on the three sources of a text.
-/

namespace Lookahead

open Scan (step)

namespace Reader

variable {σ τ ε δ α : Type} [Source σ ε] [Source τ δ]

/-! ## tokenizers -/

namespace ForScans

variable {S : ∀ {α : Type}, Scan σ ε α → Scan τ δ α → Prop} (h : ForScans S) (limit : Nat)
include h

theorem acceptWord (rules : Rules) (w : List Char) :
    S (step (acceptWord rules w)) (step (acceptWord rules w)) := h.accepting (h.atWord rules w) _

theorem acceptText (s : List Char) : S (step (acceptText s)) (step (acceptText s)) :=
  h.accepting (h.atText s) _

theorem acceptChar (c : Char) : S (step (acceptChar c)) (step (acceptChar c)) :=
  h.accepting (h.atNth 0 c) 1

theorem bindingBeginning (c : Char) :
    S (Binding.beginning limit c) (Binding.beginning limit c) := by
  refine h.bind (h.acceptWord .standard _) fun _ => h.ite _ (h.pure _) ?_
  refine h.ite _ (h.bind (h.takeWhile limit _) fun _ => h.pure _) ?_
  refine h.ite _ (h.bind (h.takeWhile limit _) fun _ => h.pure _) ?_
  refine h.bind (h.acceptChar _) fun _ => h.ite _ ?_ ?_
  · exact h.bind (h.takeWhile limit _) fun _ => h.bind (h.acceptChar _) fun _ => h.pure _
  · refine h.bind (h.acceptText _) fun _ => h.ite _ (h.pure _) ?_
    exact h.bind h.read fun _ => h.pure _

theorem bindingNext : S (Binding.next limit) (Binding.next limit) := by
  refine h.bind (h.skipTrivia .standard limit) fun _ => h.bind h.peek fun o => ?_
  cases o with
  | none => exact h.pure none
  | some c => exact h.bind (h.bindingBeginning limit c) fun t => h.pure (some t)

omit limit in
theorem acceptKeyword (ks : List Settings.Keyword) :
    S (step (Settings.acceptKeyword ks)) (step (Settings.acceptKeyword ks)) := by
  induction ks with
  | nil => exact h.step_pure none
  | cons k ks ih =>
    refine h.step_bind (h.acceptWord .standard _) fun found => ?_
    cases found with
    | true => exact h.step_pure (some k)
    | false => exact ih

theorem settingsBeginning (c : Char) :
    S (Settings.beginning limit c) (Settings.beginning limit c) := by
  refine h.bind (h.acceptKeyword _) fun o => ?_
  cases o with
  | some k => exact h.pure _
  | none =>
    refine h.ite _ (h.bind (h.takeWhile limit _) fun _ => h.pure _) ?_
    refine h.ite _ (h.bind (h.takeWhile limit _) fun _ => h.pure _) ?_
    refine h.bind (h.acceptChar _) fun _ => h.ite _ ?_ (h.bind h.read fun _ => h.pure _)
    exact h.bind (h.takeWhile limit _) fun _ => h.bind (h.acceptChar _) fun _ => h.pure _

theorem settingsNext : S (Settings.next limit) (Settings.next limit) := by
  refine h.bind (h.skipTrivia .standard limit) fun _ => h.bind h.peek fun o => ?_
  cases o with
  | none => exact h.pure none
  | some c => exact h.bind (h.settingsBeginning limit c) fun t => h.pure (some t)

end ForScans

/-! ## collecting tokens -/

section
variable {f : ε → δ} {R : Bool → σ → τ → Prop} (hs : Source.Alike f R) (limit : Nat)
include hs

theorem alike_settings :
    Agree (Alike R) (translate (Halt.map f)
        (Prod.map id (Option.map (ReadError.map f)) <$> Settings.tokens limit))
      (Settings.tokens limit) :=
  collect_told ((alike_scans hs).settingsNext limit) limit

theorem alike_bindings :
    Agree (Alike R) (translate (Halt.map f) (Binding.listing limit)) (Binding.listing limit) := by
  unfold Binding.listing
  rw [translate_map]
  refine Agree.map Binding.render fun r q h => ?_
  have hcollect := collect_told ((alike_scans hs).bindingNext limit) limit r q h
  unfold Binding.tokens
  rw [translate_apply, bind_apply, bind_apply]
  rw [translate_apply, map_apply] at hcollect
  cases hr : collect (Binding.next limit) limit r with
  | ok p r' =>
    rw [hr] at hcollect
    obtain ⟨q', hq, h'⟩ := hcollect.of_ok rfl
    rw [hq]
    obtain ⟨ts, o⟩ := p
    cases o with
    | none => exact Same.ok ts h'
    | some e => exact Same.error _ h'
  | error e r' =>
    rw [hr] at hcollect
    obtain ⟨_, _, _, hno, _⟩ | ⟨_, _, q', he, hq, h'⟩ := hcollect.cases
    · cases hno
    · cases he
      rw [hq]
      exact Same.error _ h'

end

/-! ## the same from any source -/

/-- nothing tells the reader `q` from the reader `r`, neither these operations nor the tokenizers,
but for how failures of the source are told -/
structure PassesFor (f : ε → δ) (rules : Rules) (limit : Nat) (ops : List Op) (r : Reader σ)
    (q : Reader τ) : Prop where
  outcomes : (run rules limit ops q).1 = (run rules limit ops r).1.map (Outcome.mapError f)
  buffered : (run rules limit ops q).2.buffered = (run rules limit ops r).2.buffered
  ended : (run rules limit ops q).2.ended = (run rules limit ops r).2.ended
  closed : (run rules limit ops q).2.closed = (run rules limit ops r).2.closed
  listing : outcomeOf (Binding.listing limit q) =
    (outcomeOf (Binding.listing limit r)).mapError (Halt.map f)
  tokens : outcomeOf (Settings.tokens limit q) =
    ((outcomeOf (Settings.tokens limit r)).map
      (Prod.map id (Option.map (ReadError.map f)))).mapError (Halt.map f)

theorem Alike.passesFor {f : ε → δ} {R : Bool → σ → τ → Prop} (hs : Source.Alike f R)
    (rules : Rules) (limit : Nat) {ops : List Op} (hready : .ready ∉ ops) {r : Reader σ}
    {q : Reader τ} (h : Alike R r q) : PassesFor f rules limit ops r q := by
  obtain ⟨houts, hend⟩ := run_alike hs rules limit ops (fun hmem => absurd hmem hready) h
  refine ⟨houts.symm, hend.buffered.symm, hend.ended.symm, hend.closed.symm, ?_, ?_⟩
  · have hlisting := (alike_bindings hs limit r q h).outcome
    rw [outcomeOf_translate] at hlisting
    exact hlisting.symm
  · have htokens := (alike_settings hs limit r q h).outcome
    rw [outcomeOf_translate, map_apply] at htokens
    rw [← htokens]
    cases Settings.tokens limit r <;> rfl

/-- **It does not matter where a text comes from.**  The bytes of a character are read as it,
whatever follows them.  A text is read as it is, as characters one after another from a source that
never fails or from one that might, and as the bytes it is written in, with reads interrupted
anywhere between them.  Any run of operations, but for asking whether the next read has to wait,
goes alike on readers of each of these, and so do the tokenizers.  Since this holds of every run, it
holds of every part of one, so that the readers also look alike at every step. -/
theorem same_from_any_source {ε : Type} {decode : Utf8.Decode} (hdecode : decode.Undoes)
    (text : List Char) {n : Nat} (hn : 0 < n)
    {feed : List (Utf8.Event ε)} (hfeed : Utf8.Interrupted feed (Utf8.encode text)) (rules : Rules)
    (limit : Nat) {ops : List Op} (hready : .ready ∉ ops) :
    ∃ r, create (⟨text⟩ : Text) n = .ok r ∧
      (∃ q, create (Script.ofList text : Script Empty) n = .ok q ∧
        PassesFor Empty.elim rules limit ops r q) ∧
      (∃ q, create (Script.ofList text : Script ε) n = .ok q ∧
        PassesFor Empty.elim rules limit ops r q) ∧
      ∃ q, create ({ feed := { ahead := feed } } : Utf8.Decoder ε decode) n = .ok q ∧
        PassesFor Empty.elim rules limit ops r q := by
  refine ⟨_, create_eq _ hn, ⟨_, create_eq _ hn, ?_⟩, ⟨_, create_eq _ hn, ?_⟩,
    ⟨_, create_eq _ hn, ?_⟩⟩
  · exact Alike.passesFor Script.alike_text rules limit hready ⟨rfl, rfl, rfl, rfl⟩
  · exact Alike.passesFor Script.alike_text rules limit hready ⟨rfl, rfl, rfl, rfl⟩
  · exact Alike.passesFor (Utf8.Decoder.alike_text hdecode) rules limit hready
      ⟨fun _ => Utf8.Decoder.holds_of_interrupted hfeed, rfl, rfl, rfl⟩

/-- a character of three bytes is read in a piece, although it came in three reads -/
theorem same_from_any_source_abc :
    let text := ['a', '€', 'b']
    let feed : List (Utf8.Event String) := [.interrupted, .byte 0x61, .byte 0xE2, .interrupted,
      .byte 0x82, .interrupted, .byte 0xAC, .byte 0x62, .interrupted]
    let ops := [Op.mark 2, .peekNth 1, .skip 1, .reset, .skip 1, .read, .close, .read]
    Utf8.Decode.Undoes Utf8.front ∧ 0 < 2 ∧ Utf8.Interrupted feed (Utf8.encode text) ∧ .ready ∉ ops ∧
      ∃ q, create ({ feed := { ahead := feed } } : Utf8.Decoder String Utf8.front) 2 = .ok q ∧
        (run Rules.standard 9 ops q).1 =
          [.answer .done, .answer (.char (some '€')), .answer (.count 1), .answer .done,
            .answer (.count 1), .answer (.char (some '€')), .answer .done,
            .answer (.char none)] := by
  intro text feed ops
  have hencode : Utf8.encode text = [0x61, 0xE2, 0x82, 0xAC, 0x62] := by decide
  have hfeed : Utf8.Interrupted feed (Utf8.encode text) := by
    rw [hencode]
    exact .again (.byte _ (.byte _ (.again (.byte _ (.again (.byte _ (.byte _ (.again .done))))))))
  have hready : Op.ready ∉ ops := by decide
  refine ⟨Utf8.undoes_front, by decide, hfeed, hready, ?_⟩
  obtain ⟨r, hr, -, -, q, hq, hsame⟩ :=
    same_from_any_source Utf8.undoes_front text (by decide : 0 < 2) hfeed Rules.standard 9 hready
  refine ⟨q, hq, hsame.outcomes.trans ?_⟩
  cases hr
  rfl

end Reader

end Lookahead
