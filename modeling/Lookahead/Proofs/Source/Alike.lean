import Lookahead.Proofs.Agreement
import Lookahead.Source.Traced

/-!
# Sources that answer alike

Two sources are alike when every call is answered by both in the same way and leaves them alike,
though they may tell their failures in different ways.  That is all that a reader can find out about
its source, but for whether it is ready, which is asked apart.  A source and the same source with a
record kept of the calls are alike, so that what is proved of a reader with the record at hand holds
of the reader without it.

* `Source.Alike`      no call tells the one source from the other;
* `Agree.gather`, `Agree.discard`   reading one by one in both;
* `Source.Alike.of_readChar`        sources that do everything by single reads;
* `Traced.alike`      keeping a record changes no answer.
-/

namespace Lookahead

variable {σ τ ε δ α : Type} {R : σ → τ → Prop}

/-! ## reading one by one -/

theorem Agree.gather {x : EStateM ε σ (Option Char)} {y : EStateM ε τ (Option Char)}
    (hxy : Agree R x y) (room : Nat) {s : σ} {t : τ} (h : R s t) :
    Beside R (gather x room s) (gather y room t) := by
  induction room generalizing s t with
  | zero => exact ⟨rfl, h⟩
  | succ room ih =>
    unfold Lookahead.gather
    obtain ⟨o, s', t', hx, hy, hr⟩ | ⟨e, s', t', hx, hy, hr⟩ := (hxy s t h).cases
    · rw [hx, hy]
      cases o with
      | none => exact ⟨rfl, hr⟩
      | some c =>
        obtain ⟨hb, hend⟩ := ih hr
        exact ⟨congrArg (Bulk.after [c]) hb, hend⟩
    · rw [hx, hy]
      exact ⟨rfl, hr⟩

theorem Agree.discard {x : EStateM ε σ (Option Char)} {y : EStateM ε τ (Option Char)}
    (hxy : Agree R x y) (n : Nat) : Agree R (discard x n) (discard y n) := by
  induction n with
  | zero => exact fun _ _ h => Same.ok 0 h
  | succ n ih =>
    intro s t h
    unfold Lookahead.discard
    obtain ⟨o, s', t', hx, hy, hr⟩ | ⟨e, s', t', hx, hy, hr⟩ := (hxy s t h).cases
    · rw [hx, hy]
      cases o with
      | none => exact Same.ok 0 hr
      | some c => exact Agree.map (· + 1) ih s' t' hr
    · rw [hx, hy]
      exact Same.error e hr

theorem translate_discard (f : ε → δ) (next : EStateM ε σ (Option Char)) (n : Nat) :
    translate f (discard next n) = discard (translate f next) n := by
  induction n with
  | zero => rfl
  | succ n ih =>
    funext s
    rw [translate_apply]
    unfold Lookahead.discard
    rw [translate_apply]
    cases next s with
    | error e s => rfl
    | ok o s =>
      cases o with
      | none => rfl
      | some c => exact congrFun (ih ▸ translate_map f (· + 1) (discard next n)) s

/-! ## what a bulk read tells -/

theorem Bulk.mapError_id (b : Bulk ε) : b.mapError id = b := by
  cases b <;> rfl

theorem Bulk.mapError_after (f : ε → δ) (cs : List Char) (b : Bulk ε) :
    (b.after cs).mapError f = (b.mapError f).after cs := by
  cases b with
  | read ds =>
    show (ofList (cs ++ ds)).mapError f = ofList (cs ++ ds)
    cases cs ++ ds <;> rfl
  | ended =>
    show (ofList cs).mapError f = ofList cs
    cases cs <;> rfl
  | failed ds e => rfl

theorem gather_translate (f : ε → δ) (next : EStateM ε σ (Option Char)) (room : Nat) (s : σ) :
    gather (translate f next) room s = (gather next room s).map (Bulk.mapError f) id := by
  induction room generalizing s with
  | zero => rfl
  | succ room ih =>
    unfold Lookahead.gather
    rw [translate_apply]
    cases next s with
    | error e s => rfl
    | ok o s =>
      cases o with
      | none => rfl
      | some c =>
        dsimp only
        rw [ih]
        exact Prod.ext (Bulk.mapError_after f [c] _).symm rfl

theorem Bulk.after_after (cs ds : List Char) (b : Bulk ε) :
    (b.after ds).after cs = b.after (cs ++ ds) := by
  have hlist : ∀ es : List Char, (ofList es : Bulk ε).after cs = ofList (cs ++ es) := by
    intro es
    cases es with
    | nil => rw [List.append_nil]; rfl
    | cons e es => rfl
  cases b with
  | read es =>
    show (ofList (ds ++ es)).after cs = ofList (cs ++ ds ++ es)
    rw [hlist, List.append_assoc]
  | ended => exact hlist ds
  | failed es e => exact congrArg (failed · e) (List.append_assoc cs ds es).symm

theorem gather_ended {next : EStateM ε σ (Option Char)} {room : Nat} {s t : σ}
    (h : gather next room s = (.ended, t)) : next s = .ok none t := by
  cases room with
  | zero => cases h
  | succ room =>
    unfold gather at h
    cases hs : next s with
    | error e u =>
      rw [hs] at h
      cases h
    | ok o u =>
      rw [hs] at h
      cases o with
      | none =>
        cases h
        rfl
      | some c =>
        dsimp only at h
        rcases hg : gather next room u with ⟨b, v⟩
        rw [hg] at h
        cases b <;> cases h

/-! ## sources -/

/-- every call is answered alike, but for how failures are told, and leaves the sources alike: `R`
says how while they are open, and what holds once they are closed -/
structure Source.Alike [Source σ ε] [Source τ δ] (f : ε → δ) (R : Bool → σ → τ → Prop) : Prop where
  readChar : Agree (R false) (translate f Source.readChar) (Source.readChar : EStateM δ τ _)
  readInto : ∀ (room : Nat) (s : σ) (t : τ), R false s t →
    Beside (R false) ((Source.readInto room s).map (Bulk.mapError f) id) (Source.readInto room t)
  skip : ∀ n : Nat, Agree (R false) (translate f (Source.skip n)) (Source.skip n : EStateM δ τ _)
  close : ∀ (s : σ) (t : τ), R false s t →
    Same (R true) (translate f Source.close s) (Source.close t : EStateM.Result δ τ _)

/-- of sources that do everything by single reads, these decide -/
theorem Source.Alike.of_readChar [Source σ ε] [Source τ δ] {f : ε → δ} {R : Bool → σ → τ → Prop}
    (hread : Agree (R false) (translate f Source.readChar) (Source.readChar : EStateM δ τ _))
    (hinto : (Source.readInto : Nat → σ → _) = gather Source.readChar ∧
      (Source.readInto : Nat → τ → _) = gather Source.readChar)
    (hskip : (∀ n, (Source.skip n : EStateM ε σ _) = discard Source.readChar n) ∧
      ∀ n, (Source.skip n : EStateM δ τ _) = discard Source.readChar n)
    (hclose : ∀ (s : σ) (t : τ), R false s t →
      Same (R true) (translate f Source.close s) (Source.close t : EStateM.Result δ τ _)) :
    Source.Alike f R where
  readChar := hread
  readInto := fun room s t h => by
    rw [hinto.1, hinto.2, ← gather_translate]
    exact hread.gather room h
  skip := fun n => by
    rw [hskip.1, hskip.2, translate_discard]
    exact hread.discard n
  close := hclose

namespace Traced

/-- the record of this source, whatever stands in it -/
def Of (s : σ) (t : Traced σ ε) : Prop := t.source = s

theorem agree_record (call : Except ε α → Call ε) (x : EStateM ε σ α) :
    Agree Of (translate id x) (record call x) := by
  intro s t h
  subst h
  rw [translate_id]
  unfold record
  cases x t.source with
  | ok a s => exact Same.ok a rfl
  | error e s => exact Same.error e rfl

/-- keeping a record of a source changes no answer -/
theorem alike [Source σ ε] : Source.Alike id (fun _ => Of (σ := σ) (ε := ε)) where
  readChar := agree_record _ _
  readInto := fun room s t h => by
    subst h
    exact ⟨Bulk.mapError_id _, rfl⟩
  skip := fun n => agree_record _ _
  close := agree_record _ _

theorem agree_ready [Source σ ε] :
    Agree (Of (σ := σ) (ε := ε)) (translate id Source.ready) Source.ready := agree_record _ _

end Traced

end Lookahead
