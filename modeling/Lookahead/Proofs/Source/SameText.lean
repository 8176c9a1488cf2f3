import Lookahead.Proofs.Source.Alike
import Lookahead.Proofs.Utf8.Streaming
import Lookahead.Source.Script
import Lookahead.Source.Text

/-!
# Sources of one text

A text may come as it is, as characters one after another, or as the bytes that it is written in,
with reads that were interrupted between any of them.  Whatever is asked of these sources, they are
alike as long as they are open: what a text skips in one step the others read one by one, and what a
decoder has pulled too early is pending.

* `Script.alike_text`     a text and the characters of it;
* `Interrupted`           bytes and a feed that gives them, interrupted anywhere;
* `Decoder.alike_text`    a text and the bytes that it is written in.
-/

namespace Lookahead

/-! ## characters one after another -/

namespace Script

variable {ε : Type}

/-- the script is the rest of the text -/
def OfText (t : Text) (s : Script ε) : Prop := s = ofList t.rest

theorem reads_text :
    Agree OfText (translate Empty.elim Text.readChar) (readChar : EStateM ε (Script ε) _) := by
  rintro ⟨cs⟩ _ rfl
  cases cs with
  | nil => exact Same.ok none rfl
  | cons c cs => exact Same.ok (some c) rfl

theorem alike_text : Source.Alike Empty.elim (fun _ => OfText (ε := ε)) :=
  .of_readChar reads_text ⟨rfl, rfl⟩ ⟨fun n => funext (Text.skip_eq_discard n), fun _ => rfl⟩
    fun _ _ h => Same.ok () h

end Script

/-! ## bytes -/

namespace Utf8

open String (utf8EncodeChar)

def encode (cs : List Char) : List UInt8 := cs.flatMap utf8EncodeChar

theorem encode_cons (c : Char) (cs : List Char) :
    encode (c :: cs) = utf8EncodeChar c ++ encode cs := rfl

/-- a feed gives these bytes and no others, with interruptions anywhere among them -/
inductive Interrupted {ε : Type} : List (Event ε) → List UInt8 → Prop where
  | done : Interrupted [] []
  | byte (b : UInt8) {es : List (Event ε)} {bs : List UInt8} (h : Interrupted es bs) :
      Interrupted (.byte b :: es) (b :: bs)
  | again {es : List (Event ε)} {bs : List UInt8} (h : Interrupted es bs) :
      Interrupted (.interrupted :: es) bs

namespace Decoder

variable {ε : Type} {decode : Decode} {bs : List UInt8} {cs : List Char}

theorem holds_of_interrupted {es : List (Event ε)} (h : Interrupted es bs) :
    ({ feed := { ahead := es } } : Decoder ε decode).Holds bs [] := by
  induction h with
  | done => exact ⟨rfl, List.not_mem_nil, rfl, rfl⟩
  | byte b _ ih =>
    refine ⟨rfl, fun hmem => ?_, congrArg (b :: ·) ih.bytes, ih.failures⟩
    exact ih.lasting ((List.mem_cons.1 hmem).resolve_left nofun)
  | again _ ih =>
    refine ⟨rfl, fun hmem => ?_, ih.bytes, ih.failures⟩
    exact ih.lasting ((List.mem_cons.1 hmem).resolve_left nofun)

/-- the decoder is to give the rest of the text, as long as it is open -/
def OfText (closed : Bool) (t : Text) (d : Decoder ε decode) : Prop :=
  closed = false → d.Holds (encode t.rest) []

theorem reads_text (hdecode : decode.Undoes) :
    Agree (OfText false) (translate Empty.elim Text.readChar)
      (readChar : EStateM ε (Decoder ε decode) _) := by
  rintro ⟨cs⟩ d h
  have hread := (h rfl).readChar
  cases hd : readChar d with
  | error e d' =>
    rw [hd] at hread
    obtain ⟨_, hno, -⟩ := hread
    cases hno
  | ok o d' =>
    rw [hd] at hread
    cases o with
    | none =>
      obtain ⟨hnil, -, hend, -⟩ := hread
      cases cs with
      | nil => exact Same.ok none fun _ => hend
      | cons c cs => exact absurd (List.append_eq_nil_iff.1 hnil).1 String.utf8EncodeChar_ne_nil
    | some c' =>
      obtain ⟨q, later, heq, hq, rfl, hrest⟩ := hread
      cases cs with
      | nil =>
        obtain ⟨b, bs, rfl, -⟩ := hq
        cases heq
      | cons c cs =>
        obtain ⟨hchar, hdrop⟩ := hdecode.enough hq (heq.symm.trans (encode_cons c cs))
        rw [hchar]
        rw [hdrop] at hrest
        exact Same.ok (some c) fun _ => hrest

theorem alike_text (hdecode : decode.Undoes) :
    Source.Alike Empty.elim fun c t (d : Decoder ε decode) => OfText c t d :=
  .of_readChar (reads_text hdecode) ⟨rfl, rfl⟩
    ⟨fun n => funext (Text.skip_eq_discard n), fun _ => rfl⟩ fun _ _ _ => Same.ok () nofun

end Decoder

end Utf8

end Lookahead
