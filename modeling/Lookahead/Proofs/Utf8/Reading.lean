import Lookahead.Utf8.Front

/-!
# What bytes read as

Bytes are cut into pieces, and each piece is one character.  A piece is the bytes of a character, or
it is as much as begins a character where no character follows, or a byte that begins none; the
latter two are replaced.  This says nothing of how the pieces are found.  All bytes begin with a
piece, and with one only, which is no longer than its first byte announces.  So whoever decodes the
front of some bytes needs no more of them.

* `Piece`           a piece and the character that it is, if it is one;
* `ReadsAs`         bytes that are cut into such pieces;
* `Decode.Cuts`     a way to read fronts that takes these pieces;
* `readsAs_iff`     there is one reading, and it is that of `lossy`.
-/

namespace Lookahead.Utf8

open String (utf8EncodeChar)

/-- the bytes of some character begin with these -/
def Begins (p : List UInt8) : Prop := ∃ c, p <+: utf8EncodeChar c

/-- the bytes `p`, with `rest` after them, are a piece, which is this character or none -/
inductive Piece : List UInt8 → List UInt8 → Option Char → Prop where
  /-- the bytes of a character -/
  | whole (c : Char) (rest : List UInt8) : Piece (utf8EncodeChar c) rest (some c)
  /-- the first part of a character that breaks off: with the next byte it is that of none -/
  | broken {p rest : List UInt8} {c : Char} (ne : p ≠ []) (part : p <+: utf8EncodeChar c)
      (short : p ≠ utf8EncodeChar c) (most : ∀ x, rest.head? = some x → ¬ Begins (p ++ [x])) :
      Piece p rest none
  /-- a byte that begins no character -/
  | stray {b : UInt8} (rest : List UInt8) (none : ¬ Begins [b]) : Piece [b] rest Option.none

/-- the bytes are cut into pieces that read as these characters -/
inductive ReadsAs : List UInt8 → List Char → Prop where
  | nil : ReadsAs [] []
  | cons {p rest : List UInt8} {o : Option Char} {cs : List Char} (piece : Piece p rest o)
      (tail : ReadsAs rest cs) : ReadsAs (p ++ rest) (o.getD replacement :: cs)

/-- the pieces are what stands at the front -/
def Decode.Cuts (decode : Decode) : Prop :=
  ∀ {p rest : List UInt8} {o : Option Char}, Piece p rest o → decode (p ++ rest) = ⟨o, p.length⟩

/-! ## the bytes of a character -/

theorem toNat_byte {n : Nat} (h : n < 256) : (UInt8.ofNat n).toNat = n := by
  rw [UInt8.toNat_ofNat', Nat.mod_eq_of_lt h]

/-- no character's bytes begin with those of another -/
theorem eq_of_begins_encode {c d : Char} (h : utf8EncodeChar d <+: utf8EncodeChar c) : c = d := by
  obtain ⟨t, ht⟩ := h
  have hc := ByteArray.utf8DecodeChar?_utf8EncodeChar_append (b := ByteArray.empty) (c := c)
  have hd := ByteArray.utf8DecodeChar?_utf8EncodeChar_append (b := t.toByteArray) (c := d)
  rw [ByteArray.append_empty] at hc
  rw [← List.toByteArray_append, ht, hc] at hd
  exact Option.some.inj hd

theorem announced_encode {c : Char} {b : UInt8} {bs : List UInt8}
    (h : utf8EncodeChar c = b :: bs) : announced b = bs.length + 1 := by
  have hvalid : c.val.toNat < 0x110000 := by
    have : c.val.toNat < 0xD800 ∨ 0xDFFF < c.val.toNat ∧ c.val.toNat < 0x110000 := c.valid
    omega
  have hb : ∀ n, n < 256 → announced (UInt8.ofNat n) =
      if 0xC2 ≤ n ∧ n ≤ 0xDF then 2
      else if 0xE0 ≤ n ∧ n ≤ 0xEF then 3
      else if 0xF0 ≤ n ∧ n ≤ 0xF4 then 4
      else 1 := fun n hn => by rw [announced, toNat_byte hn]
  unfold utf8EncodeChar at h
  generalize c.val.toNat = v at hvalid h
  dsimp only at h
  by_cases h1 : v ≤ 127
  · rw [if_pos h1] at h
    obtain ⟨rfl, rfl⟩ := List.cons.inj h
    rw [hb _ (by omega), if_neg (by omega), if_neg (by omega), if_neg (by omega)]
    rfl
  rw [if_neg h1] at h
  by_cases h2 : v ≤ 2047
  · rw [if_pos h2] at h
    obtain ⟨rfl, rfl⟩ := List.cons.inj h
    rw [hb _ (by omega), if_pos (by omega)]
    rfl
  rw [if_neg h2] at h
  by_cases h3 : v ≤ 65535
  · rw [if_pos h3] at h
    obtain ⟨rfl, rfl⟩ := List.cons.inj h
    rw [hb _ (by omega), if_neg (by omega), if_pos (by omega)]
    rfl
  rw [if_neg h3] at h
  obtain ⟨rfl, rfl⟩ := List.cons.inj h
  rw [hb _ (by omega), if_neg (by omega), if_neg (by omega), if_pos (by omega)]
  rfl

namespace Piece

variable {p q rest rest' : List UInt8} {o o' : Option Char}

theorem ne_nil (h : Piece p rest o) : p ≠ [] := by
  cases h with
  | whole c => exact String.utf8EncodeChar_ne_nil
  | broken ne => exact ne
  | stray => exact List.cons_ne_nil _ _

theorem length_pos (h : Piece p rest o) : 0 < p.length := List.length_pos_iff.2 h.ne_nil

theorem begins (h : Piece p rest o) (hlen : 1 < p.length) : Begins p := by
  cases h with
  | whole c => exact ⟨c, List.prefix_rfl⟩
  | broken _ part => exact ⟨_, part⟩
  | stray => cases Nat.lt_irrefl 1 hlen

theorem length_le_announced {b : UInt8} {bs : List UInt8} (h : Piece p rest o) (hp : p = b :: bs) :
    p.length ≤ announced b := by
  cases h with
  | whole c =>
    rw [announced_encode hp, hp]
    exact Nat.le_refl _
  | broken _ part =>
    obtain ⟨t, ht⟩ := part
    rw [hp, List.cons_append] at ht
    rw [announced_encode ht.symm, hp, List.length_cons, List.length_append]
    exact Nat.succ_le_succ (Nat.le_add_right _ _)
  | stray => exact announced_pos b

/-! ## one way to cut -/

/-- a piece is a whole character, or else it is that of no character -/
theorem whole_or_none (h : Piece p rest o) :
    (∃ c, o = some c ∧ p = utf8EncodeChar c) ∨ o = none ∧ ∀ d, p ≠ utf8EncodeChar d := by
  cases h with
  | whole c => exact .inl ⟨c, rfl, rfl⟩
  | broken _ part short =>
    refine .inr ⟨rfl, fun d hd => ?_⟩
    rw [hd] at part
    rw [eq_of_begins_encode part] at short
    exact short hd
  | stray _ none => exact .inr ⟨rfl, fun d hd => none ⟨d, [], (List.append_nil _).trans hd⟩⟩

/-- a piece goes no further than another one with the same bytes to come -/
theorem length_le (hp : Piece p rest o) (hq : Piece q rest' o') (h : p ++ rest = q ++ rest') :
    q.length ≤ p.length := by
  refine Nat.le_of_not_lt fun hlt => ?_
  have hpre : p <+: q :=
    List.prefix_of_prefix_length_le ⟨rest, h⟩ ⟨rest', rfl⟩ (Nat.le_of_lt hlt)
  have hpos := hp.length_pos
  obtain ⟨a, ha⟩ := hq.begins (by omega)
  cases hp with
  | whole =>
    -- the other piece goes past a whole character and begins none that is longer
    rw [eq_of_begins_encode (hpre.trans ha)] at ha
    have hle := ha.length_le
    omega
  | broken _ _ _ most =>
    obtain ⟨t, rfl⟩ := hpre
    cases t with
    | nil =>
      rw [List.append_nil] at hlt
      exact Nat.lt_irrefl _ hlt
    | cons x t =>
      rw [List.append_assoc, List.append_cancel_left_eq] at h
      refine most x (by rw [h]; rfl) ⟨a, List.IsPrefix.trans ⟨t, ?_⟩ ha⟩
      rw [List.append_assoc, List.singleton_append]
  | stray _ none => exact none ⟨a, hpre.trans ha⟩

theorem unique (hp : Piece p rest o) (hq : Piece q rest' o') (h : p ++ rest = q ++ rest') :
    p = q ∧ rest = rest' ∧ o = o' := by
  have hlen : p.length = q.length := Nat.le_antisymm (hq.length_le hp h.symm) (hp.length_le hq h)
  obtain ⟨rfl, rfl⟩ := List.append_inj h hlen
  refine ⟨rfl, rfl, ?_⟩
  obtain ⟨c, rfl, hc⟩ | ⟨rfl, hc⟩ := hp.whole_or_none
  · obtain ⟨d, rfl, hd⟩ | ⟨-, hd⟩ := hq.whole_or_none
    · exact congrArg some (eq_of_begins_encode (hc ▸ hd ▸ List.prefix_rfl))
    · exact absurd hc (hd c)
  · obtain ⟨d, rfl, hd⟩ | ⟨rfl, -⟩ := hq.whole_or_none
    · exact absurd hd (hc d)
    · rfl

/-- what comes after the next bytes has no say in a piece -/
theorem cut {s later : List UInt8} (h : Piece p (s ++ later) o) : Piece p s o := by
  cases h with
  | whole c => exact whole c s
  | broken ne part short most =>
    refine broken ne part short fun x hx => most x ?_
    rw [List.head?_append, hx, Option.some_or]
  | stray _ none => exact stray s none

end Piece

/-! ## a piece at every front -/

/-- what begins a character goes on to the longest that does -/
theorem exists_longest {p : List UInt8} (h : Begins p) (rest : List UInt8) :
    ∃ q later, p ++ rest = q ++ later ∧ p <+: q ∧ Begins q ∧
      ∀ x, later.head? = some x → ¬ Begins (q ++ [x]) := by
  induction rest generalizing p with
  | nil => exact ⟨p, [], rfl, List.prefix_rfl, h, nofun⟩
  | cons x xs ih =>
    by_cases hx : Begins (p ++ [x])
    · obtain ⟨q, later, heq, hpre, hq, hmost⟩ := ih hx
      refine ⟨q, later, ?_, (List.prefix_append p [x]).trans hpre, hq, hmost⟩
      rw [← heq, List.append_assoc, List.singleton_append]
    · refine ⟨p, x :: xs, rfl, List.prefix_rfl, h, fun y hy => ?_⟩
      cases hy
      exact hx

theorem exists_piece (b : UInt8) (bs : List UInt8) :
    ∃ p rest o, b :: bs = p ++ rest ∧ Piece p rest o := by
  by_cases hb : Begins [b]
  · obtain ⟨q, later, heq, hpre, ⟨c, part⟩, hmost⟩ := exists_longest hb bs
    have hne : q ≠ [] := fun hq => by
      rw [hq] at hpre
      cases List.prefix_nil.1 hpre
    by_cases hq : q = utf8EncodeChar c
    · exact ⟨q, later, some c, heq, hq ▸ Piece.whole c later⟩
    · exact ⟨q, later, none, heq, Piece.broken hne part hq hmost⟩
  · exact ⟨[b], bs, none, rfl, Piece.stray bs hb⟩

/-! ## the bytes that are enough -/

/-- of the bytes to come these are as many as the first one announces, or all there are -/
def Enough (q later : List UInt8) : Prop :=
  ∃ b bs, q = b :: bs ∧ (announced b ≤ q.length ∨ later = [])

theorem Enough.holds {q later p rest : List UInt8} (h : Enough q later)
    (heq : q ++ later = p ++ rest) (hne : p ≠ [])
    (hp : ∀ b bs, p = b :: bs → p.length ≤ announced b) :
    ∃ s, q = p ++ s ∧ rest = s ++ later := by
  obtain ⟨b, bs, rfl, henough⟩ := h
  obtain ⟨c, cs, rfl⟩ := List.exists_cons_of_ne_nil hne
  obtain rfl : b = c := (List.cons.inj heq).1
  have hle : (b :: cs).length ≤ (b :: bs).length := by
    obtain hall | rfl := henough
    · exact Nat.le_trans (hp b cs rfl) hall
    · rw [List.append_nil] at heq
      rw [heq, List.length_append]
      exact Nat.le_add_right _ _
  obtain ⟨s, hs⟩ := List.prefix_of_prefix_length_le (⟨rest, rfl⟩ : b :: cs <+: _)
    (heq ▸ ⟨later, rfl⟩ : b :: bs <+: _) hle
  have hrest : b :: cs ++ rest = b :: cs ++ (s ++ later) := by
    rw [← heq, ← hs, List.append_assoc]
  exact ⟨s, hs.symm, List.append_cancel_left hrest⟩

section
variable {decode : Decode} {q later : List UInt8}

/-- of enough bytes the same is read as of all -/
theorem Decode.Cuts.enough (h : decode.Cuts) (hq : Enough q later) :
    decode (q ++ later) = decode q ∧ (decode q).taken ≤ q.length := by
  obtain ⟨b, bs, rfl, -⟩ := id hq
  obtain ⟨p, rest, o, heq, hp⟩ := exists_piece b (bs ++ later)
  rw [← List.cons_append] at heq
  obtain ⟨s, hs, rfl⟩ := hq.holds heq hp.ne_nil fun c cs => hp.length_le_announced
  have hall : decode (p ++ (s ++ later)) = ⟨o, p.length⟩ := h hp
  have hsome : decode (p ++ s) = ⟨o, p.length⟩ := h hp.cut
  rw [heq, hs, hall, hsome]
  refine ⟨rfl, ?_⟩
  rw [Front.taken_of_pos o hp.length_pos, List.length_append]
  exact Nat.le_add_right _ _

theorem Decode.Cuts.lossy_enough (h : decode.Cuts) (hq : Enough q later) :
    lossy decode (q ++ later) =
      (decode q).char :: lossy decode (q.drop (decode q).taken ++ later) := by
  obtain ⟨hsame, hle⟩ := h.enough hq
  obtain ⟨b, bs, rfl, -⟩ := hq
  rw [← List.drop_append_of_le_length hle, ← hsame]
  exact lossy_cons decode b (bs ++ later)

theorem Decode.Undoes.enough (h : decode.Undoes) (hq : Enough q later) {c : Char}
    {rest : List UInt8} (heq : q ++ later = utf8EncodeChar c ++ rest) :
    (decode q).char = c ∧ q.drop (decode q).taken ++ later = rest := by
  obtain ⟨s, rfl, rfl⟩ := hq.holds heq String.utf8EncodeChar_ne_nil fun b bs hb => by
    rw [announced_encode hb, hb]
    exact Nat.le_refl _
  have hpos : 0 < (utf8EncodeChar c).length := List.length_pos_iff.2 String.utf8EncodeChar_ne_nil
  rw [h c s, Front.taken_of_pos _ hpos, List.drop_left]
  exact ⟨rfl, rfl⟩

/-! ## whole inputs -/

theorem Decode.Cuts.lossy_append (h : decode.Cuts) {p rest : List UInt8} {o : Option Char}
    (hp : Piece p rest o) : lossy decode (p ++ rest) = o.getD replacement :: lossy decode rest := by
  obtain ⟨b, bs, rfl⟩ := List.exists_cons_of_ne_nil hp.ne_nil
  have hfront : decode (b :: (bs ++ rest)) = ⟨o, (b :: bs).length⟩ := h hp
  rw [List.cons_append, lossy_cons, hfront, Front.taken_of_pos o hp.length_pos, ← List.cons_append,
    List.drop_left]
  rfl

theorem Decode.Cuts.readsAs_lossy (h : decode.Cuts) (bs : List UInt8) :
    ReadsAs bs (lossy decode bs) := by
  induction hn : bs.length using Nat.strongRecOn generalizing bs with
  | ind n ih =>
    cases bs with
    | nil =>
      rw [lossy_nil]
      exact ReadsAs.nil
    | cons b bs =>
      obtain ⟨p, rest, o, heq, hp⟩ := exists_piece b bs
      have hpos := hp.length_pos
      have hlen := congrArg List.length heq
      rw [List.length_append] at hlen
      rw [heq, h.lossy_append hp]
      exact ReadsAs.cons hp (ih rest.length (by omega) rest rfl)

/-- bytes are cut into pieces in one way, which `lossy` takes -/
theorem Decode.Cuts.readsAs_iff (h : decode.Cuts) {bs : List UInt8} {cs : List Char} :
    ReadsAs bs cs ↔ cs = lossy decode bs := by
  refine ⟨fun hcs => ?_, fun hcs => hcs ▸ h.readsAs_lossy bs⟩
  induction hcs with
  | nil => exact (lossy_nil decode).symm
  | cons piece _ ih => rw [h.lossy_append piece, ih]

end

end Lookahead.Utf8
