import Lookahead.Proofs.Utf8.Reading
import Lookahead.Utf8.Decode

/-!
# Lead bytes find the pieces

The bytes of a character, whatever follows them, read as that character.  Conversely a front that
takes all the bytes which its lead byte announces was written so.  A front that takes fewer has met
a byte, or the end, where the character could still have gone on: what it took begins some
character, and with the next byte it begins none.  So what `front` takes is a piece.

* `undoes_front`        the bytes of a character read as it;
* `encode_front`        what was read to its end was written so;
* `part_of_broken`, `not_begins_of_broken`   what was broken off is the first part of a character,
  and with the next byte it is that of none;
* `cuts_front`          all pieces are found.
-/

namespace Lookahead.Utf8

open String (utf8EncodeChar)

/-! ## lead bytes -/

/-- a lead byte says how many bytes follow, as the number of bytes announced does -/
theorem announced_lead (b : UInt8) :
    announced b = match Lead.of? b with
      | some l => l.more + 1
      | none => 1 := by
  unfold announced Lead.of?
  generalize b.toNat = n
  dsimp only
  by_cases h1 : n < 0x80
  · rw [if_pos h1, if_neg (by omega), if_neg (by omega), if_neg (by omega)]
  rw [if_neg h1]
  by_cases h2 : n < 0xC2
  · rw [if_pos h2, if_neg (by omega), if_neg (by omega), if_neg (by omega)]
  rw [if_neg h2]
  by_cases h3 : n < 0xE0
  · rw [if_pos h3, if_pos (by omega)]
  rw [if_neg h3, if_neg (by omega)]
  by_cases h4 : n < 0xF0
  · rw [if_pos h4, if_pos (by omega)]
  rw [if_neg h4, if_neg (by omega)]
  by_cases h5 : n < 0xF5
  · rw [if_pos h5, if_pos (by omega)]
  · rw [if_neg h5, if_neg (by omega)]

/-! ## one byte more -/

section
variable {value size low high more : Nat} {b : UInt8} {bs : List UInt8}

theorem extend_succ (h : low ≤ b.toNat ∧ b.toNat ≤ high) :
    extend value size low high (more + 1) (b :: bs) =
      extend (value * 64 + (b.toNat - 0x80)) (size + 1) 0x80 0xBF more bs := if_pos h

theorem extend_stop (h : ¬ (low ≤ b.toNat ∧ b.toNat ≤ high)) :
    extend value size low high (more + 1) (b :: bs) = ⟨none, size⟩ := if_neg h

theorem extend_full (h : (extend value size low high (more + 1) bs).size = size + (more + 1)) :
    ∃ x xs, bs = x :: xs ∧ (low ≤ x.toNat ∧ x.toNat ≤ high) ∧
      extend value size low high (more + 1) bs =
        extend (value * 64 + (x.toNat - 0x80)) (size + 1) 0x80 0xBF more xs := by
  cases bs with
  | nil =>
    have hsize : size = size + (more + 1) := h
    omega
  | cons x xs =>
    by_cases hx : low ≤ x.toNat ∧ x.toNat ≤ high
    · exact ⟨x, xs, rfl, hx, extend_succ hx⟩
    · rw [extend_stop hx] at h
      have hsize : size = size + (more + 1) := h
      omega

end

/-! ## reading what was written -/

theorem extend_byte {value size low high more n : Nat} {bs : List UInt8} (hn : n < 64)
    (hlow : low ≤ n + 128) (hhigh : n + 128 ≤ high) :
    extend value size low high (more + 1) (UInt8.ofNat (n + 128) :: bs) =
      extend (value * 64 + n) (size + 1) 0x80 0xBF more bs := by
  have hb : (UInt8.ofNat (n + 128)).toNat = n + 128 := toNat_byte (by omega)
  rw [extend_succ (by rw [hb]; exact ⟨hlow, hhigh⟩), hb, Nat.add_sub_cancel]

theorem Lead.of?_byte {n : Nat} (h : n < 256) : Lead.of? (UInt8.ofNat n) =
    if n < 0x80 then some ⟨n, 0, 0x80, 0xBF⟩
    else if n < 0xC2 then none
    else if n < 0xE0 then some ⟨n - 0xC0, 1, 0x80, 0xBF⟩
    else if n < 0xF0 then
      some ⟨n - 0xE0, 2, if n = 0xE0 then 0xA0 else 0x80, if n = 0xED then 0x9F else 0xBF⟩
    else if n < 0xF5 then
      some ⟨n - 0xF0, 3, if n = 0xF0 then 0x90 else 0x80, if n = 0xF4 then 0x8F else 0xBF⟩
    else none := by
  unfold Lead.of?
  rw [toNat_byte h]

theorem undoes_front : Decode.Undoes front := by
  intro c rest
  have hvalid : c.val.toNat < 0xD800 ∨ 0xDFFF < c.val.toNat ∧ c.val.toNat < 0x110000 := c.valid
  have hc : Char.ofNat c.val.toNat = c := Char.ofNat_toNat c
  unfold utf8EncodeChar
  generalize c.val.toNat = v at hvalid hc
  dsimp only
  by_cases h1 : v ≤ 127
  · rw [if_pos h1]
    show front (_ :: rest) = _
    rw [front, Lead.of?_byte (by omega), if_pos (by omega)]
    exact congrArg (Front.mk · 1) (congrArg some hc)
  rw [if_neg h1]
  by_cases h2 : v ≤ 2047
  · rw [if_pos h2]
    show front (_ :: _ :: rest) = _
    rw [front, Lead.of?_byte (by omega), if_neg (by omega), if_neg (by omega), if_pos (by omega)]
    show extend (v / 64 % 32 + 192 - 0xC0) 1 0x80 0xBF 1 (_ :: rest) = _
    rw [extend_byte (by omega) (by omega) (by omega),
      show (v / 64 % 32 + 192 - 0xC0) * 64 + v % 64 = v by omega]
    exact congrArg (Front.mk · 2) (congrArg some hc)
  rw [if_neg h2]
  by_cases h3 : v ≤ 65535
  · rw [if_pos h3]
    show front (_ :: _ :: _ :: rest) = _
    rw [front, Lead.of?_byte (by omega), if_neg (by omega), if_neg (by omega), if_neg (by omega),
      if_pos (by omega)]
    show extend (v / 4096 % 16 + 224 - 0xE0) 1 (if _ then _ else _) (if _ then _ else _) 2
      (_ :: _ :: rest) = _
    -- the second byte keeps clear of characters with shorter forms and of the surrogates
    rw [extend_byte (by omega) (by split <;> omega) (by split <;> omega),
      extend_byte (by omega) (by omega) (by omega),
      show ((v / 4096 % 16 + 224 - 0xE0) * 64 + v / 64 % 64) * 64 + v % 64 = v by omega]
    exact congrArg (Front.mk · 3) (congrArg some hc)
  rw [if_neg h3]
  show front (_ :: _ :: _ :: _ :: rest) = _
  rw [front, Lead.of?_byte (by omega), if_neg (by omega), if_neg (by omega), if_neg (by omega),
    if_neg (by omega), if_pos (by omega)]
  show extend (v / 262144 % 8 + 240 - 0xF0) 1 (if _ then _ else _) (if _ then _ else _) 3
    (_ :: _ :: _ :: rest) = _
  rw [extend_byte (by omega) (by split <;> omega) (by split <;> omega),
    extend_byte (by omega) (by omega) (by omega), extend_byte (by omega) (by omega) (by omega),
    show (((v / 262144 % 8 + 240 - 0xF0) * 64 + v / 4096 % 64) * 64 + v / 64 % 64) * 64 + v % 64 =
      v by omega]
  exact congrArg (Front.mk · 4) (congrArg some hc)

/-! ## writing what was read -/

theorem ofNat_eq {n : Nat} {b : UInt8} (h : n = b.toNat) : UInt8.ofNat n = b := by
  rw [h, UInt8.ofNat_toNat]

theorem val_ofNat {n : Nat} (h : n.isValidChar) : (Char.ofNat n).val.toNat = n := by
  rw [Char.ofNat, dif_pos h]
  rfl

section
variable {n : Nat} {b x y z : UInt8}

theorem encode_one (hb : b.toNat = n) (h : n < 0x80) : utf8EncodeChar (Char.ofNat n) = [b] := by
  unfold utf8EncodeChar
  rw [val_ofNat (.inl (by omega))]
  dsimp only
  rw [if_pos (by omega), ofNat_eq hb.symm]

theorem encode_two (hb : b.toNat = n / 64 + 0xC0) (hx : x.toNat = n % 64 + 0x80)
    (hlow : 0x80 ≤ n) (hhigh : n < 0x800) : utf8EncodeChar (Char.ofNat n) = [b, x] := by
  unfold utf8EncodeChar
  rw [val_ofNat (.inl (by omega))]
  dsimp only
  rw [if_neg (by omega), if_pos (by omega), ofNat_eq (b := b) (by omega),
    ofNat_eq (b := x) (by omega)]

theorem encode_three (hb : b.toNat = n / 4096 + 0xE0) (hx : x.toNat = n / 64 % 64 + 0x80)
    (hy : y.toNat = n % 64 + 0x80) (hlow : 0x800 ≤ n) (hhigh : n < 0x10000)
    (hvalid : n.isValidChar) : utf8EncodeChar (Char.ofNat n) = [b, x, y] := by
  unfold utf8EncodeChar
  rw [val_ofNat hvalid]
  dsimp only
  rw [if_neg (by omega), if_neg (by omega), if_pos (by omega), ofNat_eq (b := b) (by omega),
    ofNat_eq (b := x) (by omega), ofNat_eq (b := y) (by omega)]

theorem encode_four (hb : b.toNat = n / 262144 + 0xF0) (hx : x.toNat = n / 4096 % 64 + 0x80)
    (hy : y.toNat = n / 64 % 64 + 0x80) (hz : z.toNat = n % 64 + 0x80) (hlow : 0x10000 ≤ n)
    (hhigh : n < 0x110000) : utf8EncodeChar (Char.ofNat n) = [b, x, y, z] := by
  unfold utf8EncodeChar
  rw [val_ofNat (.inr (by omega))]
  dsimp only
  rw [if_neg (by omega), if_neg (by omega), if_neg (by omega), ofNat_eq (b := b) (by omega),
    ofNat_eq (b := x) (by omega), ofNat_eq (b := y) (by omega), ofNat_eq (b := z) (by omega)]

end

theorem Lead.of?_cases {b : UInt8} {l : Lead} (h : Lead.of? b = some l) :
    (l = ⟨b.toNat, 0, 0x80, 0xBF⟩ ∧ b.toNat < 0x80) ∨
    (l = ⟨b.toNat - 0xC0, 1, 0x80, 0xBF⟩ ∧ 0xC2 ≤ b.toNat ∧ b.toNat < 0xE0) ∨
    (l = ⟨b.toNat - 0xE0, 2, if b.toNat = 0xE0 then 0xA0 else 0x80,
        if b.toNat = 0xED then 0x9F else 0xBF⟩ ∧ 0xE0 ≤ b.toNat ∧ b.toNat < 0xF0) ∨
    (l = ⟨b.toNat - 0xF0, 3, if b.toNat = 0xF0 then 0x90 else 0x80,
        if b.toNat = 0xF4 then 0x8F else 0xBF⟩ ∧ 0xF0 ≤ b.toNat ∧ b.toNat < 0xF5) := by
  unfold Lead.of? at h
  dsimp only at h
  split at h
  · exact .inl ⟨(Option.some.inj h).symm, by assumption⟩
  split at h
  · cases h
  split at h
  · exact .inr (.inl ⟨(Option.some.inj h).symm, by omega⟩)
  split at h
  · exact .inr (.inr (.inl ⟨(Option.some.inj h).symm, by omega⟩))
  split at h
  · exact .inr (.inr (.inr ⟨(Option.some.inj h).symm, by omega⟩))
  · cases h

theorem Lead.low_le {b : UInt8} {l : Lead} (h : Lead.of? b = some l) :
    l.low ≤ l.high ∧ l.low < 256 := by
  obtain ⟨rfl, -⟩ | ⟨rfl, -⟩ | ⟨rfl, -⟩ | ⟨rfl, -⟩ := Lead.of?_cases h
  · exact (by decide : 0x80 ≤ 0xBF ∧ 0x80 < 256)
  · exact (by decide : 0x80 ≤ 0xBF ∧ 0x80 < 256)
  · dsimp only
    split <;> split <;> omega
  · dsimp only
    split <;> split <;> omega

theorem front_of_lead {b : UInt8} {l : Lead} (hl : Lead.of? b = some l) (bs : List UInt8) :
    front (b :: bs) = extend l.bits 1 l.low l.high l.more bs := by rw [front, hl]

/-- a character that was read to its end is written in the bytes that were read -/
theorem encode_front {b : UInt8} {bs : List UInt8} {l : Lead} (hl : Lead.of? b = some l)
    (h : (front (b :: bs)).size = l.more + 1) :
    ∃ c, (front (b :: bs)).char? = some c ∧ utf8EncodeChar c = (b :: bs).take (l.more + 1) := by
  rw [front_of_lead hl, Nat.add_comm l.more 1] at h
  rw [front_of_lead hl]
  obtain ⟨rfl, hb⟩ | ⟨rfl, hb⟩ | ⟨rfl, hb⟩ | ⟨rfl, hb⟩ := Lead.of?_cases hl
  · exact ⟨_, rfl, encode_one rfl hb⟩
  · obtain ⟨x, xs, rfl, hx, hext⟩ := extend_full h
    rw [hext, extend]
    refine ⟨_, rfl, ?_⟩
    dsimp only [List.take] at hx ⊢
    apply encode_two <;> omega
  · obtain ⟨x, xs, rfl, hx, hext⟩ := extend_full h
    rw [hext] at h ⊢
    obtain ⟨y, ys, rfl, hy, hext'⟩ := extend_full h
    rw [hext', extend]
    refine ⟨_, rfl, ?_⟩
    dsimp only [List.take] at hx ⊢
    have hvalid : Nat.isValidChar (((b.toNat - 0xE0) * 64 + (x.toNat - 0x80)) * 64 +
        (y.toNat - 0x80)) := by
      unfold Nat.isValidChar
      split at hx <;> split at hx <;> omega
    refine encode_three ?_ ?_ ?_ ?_ ?_ hvalid <;> split at hx <;> split at hx <;> omega
  · obtain ⟨x, xs, rfl, hx, hext⟩ := extend_full h
    rw [hext] at h ⊢
    obtain ⟨y, ys, rfl, hy, hext'⟩ := extend_full h
    rw [hext'] at h ⊢
    obtain ⟨z, zs, rfl, hz, hext''⟩ := extend_full h
    rw [hext'', extend]
    refine ⟨_, rfl, ?_⟩
    dsimp only [List.take] at hx ⊢
    apply encode_four <;> split at hx <;> split at hx <;> omega

/-! ## characters that break off -/

theorem extend_replicate (value size more : Nat) :
    (extend value size 0x80 0xBF more (List.replicate more 0x80)).size = size + more := by
  induction more generalizing value size with
  | zero => rfl
  | succ more ih =>
    rw [List.replicate_succ, extend_succ (by decide), ih]
    omega

/-- what was taken can go on to a whole character -/
theorem extend_completes {value size low high more j : Nat} {bs : List UInt8} (hlow : low ≤ high)
    (hbyte : low < 256) (h : (extend value size low high more bs).size = size + j) :
    ∃ ds, (extend value size low high more (bs.take j ++ ds)).size = size + more := by
  induction more generalizing value size low high bs j with
  | zero => exact ⟨[], rfl⟩
  | succ more ih =>
    cases j with
    | zero =>
      refine ⟨UInt8.ofNat low :: List.replicate more 0x80, ?_⟩
      rw [List.take_zero, List.nil_append,
        extend_succ (by rw [toNat_byte hbyte]; exact ⟨Nat.le_refl _, hlow⟩), extend_replicate]
      omega
    | succ j =>
      cases bs with
      | nil =>
        have hsize : size = size + (j + 1) := h
        omega
      | cons x xs =>
        by_cases hx : low ≤ x.toNat ∧ x.toNat ≤ high
        · rw [extend_succ hx] at h
          obtain ⟨ds, hds⟩ := ih (by decide) (by decide) (h.trans (by omega : _ = size + 1 + j))
          refine ⟨ds, ?_⟩
          rw [List.take_succ_cons, List.cons_append, extend_succ hx, hds]
          omega
        · rw [extend_stop hx] at h
          have hsize : size = size + (j + 1) := h
          omega

/-- a byte that stops a character does so whatever follows it -/
theorem extend_stops {value size low high more : Nat} {xs ys : List UInt8} {x : UInt8}
    (hmore : xs.length < more)
    (h : (extend value size low high more (xs ++ x :: ys)).size = size + xs.length)
    (zs : List UInt8) :
    (extend value size low high more (xs ++ x :: zs)).size = size + xs.length := by
  induction more generalizing value size low high xs with
  | zero => cases hmore
  | succ more ih =>
    cases xs with
    | nil =>
      by_cases hx : low ≤ x.toNat ∧ x.toNat ≤ high
      · rw [List.nil_append, extend_succ hx] at h
        have hle := le_size_extend (value * 64 + (x.toNat - 0x80)) (size + 1) 0x80 0xBF more ys
        have hsize : _ = size := h
        omega
      · rw [List.nil_append, extend_stop hx]
        rfl
    | cons b bs =>
      have hlen : (b :: bs).length = bs.length + 1 := rfl
      by_cases hb : low ≤ b.toNat ∧ b.toNat ≤ high
      · rw [List.cons_append, extend_succ hb] at h ⊢
        rw [ih (by omega) (by omega)]
        omega
      · rw [List.cons_append, extend_stop hb] at h
        have hsize : size = size + (bs.length + 1) := h
        omega

theorem char_of_broken {value size low high more : Nat} {bs : List UInt8}
    (h : (extend value size low high more bs).size < size + more) :
    (extend value size low high more bs).char? = none := by
  induction more generalizing value size low high bs with
  | zero => exact absurd h (Nat.lt_irrefl size)
  | succ more ih =>
    cases bs with
    | nil => rfl
    | cons x xs =>
      by_cases hx : low ≤ x.toNat ∧ x.toNat ≤ high
      · rw [extend_succ hx] at h ⊢
        exact ih (by omega)
      · rw [extend_stop hx]

section
variable {b : UInt8} {bs : List UInt8} {l : Lead}

/-- what was broken off is the first part of a character -/
theorem part_of_broken (hl : Lead.of? b = some l) (h : (front (b :: bs)).size < l.more + 1) :
    ∃ c, (b :: bs).take (front (b :: bs)).size <+: utf8EncodeChar c ∧
      (b :: bs).take (front (b :: bs)).size ≠ utf8EncodeChar c := by
  have hpos := front_size_pos b bs
  obtain ⟨j, hj⟩ : ∃ j, (front (b :: bs)).size = 1 + j := ⟨(front (b :: bs)).size - 1, by omega⟩
  have hsize := hj
  rw [front_of_lead hl] at hsize
  obtain ⟨ds, hds⟩ := extend_completes (Lead.low_le hl).1 (Lead.low_le hl).2 hsize
  rw [← front_of_lead hl, Nat.add_comm] at hds
  obtain ⟨c, -, hwritten⟩ := encode_front hl hds
  refine ⟨c, ?_, fun heq => ?_⟩
  · rw [hwritten, hj, Nat.add_comm, List.take_succ_cons, List.prefix_take_iff]
    refine ⟨⟨ds, rfl⟩, ?_⟩
    rw [List.length_cons, List.length_take]
    omega
  · have hle := fits_front (b :: (bs.take j ++ ds))
    have hlen := congrArg List.length (heq.trans hwritten)
    rw [List.length_take, List.length_take] at hlen
    omega

/-- with the byte after it, it begins none -/
theorem not_begins_of_broken {x : UInt8} (hl : Lead.of? b = some l)
    (h : (front (b :: bs)).size < l.more + 1)
    (hx : ((b :: bs).drop (front (b :: bs)).size).head? = some x) :
    ¬ Begins ((b :: bs).take (front (b :: bs)).size ++ [x]) := by
  have hpos := front_size_pos b bs
  obtain ⟨j, hj⟩ : ∃ j, (front (b :: bs)).size = j + 1 := ⟨(front (b :: bs)).size - 1, by omega⟩
  rintro ⟨c, t, ht⟩
  rw [hj, List.drop_succ_cons] at hx
  rw [hj, List.take_succ_cons] at ht
  obtain ⟨ys, hys⟩ := List.head?_eq_some_iff.1 hx
  have hlen : (bs.take j).length = j := by
    have := fits_front (b :: bs)
    rw [List.length_cons] at this
    rw [List.length_take]
    omega
  have hbs : bs = bs.take j ++ x :: ys := by rw [← hys, List.take_append_drop]
  -- a whole character that begins so would be stopped at the same byte
  have hfront := undoes_front c []
  rw [List.append_nil, ← ht, List.append_assoc, List.cons_append] at hfront
  have hstop : (front (b :: (bs.take j ++ ([x] ++ t)))).size = 1 + j := by
    have hsize : (front (b :: (bs.take j ++ x :: ys))).size = 1 + (bs.take j).length := by
      rw [← hbs, hlen, hj, Nat.add_comm]
    rw [front_of_lead hl] at hsize ⊢
    rw [List.singleton_append, extend_stops (by omega) hsize t, hlen]
  have hwhole := congrArg Front.size hfront
  rw [hstop] at hwhole
  dsimp only at hwhole
  rw [List.length_cons, List.length_append, hlen, List.length_append,
    List.length_singleton] at hwhole
  omega

end

/-! ## what a front takes is a piece -/

theorem not_begins_of_stray {b : UInt8} (h : Lead.of? b = none) : ¬ Begins [b] := by
  rintro ⟨c, t, ht⟩
  have hfront := undoes_front c []
  rw [← ht, List.append_nil, List.singleton_append, front, h] at hfront
  cases hfront

theorem piece_front (b : UInt8) (bs : List UInt8) :
    Piece ((b :: bs).take (front (b :: bs)).size) ((b :: bs).drop (front (b :: bs)).size)
      (front (b :: bs)).char? := by
  cases hl : Lead.of? b with
  | none =>
    have hfront : front (b :: bs) = ⟨none, 1⟩ := by rw [front, hl]
    rw [hfront]
    exact Piece.stray bs (not_begins_of_stray hl)
  | some l =>
    have hle : (front (b :: bs)).size ≤ l.more + 1 := by
      have := size_extend_le l.bits 1 l.low l.high l.more bs
      rw [front_of_lead hl]
      omega
    by_cases hfull : (front (b :: bs)).size = l.more + 1
    · obtain ⟨c, hc, hwritten⟩ := encode_front hl hfull
      rw [← hfull] at hwritten
      rw [← hwritten, hc]
      exact Piece.whole _ _
    · have hbroken : (front (b :: bs)).size < l.more + 1 := by omega
      have hchar : (front (b :: bs)).char? = none := by
        rw [front_of_lead hl] at hbroken ⊢
        exact char_of_broken (by omega)
      have hne : (b :: bs).take (front (b :: bs)).size ≠ [] := fun h => by
        have hpos := front_size_pos b bs
        obtain h | h := List.take_eq_nil_iff.1 h
        · omega
        · cases h
      obtain ⟨c, hpart, hshort⟩ := part_of_broken hl hbroken
      rw [hchar]
      exact Piece.broken hne hpart hshort fun x => not_begins_of_broken hl hbroken

theorem cuts_front : Decode.Cuts front := by
  intro p rest o hp
  obtain ⟨b, bs, rfl⟩ := List.exists_cons_of_ne_nil hp.ne_nil
  obtain ⟨heq, -, hchar⟩ := hp.unique (piece_front b (bs ++ rest)) (List.take_append_drop _ _).symm
  have hsize := congrArg List.length heq
  rw [List.length_take, Nat.min_eq_left (fits_front _)] at hsize
  rw [hchar, hsize]
  rfl

end Lookahead.Utf8
