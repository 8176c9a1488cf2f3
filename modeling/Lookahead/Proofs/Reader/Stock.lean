import Lookahead.Proofs.Reader.Recovery

/-!
# What is held when a program ends

A reader lets go of characters that a test has found, and a test has found them only where they are
held.  So it has to be said of every program how many characters are held when it ends, by the value
it gives.  Together with the ways in which it may fail this is a triple, and the triples of a
program follow from those of its parts.

* `Stocked`   a well-formed reader that holds so many characters at least;
* `Leaves`    what a program leaves, by the value it gives, and how it may fail;
* `Looking`   the failures of looking ahead: of the source, or of looking too far;
* `leaves_peekNth`, `leaves_atText`, `leaves_skipTrivia`   the triples of the programs.
-/

namespace Lookahead

open Scan (step)

namespace Reader

variable {σ ε δ α β : Type} {n i j k : Nat}

/-- well-formed, with `n` slots, and holding `k` characters at least -/
structure Stocked (n k : Nat) (r : Reader σ) : Prop where
  valid : r.buffer.Valid
  capacity : r.capacity = n
  held : k ≤ r.buffered

/-- started where `k` characters are held, the program gives some `a` and leaves `left a` characters
held at least, or it fails in a way of `E` -/
def Leaves (n k : Nat) (x : EStateM δ (Reader σ) α) (left : α → Nat) (E : δ → Prop) : Prop :=
  ∀ r, Stocked n k r → match x r with
    | .ok a s => Stocked n (left a) s
    | .error e _ => E e

/-- looking ahead fails where the source does, and otherwise only where more characters are asked
for than there are slots, which `far` must allow -/
inductive Looking (far : Prop) (n : Nat) : ReadError ε → Prop where
  | source (e : ε) : Looking far n (.source e)
  | lookahead {requested : Nat} (allowed : far) (more : n < requested) :
      Looking far n (.lookahead requested n)

theorem Looking.weaken {far : Prop} {e : ReadError ε} (h : Looking False n e) :
    Looking far n e := by
  cases h with
  | source e => exact .source e
  | lookahead hno _ => exact hno.elim

/-- a scan fails in a way of `E`, or it runs out of rounds -/
inductive Halt.Of (E : ReadError ε → Prop) : Halt ε → Prop where
  | error {e : ReadError ε} (h : E e) : Of E (.error e)
  | limit : Of E .limit

/-! ## putting programs together -/

namespace Stocked
variable {r : Reader σ}

theorem mono (h : Stocked n k r) (hj : j ≤ k) : Stocked n j r :=
  { h with held := Nat.le_trans hj h.held }

theorem consume (h : Stocked n k r) (hj : j ≤ r.buffered) :
    Stocked n 0 { r with buffer := r.buffer.consume j } :=
  ⟨h.valid.consume hj, h.capacity, Nat.zero_le _⟩

theorem remove (h : Stocked n k r) (he : ¬ r.buffer.isEmpty = true) :
    Stocked n 0 { r with buffer := r.buffer.consume 1 } :=
  h.consume (Nat.pos_of_ne_zero (mt Buffer.isEmpty_iff.2 he))

end Stocked

section
variable {x : EStateM δ (Reader σ) α} {left : α → Nat} {E : δ → Prop}

theorem leaves_pure (a : α) (h : left a ≤ k) :
    Leaves n k (pure a : EStateM δ (Reader σ) α) left E := fun _ hr => hr.mono h

theorem Leaves.bind {f : α → EStateM δ (Reader σ) β} {left' : β → Nat} (hx : Leaves n k x left E)
    (hf : ∀ a, Leaves n (left a) (f a) left' E) : Leaves n k (x >>= f) left' E := by
  intro r h
  have hr := hx r h
  rw [bind_apply]
  cases hres : x r with
  | ok a s =>
    rw [hres] at hr
    exact hf a s hr
  | error e s =>
    rw [hres] at hr
    exact hr

theorem Leaves.mono {left' : α → Nat} (hx : Leaves n k x left E) (hk : k ≤ j)
    (hleft : ∀ a, left' a ≤ left a) : Leaves n j x left' E := by
  intro r h
  have hr := hx r (h.mono hk)
  cases hres : x r with
  | ok a s =>
    rw [hres] at hr
    exact hr.mono (hleft a)
  | error e s =>
    rw [hres] at hr
    exact hr

theorem Leaves.map (hx : Leaves n k x (fun _ => 0) E) (f : α → β) :
    Leaves n k (f <$> x) (fun _ => 0) E :=
  hx.bind fun a => leaves_pure (f a) (Nat.le_refl 0)

end

theorem Leaves.step {x : Step σ ε α} {left : α → Nat} {E : ReadError ε → Prop}
    (hx : Leaves n k x left E) : Leaves n k (step x) left (Halt.Of E) := by
  intro r h
  have hr := hx r h
  rw [Scan.step_apply]
  cases hres : x r with
  | ok a s =>
    rw [hres] at hr
    exact hr
  | error e s =>
    rw [hres] at hr
    exact .error hr

theorem leaves_iterate {E : ReadError ε → Prop} {body : α → Scan σ ε (Scan.Round α β)}
    (hbody : ∀ a, Leaves n 0 (body a) (fun _ => 0) (Halt.Of E)) (limit : Nat) (a : α) :
    Leaves n 0 (Scan.iterate body limit a) (fun _ => 0) (Halt.Of E) := by
  induction limit generalizing a with
  | zero => exact fun _ _ => .limit
  | succ limit ih =>
    refine (hbody a).bind fun o => ?_
    cases o with
    | again a => exact ih a
    | done b => exact leaves_pure b (Nat.le_refl 0)

/-! ## single things -/

theorem leaves_advance (E : ReadError ε → Prop) :
    Leaves n j (onBuffer (Buffer.advance j) : Step σ ε Unit) (fun _ => 0) E := by
  intro r h
  rw [advance_of_le h.held]
  exact h.consume h.held

theorem leaves_onSource (x : EStateM ε σ α) (far : Prop) :
    Leaves n k (onSource x : Step σ ε α) (fun _ => k) (Looking far n) := by
  intro r h
  unfold onSource
  cases x r.source with
  | ok a s => exact ⟨h.valid, h.capacity, h.held⟩
  | error e s => exact .source e

section
variable [Source σ ε] {far : Prop}

/-- there is room in the buffer for all that is pulled, so that only the source can fail -/
theorem pullMore_error {r s : Reader σ} (hroom : r.buffered + k ≤ r.capacity) {e : ReadError ε}
    (h : pullMore k r = .error e s) : ∃ d, e = .source d := by
  induction k generalizing r with
  | zero => cases h
  | succ k ih =>
    rw [pullMore_succ] at h
    cases hs : Source.readChar r.source with
    | error d t =>
      rw [hs] at h
      cases h
      exact ⟨d, rfl⟩
    | ok o t =>
      rw [hs] at h
      cases o with
      | none => cases h
      | some c =>
        have hlt : r.buffer.count < r.buffer.capacity := by
          have : r.buffer.count + (k + 1) ≤ r.buffer.capacity := hroom
          omega
        obtain ⟨b, hb, hcount, hcap⟩ := Buffer.add_of_lt c hlt
        simp only [hb] at h
        refine ih ?_ h
        show b.count + k ≤ b.capacity
        have : r.buffer.count + (k + 1) ≤ r.buffer.capacity := hroom
        omega

theorem leaves_fill (hfar : n < j → far) :
    Leaves n k (fill j : Step σ ε Unit) (fun _ => k) (Looking far n) := by
  intro r h
  cases hres : (fill j : Step σ ε Unit) r with
  | ok _ s =>
    obtain ⟨hvalid, hfurther, -, -⟩ := fill_ok h.valid hres
    exact ⟨hvalid, hfurther.capacity.trans h.capacity, Nat.le_trans h.held hfurther.buffered_le⟩
  | error e s =>
    rw [fill_eq, h.capacity] at hres
    by_cases hj : n < j
    · rw [if_pos hj] at hres
      cases hres
      exact .lookahead (hfar hj) hj
    · rw [if_neg hj] at hres
      by_cases hdry : r.isDry = true
      · rw [if_pos hdry] at hres
        cases hres
      · rw [if_neg hdry] at hres
        have hroom : r.buffered + (j - r.buffered) ≤ r.capacity := by
          have : r.buffered ≤ r.capacity := h.valid.count_le
          have := h.capacity
          omega
        obtain ⟨d, rfl⟩ := pullMore_error hroom hres
        exact .source d

theorem leaves_peekNth (hfar : n ≤ i → far) :
    Leaves n k (peekNth i : Step σ ε (Option Char)) (fun o => max k (o.elim 0 fun _ => i + 1))
      (Looking far n) := by
  have hfill : Leaves n k (fill (min (i + 1) maxCount) : Step σ ε Unit) (fun _ => k)
      (Looking far n) := leaves_fill fun hlt => hfar (by omega)
  intro r h
  have hr := hfill r h
  rw [peekNth_eq]
  cases hres : fill (min (i + 1) maxCount) r with
  | error e s =>
    rw [hres] at hr
    exact hr
  | ok _ s =>
    rw [hres] at hr
    refine { hr with held := Nat.max_le.2 ⟨hr.held, ?_⟩ }
    cases hseen : s.buffer.peekAt i with
    | none => exact Nat.zero_le _
    | some c =>
      rw [Buffer.peekAt_eq_getElem?] at hseen
      have hlt := (List.getElem?_eq_some_iff.1 hseen).1
      rwa [Buffer.length_toList] at hlt

variable (hn : 0 < n)
include hn

theorem leaves_peek : Leaves n 0 (peek : Step σ ε (Option Char))
    (fun o => o.elim 0 fun _ => 1) (Looking far n) :=
  (leaves_peekNth (i := 0) (k := 0) fun hle => absurd hle (Nat.not_le_of_lt hn)).mono
    (Nat.le_refl 0) fun _ => Nat.le_max_right _ _

theorem leaves_takeBuffered :
    Leaves n 0 (takeBuffered : Step σ ε (Option Char)) (fun _ => 0) (Looking False n) := by
  have hfill : Leaves n 0 (fill 1 : Step σ ε Unit) (fun _ => 0) (Looking False n) :=
    leaves_fill fun hlt => absurd hlt (Nat.not_lt_of_le hn)
  intro r h
  have hr := hfill r h
  rw [takeBuffered_eq]
  cases hres : fill 1 r with
  | error e s =>
    rw [hres] at hr
    exact hr
  | ok _ s =>
    rw [hres] at hr
    by_cases he : s.buffer.isEmpty = true
    · simp only [if_pos he]
      exact hr
    · simp only [if_neg he]
      exact hr.remove he

omit hn in
theorem leaves_pull :
    Leaves n 0 (pull : Step σ ε (Option Char)) (fun _ => 0) (Looking False n) := by
  intro r h
  rw [pull_eq]
  by_cases hdry : r.isDry = true
  · rw [if_pos hdry]
    exact h
  · rw [if_neg hdry]
    cases Source.readChar r.source with
    | error e s => exact .source e
    | ok o s => cases o <;> exact ⟨h.valid, h.capacity, h.held⟩

theorem leaves_read :
    Leaves n 0 (read : Step σ ε (Option Char)) (fun _ => 0) (Looking False n) := by
  intro r h
  rw [read_eq]
  by_cases he : r.buffer.isEmpty = true
  · rw [if_pos he]
    by_cases hm : r.buffer.isMarked = true
    · rw [if_pos hm]
      exact leaves_takeBuffered hn r h
    · rw [if_neg hm]
      exact leaves_pull r h
  · rw [if_neg he]
    exact h.remove he

end

/-! ## tests -/

section
variable [Source σ ε] {far : Prop}

theorem leaves_atNth (hfar : n ≤ i → far) (c : Char) :
    Leaves n k (atNth i c : Step σ ε Bool) (fun b => if b then i + 1 else 0) (Looking far n) := by
  refine (leaves_peekNth hfar).bind fun o => leaves_pure (o == some c) ?_
  cases o with
  | none => exact Nat.zero_le _
  | some d =>
    refine Nat.le_trans ?_ (Nat.le_max_right _ _)
    by_cases hd : (some d == some c) = true
    · rw [if_pos hd]
      exact Nat.le_refl _
    · rw [if_neg hd]
      exact Nat.zero_le _

theorem leaves_spells {cs : List Char} (hfar : n < i + cs.length → far) :
    Leaves n i (spells i cs : Step σ ε Bool) (fun b => if b then i + cs.length else 0)
      (Looking far n) := by
  -- on what is still to be compared: what was found to be alike before it is held
  induction cs generalizing i with
  | nil => exact leaves_pure true (Nat.le_refl i)
  | cons c cs ih =>
    rw [List.length_cons] at hfar ⊢
    refine (leaves_atNth (fun hle => hfar (by omega)) c).bind fun b => ?_
    cases b with
    | false => exact leaves_pure false (Nat.zero_le _)
    | true =>
      refine (ih (i := i + 1) fun hlt => hfar (by omega)).mono (Nat.le_refl _) fun b => ?_
      cases b with
      | false => exact Nat.zero_le _
      | true =>
        show i + (cs.length + 1) ≤ i + 1 + cs.length
        omega

variable (hn : 0 < n)
include hn

theorem leaves_atEnd : Leaves n 0 (atEnd : Step σ ε Bool) (fun _ => 0) (Looking far n) :=
  (leaves_peek hn).bind fun o => leaves_pure o.isNone (Nat.zero_le _)

theorem leaves_atText {cs : List Char} (hfar : n < cs.length → far) :
    Leaves n 0 (atText cs : Step σ ε Bool) (fun b => if b then cs.length else 0)
      (Looking far n) := by
  unfold Reader.atText
  by_cases hcs : cs.isEmpty = true
  · rw [if_pos hcs]
    refine (leaves_peek hn).bind fun o => leaves_pure o.isSome ?_
    rw [List.isEmpty_iff.1 hcs, List.length_nil, ite_self]
    exact Nat.zero_le _
  · rw [if_neg hcs]
    have hspells : Leaves n 0 (spells 0 cs : Step σ ε Bool)
        (fun b => if b then 0 + cs.length else 0) (Looking far n) :=
      leaves_spells fun hlt => hfar (by omega)
    rwa [Nat.zero_add] at hspells

variable (rules : Rules)

/-- a word is held to its end also when the character after it was looked at -/
theorem leaves_atWord {w : List Char} (hfar : n ≤ w.length → far) :
    Leaves n 0 (atWord rules w : Step σ ε Bool) (fun b => if b then w.length else 0)
      (Looking far n) := by
  refine (leaves_atText hn fun hlt => hfar (Nat.le_of_lt hlt)).bind fun b => ?_
  cases b with
  | false => exact leaves_pure false (Nat.zero_le _)
  | true =>
    refine (leaves_peekNth hfar).bind fun o => ?_
    have hheld : ∀ b, (if b = true then w.length else 0) ≤
        max w.length (o.elim 0 fun _ => w.length + 1) := by
      intro b
      refine Nat.le_trans ?_ (Nat.le_max_left _ _)
      cases b with
      | false => exact Nat.zero_le _
      | true => exact Nat.le_refl _
    cases o with
    | none => exact leaves_pure true (hheld true)
    | some c => exact leaves_pure (!rules.isNameChar c) (hheld _)

theorem leaves_atComment (hfar : n < rules.commentStart.length → far) :
    Leaves n 0 (atComment rules : Step σ ε Bool)
      (fun b => if b then rules.commentStart.length else 0) (Looking far n) := by
  unfold Reader.atComment
  by_cases hs : rules.commentStart.isEmpty = true
  · rw [if_pos hs]
    exact leaves_pure false (Nat.le_refl 0)
  · rw [if_neg hs]
    exact leaves_atText hn hfar

theorem leaves_atLineEnd : Leaves n 0 (atLineEnd rules : Step σ ε Bool)
    (fun b => if b then 0 else 1) (Looking far n) := by
  refine (leaves_peek hn).bind fun o => ?_
  cases o with
  | none => exact leaves_pure true (Nat.le_refl 0)
  | some c =>
    refine leaves_pure (rules.isLineEnd c) ?_
    cases rules.isLineEnd c with
    | true => exact Nat.zero_le 1
    | false => exact Nat.le_refl 1

theorem leaves_atBlank : Leaves n 0 (atBlank rules : Step σ ε Bool)
    (fun b => if b then 1 else 0) (Looking far n) := by
  refine (leaves_peek hn).bind fun o => ?_
  cases o with
  | none => exact leaves_pure false (Nat.le_refl 0)
  | some c =>
    refine leaves_pure (rules.isBlank c) ?_
    cases rules.isBlank c with
    | true => exact Nat.le_refl 1
    | false => exact Nat.zero_le 1

end

/-! ## scans -/

theorem Leaves.accepting {test : Step σ ε Bool} {E : ReadError ε → Prop}
    (htest : Leaves n 0 test (fun b => if b then j else 0) E) :
    Leaves n 0 (accepting test j) (fun _ => 0) E := by
  refine htest.bind fun b => ?_
  cases b with
  | false => exact leaves_pure false (Nat.le_refl 0)
  | true => exact (leaves_advance E).bind fun _ => leaves_pure true (Nat.le_refl 0)

section
variable [Source σ ε] {far : Prop} (hn : 0 < n) (rules : Rules) (limit : Nat)
include hn

theorem leaves_skipLine : Leaves n 0 (skipLine rules limit : Scan σ ε Unit) (fun _ => 0)
    (Halt.Of (Looking far n)) := by
  refine leaves_iterate (fun _ => ?_) limit ()
  refine (leaves_atLineEnd hn rules).step.bind fun found => ?_
  cases found with
  | true => exact leaves_pure _ (Nat.le_refl 0)
  | false => exact (leaves_advance _).step.bind fun _ => leaves_pure _ (Nat.le_refl 0)

theorem leaves_skipBlanks : Leaves n 0 (skipBlanks rules limit : Scan σ ε Bool) (fun _ => 0)
    (Halt.Of (Looking far n)) := by
  refine leaves_iterate (fun found => ?_) limit false
  refine (leaves_atBlank hn rules).accepting.step.bind fun blank => ?_
  cases blank with
  | true => exact leaves_pure _ (Nat.le_refl 0)
  | false => exact leaves_pure _ (Nat.le_refl 0)

theorem leaves_skipComment (hfar : n < rules.commentStart.length → far) :
    Leaves n 0 (skipComment rules limit : Scan σ ε Bool) (fun _ => 0)
      (Halt.Of (Looking far n)) := by
  refine (leaves_atComment hn rules hfar).accepting.step.bind fun found => ?_
  cases found with
  | false => exact leaves_pure false (Nat.le_refl 0)
  | true => exact (leaves_skipLine hn rules limit).bind fun _ => leaves_pure true (Nat.le_refl 0)

theorem leaves_skipTrivia (hfar : n < rules.commentStart.length → far) :
    Leaves n 0 (skipTrivia rules limit : Scan σ ε Unit) (fun _ => 0)
      (Halt.Of (Looking far n)) := by
  refine leaves_iterate (fun _ => ?_) limit ()
  refine (leaves_skipBlanks hn rules limit).bind fun blanks => ?_
  exact (leaves_skipComment hn rules limit hfar).bind fun _ => leaves_pure _ (Nat.le_refl 0)

omit rules in
theorem leaves_rest : Leaves n 0 (rest limit : Scan σ ε (List Char)) (fun _ => 0)
    (Halt.Of (Looking False n)) := by
  refine leaves_iterate (fun taken => ?_) limit []
  refine (leaves_read hn).step.bind fun o => ?_
  cases o with
  | none => exact leaves_pure _ (Nat.le_refl 0)
  | some c => exact leaves_pure _ (Nat.le_refl 0)

end

end Reader

end Lookahead
