import Lookahead.Proofs.Reader.Steps
import Lookahead.Reader.Cursor

/-!
# Operations applied to a cursor

What the programs of a cursor do, told without running them.  Looking moves `pulled` on, reading
moves the position with it, and a text is compared as the reader does it, one character after the
other, although the cursor says at once how far the comparison goes.

* `looked`, `advanced`   the cursor after looking ahead and after reading;
* `atText_eq_spells`     a comparison as a whole and character by character;
* `Valid`                what holds of a cursor between two operations.
-/

namespace Lookahead.Cursor

variable (c : Cursor)

/-! ## pieces of the text -/

def piece (i j : Nat) : List Char := (c.input.drop i).take (j - i)

theorem piece_self (i : Nat) : c.piece i i = [] := by
  rw [piece, Nat.sub_self, List.take_zero]

theorem piece_append {i j k : Nat} (hij : i ≤ j) (hjk : j ≤ k) :
    c.piece i j ++ c.piece j k = c.piece i k := by
  have hk : k - i = (j - i) + (k - j) := by omega
  have hj : c.input.drop j = (c.input.drop i).drop (j - i) := by
    rw [List.drop_drop, Nat.add_sub_of_le hij]
  unfold piece
  rw [hk, hj, List.take_add]

theorem length_piece {i j : Nat} (h : j ≤ c.input.length) : (c.piece i j).length = j - i := by
  rw [piece, List.length_take, List.length_drop]
  omega

theorem drop_piece {i j k : Nat} (hij : i ≤ j) : (c.piece i k).drop (j - i) = c.piece j k := by
  unfold piece
  rw [List.drop_take, List.drop_drop, Nat.add_sub_of_le hij, Nat.sub_sub, Nat.add_sub_of_le hij]

theorem take_piece {i j k : Nat} (hjk : j ≤ k) : (c.piece i k).take (j - i) = c.piece i j := by
  unfold piece
  rw [List.take_take, Nat.min_eq_left (Nat.sub_le_sub_right hjk i)]

/-! ## looking and reading -/

/-- `n` characters were looked at, as far as there are so many -/
def looked (n : Nat) : Cursor :=
  { c with pulled := max c.pulled (c.position + min n c.ahead.length) }

/-- `n` characters were read, as far as there are so many -/
def advanced (n : Nat) : Cursor :=
  { c.looked n with position := c.position + min n c.ahead.length }

theorem ahead_looked (n : Nat) : (c.looked n).ahead = c.ahead := rfl

theorem capacity_looked (n : Nat) : (c.looked n).capacity = c.capacity := rfl

theorem looked_of_le {n : Nat} (h : c.position + min n c.ahead.length ≤ c.pulled) :
    c.looked n = c := by
  rw [looked, Nat.max_eq_left h]

theorem looked_zero (h : c.position ≤ c.pulled) : c.looked 0 = c :=
  c.looked_of_le (by rwa [Nat.zero_min, Nat.add_zero])

theorem looked_looked (m n : Nat) : (c.looked m).looked n = c.looked (max m n) := by
  have hmax : max (max c.pulled (c.position + min m c.ahead.length))
      (c.position + min n c.ahead.length) =
      max c.pulled (c.position + min (max m n) c.ahead.length) := by omega
  exact congrArg (fun p => ({ c with pulled := p } : Cursor)) hmax

theorem fill_apply (n : Nat) :
    fill n c =
      if c.capacity < n then .error (.lookahead n c.capacity) c else .ok () (c.looked n) := by
  unfold fill
  rw [bind_apply, get_apply]
  by_cases h : c.capacity < n
  · simp only [if_pos h]
    rfl
  · simp only [if_neg h]
    rfl

theorem advance_apply (n : Nat) : advance n c = .ok (c.ahead.take n) (c.advanced n) := by
  have hlen : (c.ahead.take n).length = min n c.ahead.length := List.length_take
  show EStateM.Result.ok _ { c.looked n with position := c.position + (c.ahead.take n).length } = _
  rw [hlen]
  rfl

theorem peekNth_apply (hmax : c.capacity < maxCount) (n : Nat) :
    peekNth n c =
      if c.capacity ≤ n then .error (.lookahead (min (n + 1) maxCount) c.capacity) c
      else .ok c.ahead[n]? (c.looked (n + 1)) := by
  unfold peekNth
  rw [bind_apply, fill_apply]
  by_cases h : c.capacity ≤ n
  · rw [if_pos (by omega), if_pos h]
  · have hn : min (n + 1) maxCount = n + 1 := by omega
    rw [if_neg (by omega), if_neg h, hn]
    rfl

/-! ## marking and going back -/

theorem setMark_apply (limit : Nat) :
    setMark limit c =
      if c.capacity < limit then .error (.buffer (.markLimit limit c.capacity)) c
      else .ok () { c with mark := some c.position } := by
  rw [setMark, bind_apply, get_apply]
  by_cases h : c.capacity < limit
  · simp only [if_pos h]
    rfl
  · simp only [if_neg h]
    rfl

variable {c}

theorem reset_unmarked (hm : c.mark = none) :
    reset c = .error (.buffer .invalidMark) c := by
  rw [reset, bind_apply, get_apply]
  simp only [hm]
  rfl

theorem reset_lost {m : Nat} (hm : c.mark = some m) (hlost : c.capacity < c.pulled - m) :
    reset c = .error (.buffer .invalidMark) c := by
  rw [reset, bind_apply, get_apply]
  simp only [hm, if_pos hlost]
  rfl

theorem reset_marked {m : Nat} (hm : c.mark = some m) (hroom : ¬ c.capacity < c.pulled - m) :
    reset c = .ok () { c with position := m } := by
  rw [reset, bind_apply, get_apply]
  simp only [hm, if_neg hroom]
  rfl

variable (c)

/-! ## comparing a text -/

def atNth (n : Nat) (ch : Char) : Move Bool := return (← peekNth n) == some ch

/-- the characters from the `n`-th one ahead on spell a text, one looked at after the other -/
def spells (n : Nat) : List Char → Move Bool
  | [] => pure true
  | ch :: s => do
    if ← atNth n ch then spells (n + 1) s else pure false

variable {c}

theorem common_nil (l : List Char) : common [] l = 0 := by
  cases l <;> rfl

theorem common_cons_of_getElem? {l : List Char} {n : Nat} {ch : Char} (h : l[n]? = some ch)
    (s : List Char) : common (ch :: s) (l.drop n) = common s (l.drop (n + 1)) + 1 := by
  obtain ⟨hn, hch⟩ := List.getElem?_eq_some_iff.1 h
  rw [List.drop_eq_getElem_cons hn, hch, common, if_pos rfl]

theorem common_cons_of_ne {l : List Char} {n : Nat} {ch : Char} (h : l[n]? ≠ some ch)
    (s : List Char) : common (ch :: s) (l.drop n) = 0 := by
  by_cases hn : n < l.length
  · rw [List.drop_eq_getElem_cons hn, common, if_neg]
    intro e
    exact h (List.getElem?_eq_some_iff.2 ⟨hn, e.symm⟩)
  · rw [List.drop_eq_nil_of_le (Nat.le_of_not_lt hn)]
    rfl

/-- how far a comparison goes that begins at the `n`-th character ahead, and what comes of it -/
theorem spells_apply (hmax : c.capacity < maxCount) (s : List Char) {n : Nat}
    (hn : n ≤ c.capacity) :
    spells n s (c.looked n) =
      if n + common s (c.ahead.drop n) < min (n + s.length) c.capacity then
        .ok false (c.looked (n + common s (c.ahead.drop n) + 1))
      else if c.capacity < n + s.length then
        .error (.lookahead (c.capacity + 1) c.capacity) (c.looked c.capacity)
      else .ok true (c.looked (n + s.length)) := by
  induction s generalizing n with
  | nil =>
    rw [common_nil, List.length_nil, Nat.add_zero, if_neg (by omega), if_neg (by omega)]
    rfl
  | cons ch s ih =>
    have hpeek := peekNth_apply (c.looked n) hmax n
    rw [capacity_looked, ahead_looked, looked_looked, Nat.max_eq_right (Nat.le_succ n)] at hpeek
    rw [spells, bind_apply, atNth, bind_apply, hpeek]
    by_cases hcap : c.capacity ≤ n
    · have hreq : min (n + 1) maxCount = c.capacity + 1 := by omega
      have hnc : n = c.capacity := by omega
      rw [if_pos hcap, List.length_cons, if_neg (by omega), if_pos (by omega), hreq, hnc]
    · rw [if_neg hcap]
      by_cases hch : c.ahead[n]? = some ch
      · have hih := ih (n := n + 1) (by omega)
        have hlen : n + (ch :: s).length = n + 1 + s.length := by
          rw [List.length_cons]
          omega
        have halike : n + common (ch :: s) (c.ahead.drop n) =
            n + 1 + common s (c.ahead.drop (n + 1)) := by
          rw [common_cons_of_getElem? hch]
          omega
        rw [hlen, halike, ← hih]
        show (if (c.ahead[n]? == some ch) = true then _ else _ : Move Bool) _ = _
        rw [if_pos (by simpa using hch)]
      · rw [common_cons_of_ne hch, List.length_cons, if_pos (by omega), Nat.add_zero]
        show (if (c.ahead[n]? == some ch) = true then _ else _ : Move Bool) _ = _
        rw [if_neg (by simpa using hch)]
        rfl

theorem atText_eq_spells (hmax : c.capacity < maxCount) (hpulled : c.position ≤ c.pulled)
    {s : List Char} (hs : s ≠ []) : atText s c = spells 0 s c := by
  have hspells := spells_apply (c := c) hmax s (Nat.zero_le _)
  rw [c.looked_zero hpulled] at hspells
  simp only [Nat.zero_add, List.drop_zero] at hspells
  rw [hspells]
  have hempty : ¬ s.isEmpty = true := by simpa using hs
  unfold atText
  rw [bind_apply, get_apply]
  simp only [if_neg hempty]
  by_cases halike : common s c.ahead < min s.length c.capacity
  · rw [if_pos halike, if_pos halike]
    rfl
  · rw [if_neg halike, if_neg halike]
    by_cases hlong : c.capacity < s.length
    · rw [if_pos hlong, if_pos hlong, Nat.min_eq_right (by omega)]
      rfl
    · rw [if_neg hlong, if_neg hlong, Nat.min_eq_left (by omega)]
      rfl

/-! ## cursors in order -/

/-- what holds of a cursor between two operations; its capacity is one that a count can say -/
structure Valid (c : Cursor) : Prop where
  pos : 0 < c.capacity
  small : c.capacity < maxCount
  position_le : c.position ≤ c.pulled
  pulled_le : c.pulled ≤ c.input.length
  mark_le : ∀ m, c.mark = some m → m ≤ c.position
  /-- a closed cursor holds nothing and goes back nowhere -/
  shut : c.closed = true → c.position = c.pulled ∧ ∀ m, c.mark = some m → m = c.position

theorem Valid.buffered_of_closed (h : c.Valid) (hc : c.closed = true) : c.buffered = 0 := by
  rw [buffered, (h.shut hc).1, Nat.sub_self]

theorem length_ahead (hopen : c.closed = false) :
    c.ahead.length = c.input.length - c.position := by
  rw [ahead, if_neg (by simp [hopen]), List.length_drop]

theorem ahead_of_closed (hc : c.closed = true) : c.ahead = [] := if_pos hc

theorem Valid.buffered_le_ahead (h : c.Valid) : c.buffered ≤ c.ahead.length := by
  cases hc : c.closed with
  | false =>
    rw [length_ahead hc]
    exact Nat.sub_le_sub_right h.pulled_le c.position
  | true =>
    rw [h.buffered_of_closed hc]
    exact Nat.zero_le _

/-! ## reading on -/

theorem ahead_advanced (c : Cursor) (n : Nat) : (c.advanced n).ahead = c.ahead.drop n := by
  cases hc : c.closed with
  | true =>
    have hc' : (c.advanced n).closed = true := hc
    rw [ahead_of_closed hc, ahead_of_closed hc', List.drop_nil]
  | false =>
    have hc' : (c.advanced n).closed = false := hc
    have hdrop : c.ahead = c.input.drop c.position := if_neg (by simp [hc])
    rw [ahead, if_neg (by simp [hc'])]
    show c.input.drop (c.position + min n c.ahead.length) = _
    rw [← List.drop_drop, ← hdrop]
    exact (List.drop_eq_drop_min).symm

theorem advanced_zero (h : c.Valid) : c.advanced 0 = c := by
  have hpulled : max c.pulled (c.position + min 0 c.ahead.length) = c.pulled := by
    have := h.position_le
    omega
  rw [advanced, looked, hpulled, Nat.zero_min, Nat.add_zero]

theorem advanced_of_nil (h : c.Valid) (hnil : c.ahead = []) (n : Nat) : c.advanced n = c := by
  have hmin : min n c.ahead.length = min 0 c.ahead.length := by
    rw [hnil, List.length_nil, Nat.min_zero, Nat.min_zero]
  have hzero := advanced_zero h
  rw [advanced, looked, ← hmin] at hzero
  exact hzero

theorem advanced_advanced (c : Cursor) (m n : Nat) :
    (c.advanced m).advanced n = c.advanced (m + n) := by
  have hlen : (c.advanced m).ahead.length = c.ahead.length - m := by
    rw [ahead_advanced, List.length_drop]
  have hposition : c.position + min m c.ahead.length + min n (c.ahead.length - m) =
      c.position + min (m + n) c.ahead.length := by omega
  have hpulled : max (max c.pulled (c.position + min m c.ahead.length))
      (c.position + min (m + n) c.ahead.length) =
      max c.pulled (c.position + min (m + n) c.ahead.length) := by omega
  have hleft : (c.advanced m).advanced n =
      { c with
        position := c.position + min m c.ahead.length + min n (c.ahead.length - m)
        pulled := max (max c.pulled (c.position + min m c.ahead.length))
          (c.position + min m c.ahead.length + min n (c.ahead.length - m)) } := by
    rw [advanced, looked, hlen]
    rfl
  rw [hleft, hposition, hpulled]
  rfl

theorem advanced_looked (c : Cursor) (n : Nat) : (c.looked n).advanced n = c.advanced n := by
  have hpulled : max (max c.pulled (c.position + min n c.ahead.length))
      (c.position + min n c.ahead.length) = max c.pulled (c.position + min n c.ahead.length) := by
    omega
  exact congrArg (fun q => ({ c.advanced n with pulled := q } : Cursor)) hpulled

theorem advanced_of_le (h : c.Valid) {n : Nat} (hn : n ≤ c.buffered) :
    c.advanced n = { c with position := c.position + n } := by
  have hmin : min n c.ahead.length = n := by
    have := h.buffered_le_ahead
    omega
  have hpulled : max c.pulled (c.position + n) = c.pulled := by
    have := h.position_le
    unfold buffered at hn
    omega
  rw [advanced, looked, hmin, hpulled]

/-! ## reading what a test finds -/

theorem accepting_apply (test : Move Bool) (n : Nat) (c : Cursor) :
    accepting test n c =
      match test c with
      | .ok true d => .ok true (d.advanced n)
      | .ok false d => .ok false d
      | .error e d => .error e d := by
  unfold accepting
  rw [bind_apply]
  cases test c with
  | error e d => rfl
  | ok b d =>
    cases b with
    | false => rfl
    | true =>
      show (advance n >>= fun _ => pure true : Move Bool) d = _
      rw [bind_apply, advance_apply]
      rfl

theorem buffered_looked (c : Cursor) (n : Nat) :
    c.buffered ≤ (c.looked n).buffered ∧ min n c.ahead.length ≤ (c.looked n).buffered := by
  unfold buffered looked
  simp only
  omega

end Lookahead.Cursor
