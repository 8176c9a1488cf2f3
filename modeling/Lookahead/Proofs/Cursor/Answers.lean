import Lookahead.Proofs.Cursor.Steps

/-!
# What lies ahead decides

What a cursor answers to an operation depends on the characters ahead and on the capacity alone,
and so does how far it reads.  Only going back needs to know more: where the mark is, and how far
anyone has looked.

* `sees`, `seesWord`   what a test answers, by a comparison of lists;
* `Op.answer`          what an operation answers, and how many characters it reads;
* `run_answers`        the cursor does so.
-/

namespace Lookahead

/-! ## tests as comparisons of lists -/

/-- the characters ahead begin with a text; refused where only the beginning of a longer text can
be compared, and is found -/
def sees (capacity : Nat) (ahead s : List Char) : Except (ReadError Empty) Bool :=
  if s = [] then .ok (!ahead.isEmpty)
  else if capacity < s.length ∧ s.take capacity <+: ahead then
    .error (.lookahead (capacity + 1) capacity)
  else .ok (s.isPrefixOf ahead)

/-- they begin with a word, after which no name goes on; refused where the character after the
word is too far ahead -/
def seesWord (rules : Rules) (capacity : Nat) (ahead w : List Char) :
    Except (ReadError Empty) Bool :=
  match sees capacity ahead w with
  | .error e => .error e
  | .ok false => .ok false
  | .ok true =>
    if w.length = capacity then .error (.lookahead (capacity + 1) capacity)
    else .ok (ahead[w.length]?.all fun c => !rules.isNameChar c)

def seesComment (rules : Rules) (capacity : Nat) (ahead : List Char) :
    Except (ReadError Empty) Bool :=
  if rules.commentStart = [] then .ok false else sees capacity ahead rules.commentStart

namespace Cursor

variable {c : Cursor}

theorem take_prefix_iff {s l : List Char} {k : Nat} (hk : k ≤ s.length) :
    s.take k <+: l ↔ k ≤ common s l := by
  induction s generalizing l k with
  | nil =>
    have hzero : k = 0 := Nat.le_zero.1 hk
    rw [hzero, List.take_zero]
    exact iff_of_true List.nil_prefix (Nat.zero_le _)
  | cons a s ih =>
    cases k with
    | zero =>
      rw [List.take_zero]
      exact iff_of_true List.nil_prefix (Nat.zero_le _)
    | succ k =>
      rw [List.take_succ_cons]
      cases l with
      | nil => simp [common]
      | cons b l =>
        rw [List.cons_prefix_cons, ih (Nat.le_of_succ_le_succ hk), common]
        by_cases hab : a = b
        · rw [if_pos hab]
          simp only [hab, true_and]
          omega
        · rw [if_neg hab]
          simp [hab]

theorem isPrefixOf_iff (s l : List Char) : s.isPrefixOf l = true ↔ s.length ≤ common s l := by
  rw [List.isPrefixOf_iff_prefix, ← take_prefix_iff (Nat.le_refl _), List.take_length]

/-! ## tests of a cursor -/

def result (o : Except (ReadError Empty) Bool) (c : Cursor) :
    EStateM.Result (ReadError Empty) Cursor Bool :=
  match o with
  | .ok b => .ok b c
  | .error e => .error e c

/-- a test only looks, and what it says it has found, `n` characters, it has looked at -/
def Finds (n : Nat) (c : Cursor) (test : Move Bool) (o : Except (ReadError Empty) Bool) : Prop :=
  ∃ k, test c = result o (c.looked k) ∧ (o = .ok true → n ≤ (c.looked k).buffered)

theorem peek_apply (hc : c.Valid) : peek c = .ok c.ahead.head? (c.looked 1) := by
  rw [peek, peekNth_apply c hc.small, if_neg (Nat.not_le_of_lt hc.pos), List.head?_eq_getElem?]

theorem finds_of_apply {n k : Nat} {test : Move Bool} {o : Except (ReadError Empty) Bool}
    (h : test c = result o (c.looked k)) (hk : o = .ok true → n ≤ min k c.ahead.length) :
    Finds n c test o :=
  ⟨k, h, fun ho => Nat.le_trans (hk ho) (c.buffered_looked k).2⟩

theorem atPeek_apply (hc : c.Valid) (f : Option Char → Bool) :
    (do return f (← peek) : Move Bool) c = result (.ok (f c.ahead.head?)) (c.looked 1) := by
  rw [bind_apply, peek_apply hc]
  rfl

theorem finds_peek (hc : c.Valid) (f : Option Char → Bool) (hf : f none = false) :
    Finds 1 c (do return f (← peek)) (.ok (f c.ahead.head?)) := by
  refine finds_of_apply (atPeek_apply hc f) fun hfound => ?_
  injection hfound with hfound
  cases hahead : c.ahead with
  | nil =>
    rw [hahead, List.head?_nil, hf] at hfound
    cases hfound
  | cons a l =>
    rw [List.length_cons]
    omega

/-! ## how far a comparison looks -/

/-- how many characters a comparison looks at: those that are alike and the next one -/
def compared (capacity : Nat) (ahead s : List Char) : Nat :=
  if s = [] then 1 else min (common s ahead + 1) (min s.length capacity)

/-- a word that was found is looked beyond by one character -/
def comparedWord (capacity : Nat) (ahead w : List Char) : Nat :=
  if w <+: ahead ∧ w.length < capacity then w.length + 1 else compared capacity ahead w

def comparedComment (rules : Rules) (capacity : Nat) (ahead : List Char) : Nat :=
  if rules.commentStart = [] then 0 else compared capacity ahead rules.commentStart

section
variable {capacity : Nat} {ahead s : List Char}

theorem compared_le (capacity : Nat) (ahead s : List Char) :
    compared capacity ahead s ≤ s.length + 1 := by
  unfold compared
  by_cases hs : s = []
  · rw [if_pos hs]
    omega
  · rw [if_neg hs]
    omega

theorem found_of_sees (h : sees capacity ahead s = .ok true) :
    s <+: ahead ∧ s.length ≤ capacity ∧ s.length ≤ compared capacity ahead s := by
  unfold sees at h
  unfold compared
  by_cases hs : s = []
  · rw [hs]
    exact ⟨List.nil_prefix, Nat.zero_le _, Nat.zero_le _⟩
  · rw [if_neg hs] at h ⊢
    by_cases hlong : capacity < s.length ∧ s.take capacity <+: ahead
    · rw [if_pos hlong] at h
      cases h
    · rw [if_neg hlong] at h
      injection h with h
      have hfront := List.isPrefixOf_iff_prefix.1 h
      have hle : s.length ≤ capacity := by
        refine Nat.le_of_not_lt fun hlt => hlong ⟨hlt, ?_⟩
        exact (List.take_prefix _ _).trans hfront
      have hcommon := (isPrefixOf_iff s ahead).1 h
      exact ⟨hfront, hle, by omega⟩

theorem sees_of_le (hs : s ≠ []) (hle : s.length ≤ capacity) :
    sees capacity ahead s = .ok (s.isPrefixOf ahead) := by
  rw [sees, if_neg hs, if_neg (by omega)]

theorem sees_of_front (hs : s ≠ []) (hfront : s <+: ahead) (hle : s.length ≤ capacity) :
    sees capacity ahead s = .ok true := by
  rw [sees_of_le hs hle, List.isPrefixOf_iff_prefix.2 hfront]

theorem comparedWord_eq (h : sees capacity ahead s ≠ .ok true) :
    comparedWord capacity ahead s = compared capacity ahead s := by
  unfold comparedWord
  by_cases hfound : s <+: ahead ∧ s.length < capacity
  · by_cases hs : s = []
    · rw [if_pos hfound, compared, if_pos hs, hs]
      rfl
    · exact absurd (sees_of_front hs hfound.1 (Nat.le_of_lt hfound.2)) h
  · rw [if_neg hfound]

end

theorem atText_apply (hc : c.Valid) (s : List Char) :
    atText s c = result (sees c.capacity c.ahead s) (c.looked (compared c.capacity c.ahead s)) := by
  by_cases hs : s = []
  · have hempty : c.ahead.head?.isSome = !c.ahead.isEmpty := by
      cases c.ahead <;> rfl
    rw [sees, compared, if_pos hs, if_pos hs, hs, ← hempty]
    exact atPeek_apply hc Option.isSome
  · have hspells := spells_apply (c := c) hc.small s (Nat.zero_le _)
    rw [c.looked_zero hc.position_le, Nat.zero_add, Nat.zero_add, List.drop_zero,
      ← atText_eq_spells hc.small hc.position_le hs] at hspells
    rw [hspells, sees, compared, if_neg hs, if_neg hs]
    by_cases halike : common s c.ahead < min s.length c.capacity
    · have hnot : ¬ (c.capacity < s.length ∧ s.take c.capacity <+: c.ahead) := by
        rintro ⟨hlong, hbegins⟩
        have := (take_prefix_iff (Nat.le_of_lt hlong)).1 hbegins
        omega
      have hno : s.isPrefixOf c.ahead = false := by
        rw [Bool.eq_false_iff, ne_eq, isPrefixOf_iff]
        omega
      rw [if_pos halike, if_neg hnot, hno, Nat.min_eq_left (by omega)]
      rfl
    · rw [if_neg halike, Nat.min_eq_right (by omega)]
      by_cases hlong : c.capacity < s.length
      · have hbegins : s.take c.capacity <+: c.ahead :=
          (take_prefix_iff (Nat.le_of_lt hlong)).2 (by omega)
        rw [if_pos hlong, if_pos ⟨hlong, hbegins⟩, Nat.min_eq_right (Nat.le_of_lt hlong)]
        rfl
      · have hyes : s.isPrefixOf c.ahead = true := by
          rw [isPrefixOf_iff]
          omega
        rw [if_neg hlong, if_neg (fun h => hlong h.1), hyes,
          Nat.min_eq_left (Nat.le_of_not_lt hlong)]
        rfl

theorem finds_atText (hc : c.Valid) (s : List Char) :
    Finds s.length c (atText s) (sees c.capacity c.ahead s) := by
  refine finds_of_apply (atText_apply hc s) fun hfound => ?_
  obtain ⟨hfront, -, hcompared⟩ := found_of_sees hfound
  exact Nat.le_min.2 ⟨hcompared, hfront.length_le⟩

theorem atWord_apply (hc : c.Valid) (rules : Rules) (w : List Char) :
    atWord rules w c = result (seesWord rules c.capacity c.ahead w)
      (c.looked (comparedWord c.capacity c.ahead w)) := by
  rw [atWord, bind_apply, atText_apply hc, seesWord]
  cases ho : sees c.capacity c.ahead w with
  | error e =>
    rw [comparedWord_eq (by rw [ho]; exact nofun)]
    rfl
  | ok b =>
    cases b with
    | false =>
      rw [comparedWord_eq (by rw [ho]; exact nofun)]
      rfl
    | true =>
      obtain ⟨hfront, hle, -⟩ := found_of_sees ho
      have hpeek := (c.looked (compared c.capacity c.ahead w)).peekNth_apply hc.small w.length
      rw [capacity_looked, ahead_looked, looked_looked] at hpeek
      show (peekNth w.length >>= fun _ => _ : Move Bool) (c.looked _) = _
      rw [bind_apply, hpeek]
      by_cases hfull : w.length = c.capacity
      · have hreq : min (w.length + 1) maxCount = c.capacity + 1 := by
          have := hc.small
          omega
        rw [if_pos (Nat.le_of_eq hfull.symm), if_pos hfull, hreq, comparedWord, if_neg (by omega)]
        rfl
      · rw [if_neg (by omega), if_neg hfull, comparedWord, if_pos ⟨hfront, by omega⟩,
          Nat.max_eq_right (compared_le _ _ _)]
        cases c.ahead[w.length]? <;> rfl

theorem found_of_seesWord {rules : Rules} {capacity : Nat} {ahead w : List Char}
    (h : seesWord rules capacity ahead w = .ok true) :
    w <+: ahead ∧ w.length ≤ comparedWord capacity ahead w := by
  have hsees : sees capacity ahead w = .ok true := by
    unfold seesWord at h
    cases ho : sees capacity ahead w with
    | error e =>
      rw [ho] at h
      cases h
    | ok b =>
      rw [ho] at h
      cases b with
      | false => cases h
      | true => rfl
  obtain ⟨hfront, -, hcompared⟩ := found_of_sees hsees
  refine ⟨hfront, ?_⟩
  unfold comparedWord
  by_cases hshort : w <+: ahead ∧ w.length < capacity
  · rw [if_pos hshort]
    exact Nat.le_succ _
  · rw [if_neg hshort]
    exact hcompared

theorem finds_atWord (hc : c.Valid) (rules : Rules) (w : List Char) :
    Finds w.length c (atWord rules w) (seesWord rules c.capacity c.ahead w) := by
  refine finds_of_apply (atWord_apply hc rules w) fun hfound => ?_
  obtain ⟨hfront, hcompared⟩ := found_of_seesWord hfound
  exact Nat.le_min.2 ⟨hcompared, hfront.length_le⟩

theorem atComment_apply (hc : c.Valid) (rules : Rules) :
    atComment rules c = result (seesComment rules c.capacity c.ahead)
      (c.looked (comparedComment rules c.capacity c.ahead)) := by
  unfold atComment seesComment comparedComment
  by_cases hs : rules.commentStart = []
  · rw [if_pos (by simp [hs]), if_pos hs, if_pos hs, c.looked_zero hc.position_le]
    rfl
  · rw [if_neg (by simpa using hs), if_neg hs, if_neg hs]
    exact atText_apply hc rules.commentStart

theorem found_of_seesComment {rules : Rules} {capacity : Nat} {ahead : List Char}
    (h : seesComment rules capacity ahead = .ok true) :
    rules.commentStart ≠ [] ∧ sees capacity ahead rules.commentStart = .ok true := by
  unfold seesComment at h
  by_cases hs : rules.commentStart = []
  · rw [if_pos hs] at h
    cases h
  · rw [if_neg hs] at h
    exact ⟨hs, h⟩

theorem exists_seesComment {rules : Rules} {capacity : Nat}
    (h : rules.commentStart.length ≤ capacity) (ahead : List Char) :
    ∃ b, seesComment rules capacity ahead = .ok b := by
  unfold seesComment
  by_cases hs : rules.commentStart = []
  · exact ⟨false, if_pos hs⟩
  · exact ⟨_, (if_neg hs).trans (sees_of_le hs h)⟩

theorem finds_atComment (hc : c.Valid) (rules : Rules) :
    Finds rules.commentStart.length c (atComment rules)
      (seesComment rules c.capacity c.ahead) := by
  refine finds_of_apply (atComment_apply hc rules) fun hfound => ?_
  obtain ⟨hs, hsees⟩ := found_of_seesComment hfound
  obtain ⟨hfront, -, hcompared⟩ := found_of_sees hsees
  rw [comparedComment, if_neg hs]
  exact Nat.le_min.2 ⟨hcompared, hfront.length_le⟩

end Cursor

/-! ## what operations answer -/

namespace Reader

def Outcome.ofTest : Except (ReadError Empty) Bool → Outcome Empty
  | .ok b => .answer (.flag b)
  | .error e => .failed e

/-- the outcome of looking at the `n`-th character ahead, refused at the capacity and beyond -/
def Outcome.within (capacity n : Nat) (a : Answer Empty) : Outcome Empty :=
  if capacity ≤ n then .failed (.lookahead (min (n + 1) maxCount) capacity) else .answer a

/-- the outcome of a test that reads what it has found, and how many characters it reads -/
def Outcome.accepted (n : Nat) (o : Except (ReadError Empty) Bool) : Outcome Empty × Nat :=
  (.ofTest o, match o with | .ok true => n | _ => 0)

/-- the operations that read until they meet something -/
def Op.scans : Op → Bool
  | .skipComment => true
  | .skipTrivia => true
  | .rest => true
  | _ => false

/-- what an operation answers over these characters ahead, and how many of them it reads, as far as
there are so many; nothing is said of going back, which they do not decide, nor of the scans -/
def Op.answer (rules : Rules) (capacity : Nat) (ahead : List Char) :
    Op → Option (Outcome Empty × Nat)
  | .fill n => some (if capacity < n then .failed (.lookahead n capacity) else .answer .done, 0)
  | .peek => some (.answer (.char ahead.head?), 0)
  | .peekNth n => some (.within capacity n (.char ahead[n]?), 0)
  | .read => some (.answer (.char ahead.head?), 1)
  | .atChar ch => some (.answer (.flag (ahead.head? == some ch)), 0)
  | .atNth n ch => some (.within capacity n (.flag (ahead[n]? == some ch)), 0)
  | .atText s => some (.ofTest (sees capacity ahead s), 0)
  | .atWord w => some (.ofTest (seesWord rules capacity ahead w), 0)
  | .atComment => some (.ofTest (seesComment rules capacity ahead), 0)
  | .atEnd => some (.answer (.flag ahead.head?.isNone), 0)
  | .atLineEnd => some (.answer (.flag (ahead.head?.all rules.isLineEnd)), 0)
  | .atBlank => some (.answer (.flag (ahead.head?.any rules.isBlank)), 0)
  | .acceptChar ch => some (Outcome.accepted 1 (.ok (ahead.head? == some ch)))
  | .acceptText s => some (Outcome.accepted s.length (sees capacity ahead s))
  | .acceptWord w => some (Outcome.accepted w.length (seesWord rules capacity ahead w))
  | .acceptBlank => some (Outcome.accepted 1 (.ok (ahead.head?.any rules.isBlank)))
  | .readInto room =>
    some (.answer (.bulk (if room = 0 then .read [] else .ofList (ahead.take room))), room)
  | .skip n => some (.answer (.count (min n ahead.length)), n)
  | .mark limit =>
    some (if capacity < limit then .failed (.buffer (.markLimit limit capacity))
      else .answer .done, 0)
  | .ready => some (.answer (.flag (!ahead.isEmpty)), 0)
  | .chars n => some (.answer (.items ((ahead.take n).map .ok)), n)
  | .close => some (.answer .done, ahead.length)
  | _ => none

theorem Op.exists_answer {op : Op} (hop : op.scans = false) (hreset : op ≠ .reset) (rules : Rules)
    (capacity : Nat) (ahead : List Char) : ∃ a, op.answer rules capacity ahead = some a := by
  cases op with
  | skipComment => cases hop
  | skipTrivia => cases hop
  | rest => cases hop
  | reset => exact absurd rfl hreset
  | _ => exact ⟨_, rfl⟩

end Reader

namespace Cursor

variable {c : Cursor} {rules : Rules} {op : Reader.Op}

/-- the cursor answers so and reads so many characters of the same text -/
structure Does (rules : Rules) (op : Reader.Op) (c : Cursor) (a : Reader.Outcome Empty × Nat) :
    Prop where
  outcome : (run rules op c).1 = a.1
  ahead : (run rules op c).2.ahead = c.ahead.drop a.2
  input : (run rules op c).2.input = c.input
  capacity : (run rules op c).2.capacity = c.capacity

theorem does_of_run {o : Reader.Outcome Empty} {d : Cursor} {n : Nat}
    (h : run rules op c = (o, d)) (hd : d.ahead = c.ahead.drop n) (hi : d.input = c.input)
    (hcap : d.capacity = c.capacity) : Does rules op c (o, n) := by
  constructor <;> rw [h]
  · exact hd
  · exact hi
  · exact hcap

theorem does_of_ok {a : Reader.Answer Empty} {d : Cursor} {n : Nat}
    (h : perform rules op c = .ok a d) (hd : d.ahead = c.ahead.drop n) (hi : d.input = c.input)
    (hcap : d.capacity = c.capacity) : Does rules op c (.answer a, n) :=
  does_of_run (by rw [run, h]) hd hi hcap

theorem does_of_error {e : ReadError Empty} (h : perform rules op c = .error e c) :
    Does rules op c (.failed e, 0) :=
  does_of_run (by rw [run, h]) rfl rfl rfl

theorem does_look {n : Nat} (hc : c.Valid) (f : Option Char → Reader.Answer Empty)
    (h : perform rules op = do return f (← peekNth n)) :
    Does rules op c (.within c.capacity n (f c.ahead[n]?), 0) := by
  have hpeek := c.peekNth_apply hc.small n
  unfold Reader.Outcome.within
  by_cases hn : c.capacity ≤ n
  · rw [if_pos hn] at hpeek ⊢
    refine does_of_error ?_
    rw [h, bind_apply, hpeek]
  · rw [if_neg hn] at hpeek ⊢
    refine does_of_ok (d := c.looked (n + 1)) ?_ rfl rfl rfl
    rw [h, bind_apply, hpeek]
    rfl

theorem does_test {n : Nat} {test : Move Bool} {o : Except (ReadError Empty) Bool}
    (h : perform rules op = .flag <$> test) (ht : Finds n c test o) :
    Does rules op c (.ofTest o, 0) := by
  obtain ⟨k, hx, -⟩ := ht
  refine does_of_run (d := c.looked k) ?_ rfl rfl rfl
  rw [run, h, map_apply, hx]
  cases o <;> rfl

theorem does_accepted {n : Nat} {test : Move Bool} {o : Except (ReadError Empty) Bool}
    (h : perform rules op = .flag <$> accepting test n) (ht : Finds n c test o) :
    Does rules op c (Reader.Outcome.accepted n o) := by
  obtain ⟨k, hx, -⟩ := ht
  have hrun : run rules op c = match accepting test n c with
      | .ok b d => (.answer (.flag b), d)
      | .error e d => (.failed e, d) := by
    rw [run, h, map_apply]
    cases accepting test n c <;> rfl
  rw [accepting_apply, hx] at hrun
  match o with
  | .error e => exact does_of_run hrun rfl rfl rfl
  | .ok false => exact does_of_run hrun rfl rfl rfl
  | .ok true => exact does_of_run hrun ((c.looked k).ahead_advanced n) rfl rfl

theorem does_advance {n : Nat} {f : List Char → Reader.Answer Empty}
    (h : perform rules op = do return f (← advance n)) :
    Does rules op c (.answer (f (c.ahead.take n)), n) := by
  refine does_of_ok (d := c.advanced n) ?_ (c.ahead_advanced n) rfl rfl
  rw [h, bind_apply, advance_apply]
  rfl

/-- what lies ahead and the capacity decide what a cursor answers, and how far it reads -/
theorem run_answers (hc : c.Valid) {a : Reader.Outcome Empty × Nat}
    (h : op.answer rules c.capacity c.ahead = some a) : Does rules op c a := by
  cases op with
  | fill n =>
    cases h
    have hfill := c.fill_apply n
    by_cases hn : c.capacity < n
    · rw [if_pos hn] at hfill ⊢
      refine does_of_error ?_
      rw [perform, map_apply, hfill]
    · rw [if_neg hn] at hfill ⊢
      refine does_of_ok (d := c.looked n) ?_ rfl rfl rfl
      rw [perform, map_apply, hfill]
  | peek =>
    cases h
    refine does_of_ok (d := c.looked 1) ?_ rfl rfl rfl
    rw [perform, map_apply, peek_apply hc]
  | peekNth n => cases h; exact does_look hc .char rfl
  | read =>
    cases h
    have hread := does_advance (c := c) (n := 1) (f := fun cs => .char cs.head?)
      (show perform rules .read = _ from rfl)
    rwa [List.head?_take, if_neg (Nat.succ_ne_zero 0)] at hread
  | atChar ch =>
    cases h
    refine does_of_ok (d := c.looked 1) ?_ rfl rfl rfl
    rw [perform, bind_apply, peek_apply hc]
    rfl
  | atNth n ch => cases h; exact does_look hc (fun o => .flag (o == some ch)) rfl
  | atText s => cases h; exact does_test rfl (finds_atText hc s)
  | atWord w => cases h; exact does_test rfl (finds_atWord hc rules w)
  | atComment => cases h; exact does_test rfl (finds_atComment hc rules)
  | atEnd =>
    cases h
    refine does_of_ok (d := c.looked 1) ?_ rfl rfl rfl
    rw [perform, bind_apply, peek_apply hc]
    rfl
  | atLineEnd =>
    cases h
    refine does_of_ok (d := c.looked 1) ?_ rfl rfl rfl
    rw [perform, bind_apply, peek_apply hc]
    rfl
  | atBlank =>
    cases h
    refine does_of_ok (d := c.looked 1) ?_ rfl rfl rfl
    rw [perform, bind_apply, peek_apply hc]
    rfl
  | acceptChar ch => cases h; exact does_accepted rfl (finds_peek hc (· == some ch) rfl)
  | acceptText s => cases h; exact does_accepted rfl (finds_atText hc s)
  | acceptWord w => cases h; exact does_accepted rfl (finds_atWord hc rules w)
  | acceptBlank => cases h; exact does_accepted rfl (finds_peek hc (·.any rules.isBlank) rfl)
  | skipComment => cases h
  | skipTrivia => cases h
  | readInto room =>
    cases h
    by_cases hroom : room = 0
    · rw [if_pos hroom]
      refine does_of_ok (d := c) ?_ (by rw [hroom, List.drop_zero]) rfl rfl
      rw [perform, map_apply, readInto, if_pos hroom]
      rfl
    · rw [if_neg hroom]
      refine does_of_ok (d := c.advanced room) ?_ (c.ahead_advanced room) rfl rfl
      rw [perform, map_apply, readInto, if_neg hroom, bind_apply, advance_apply]
      rfl
  | skip n =>
    cases h
    have hskip := does_advance (c := c) (n := n) (f := fun cs => .count cs.length)
      (show perform rules (.skip n) = _ from rfl)
    rwa [List.length_take] at hskip
  | mark limit =>
    cases h
    have hmark := c.setMark_apply limit
    by_cases hn : c.capacity < limit
    · rw [if_pos hn] at hmark ⊢
      refine does_of_error ?_
      rw [perform, map_apply, hmark]
    · rw [if_neg hn] at hmark ⊢
      refine does_of_ok (d := { c with mark := some c.position }) ?_ rfl rfl rfl
      rw [perform, map_apply, hmark]
  | reset => cases h
  | ready =>
    cases h
    exact does_of_ok (d := c) rfl rfl rfl rfl
  | chars n =>
    cases h
    exact does_advance (f := fun cs => .items (cs.map .ok)) rfl
  | rest => cases h
  | close =>
    cases h
    refine does_of_ok (d := { c with position := c.pulled, mark := none, closed := true }) rfl ?_
      rfl rfl
    rw [List.drop_length]
    exact ahead_of_closed rfl

theorem run_keeps (hc : c.Valid) (rules : Rules) {op : Reader.Op} (hop : op.scans = false) :
    (run rules op c).2.input = c.input ∧ (run rules op c).2.capacity = c.capacity := by
  by_cases hreset : op = .reset
  · subst hreset
    have hrun : ∀ x, reset c = x → (run rules .reset c).2 = finalState x := by
      rintro x rfl
      rw [run, perform, map_apply]
      cases reset c <;> rfl
    obtain hm | ⟨m, hm⟩ := Option.eq_none_or_eq_some c.mark
    · rw [hrun _ (reset_unmarked hm)]
      exact ⟨rfl, rfl⟩
    · by_cases hlost : c.capacity < c.pulled - m
      · rw [hrun _ (reset_lost hm hlost)]
        exact ⟨rfl, rfl⟩
      · rw [hrun _ (reset_marked hm hlost)]
        exact ⟨rfl, rfl⟩
  · obtain ⟨a, ha⟩ := Reader.Op.exists_answer hop hreset rules c.capacity c.ahead
    have hdoes := run_answers hc ha
    exact ⟨hdoes.input, hdoes.capacity⟩

end Cursor

end Lookahead
