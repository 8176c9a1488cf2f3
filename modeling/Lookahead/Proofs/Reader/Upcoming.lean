import Lookahead.Proofs.BrokenTrivia
import Lookahead.Proofs.Reader.Stock

/-!
# What is to come of a reader

A reader holds some characters, and its source has characters and failures to give, in an order that
no way of reading changes.  A test leaves all of them to come, or it fails with the first failure,
which is then no longer to come.  What a test has found can be let go of, so that a program made of
tests is told by what is to come before and after it.

* `Reader.toCome`   what is to come: characters, and failures between them;
* `Takes`           what a program leaves to come, also when the source fails;
* `Sees`            a test takes nothing but a failure that it meets;
* `sees_atComment`, `sees_atLineEnd`, `sees_atBlank`   the tests;
* `takes_accepting`, `takes_iterate`                   letting go of what was found, and loops.
-/

namespace Lookahead

open Scan (step)

variable {σ ε δ α β : Type}

/-! ## lists that begin with characters -/

/-- there are no failures among the first `k` -/
def Clear (k : Nat) (is : List (Except ε Char)) : Prop :=
  is.take k = ((characters is).take k).map .ok

/-- `js` are `is` without the first failure, before which fewer than `k` characters come -/
def Without (k : Nat) (is : List (Except ε Char)) (e : ε) (js : List (Except ε Char)) : Prop :=
  ∃ (cs : List Char) (rest : List (Except ε Char)),
    cs.length < k ∧ is = cs.map .ok ++ .error e :: rest ∧ js = cs.map .ok ++ rest

section
variable {k j : Nat} {is js : List (Except ε Char)} {cs : List Char} {e : ε}

theorem clear_zero (is : List (Except ε Char)) : Clear 0 is := rfl

theorem clear_of_append (h : k ≤ cs.length) (is : List (Except ε Char)) :
    Clear k (cs.map .ok ++ is) := by
  rw [Clear, characters_append, characters_map_ok, List.take_append_of_le_length h,
    List.take_append_of_le_length (by rwa [List.length_map]), List.map_take]

theorem clear_map_ok (k : Nat) (cs : List Char) :
    Clear k (cs.map (.ok : Char → Except ε Char)) := by
  rw [Clear, characters_map_ok, List.map_take]

theorem Clear.front (h : Clear cs.length is) (hcs : cs <+: characters is) :
    is = cs.map .ok ++ is.drop cs.length := by
  rw [Clear, ← List.prefix_iff_eq_take.1 hcs] at h
  rw [← h, List.take_append_drop]

theorem Clear.afterChars (h : Clear cs.length is) (hcs : cs <+: characters is) :
    afterChars cs.length is = is.drop cs.length := by
  have hafter := afterChars_map_ok cs (is.drop cs.length)
  rwa [← h.front hcs] at hafter

theorem Clear.failures_drop (h : Clear cs.length is) (hcs : cs <+: characters is) :
    failures (is.drop cs.length) = failures is := by
  have hfailures := failures_append (cs.map .ok) (is.drop cs.length)
  rw [← h.front hcs, failures_map_ok] at hfailures
  exact hfailures.symm

theorem Clear.cases (h : Clear 1 is) : is = [] ∨ ∃ c js, is = .ok c :: js := by
  match is with
  | [] => exact .inl rfl
  | .ok c :: js => exact .inr ⟨c, js, rfl⟩
  | .error e :: js =>
    cases hjs : characters js with
    | nil =>
      have hno : [.error e] = (([] : List Char).take 1).map (.ok : Char → Except ε Char) := hjs ▸ h
      cases hno
    | cons c cs =>
      have hno : [.error e] = ((c :: cs).take 1).map (.ok : Char → Except ε Char) := hjs ▸ h
      cases hno

theorem Without.mono (h : Without k is e js) (hk : k ≤ j) : Without j is e js := by
  obtain ⟨cs, rest, hlt, his, hjs⟩ := h
  exact ⟨cs, rest, Nat.lt_of_lt_of_le hlt hk, his, hjs⟩

theorem Without.eq_cons (h : Without 1 is e js) : is = .error e :: js := by
  obtain ⟨cs, rest, hlt, rfl, rfl⟩ := h
  obtain rfl := List.eq_nil_of_length_eq_zero (Nat.lt_one_iff.1 hlt)
  rfl

end

namespace Reader

/-- the characters that are held, and what the source gives up to its end, if it is still asked -/
def toCome [Source σ ε] [Exhaustible σ] (r : Reader σ) : List (Except ε Char) :=
  r.buffer.toList.map .ok ++ if r.isDry then [] else Source.remainder r.source

section
variable [Source σ ε] [Exhaustible σ] {r : Reader σ} {j : Nat}

theorem toCome_of_dry (h : r.isDry = true) : r.toCome = r.buffer.toList.map .ok := by
  rw [toCome, if_pos h, List.append_nil]

theorem toCome_of_wet (h : ¬ r.isDry = true) :
    r.toCome = r.buffer.toList.map .ok ++ Source.remainder r.source := by
  rw [toCome, if_neg h]

theorem toCome_consume (h : r.buffer.Valid) (hj : j ≤ r.buffered) :
    ({ r with buffer := r.buffer.consume j } : Reader σ).toCome = r.toCome.drop j := by
  have hlen : j ≤ (r.buffer.toList.map (.ok : Char → Except ε Char)).length := by
    rw [List.length_map, Buffer.length_toList]
    exact hj
  unfold toCome
  rw [List.drop_append_of_le_length hlen, ← List.map_drop, Buffer.toList_consume h hj]
  rfl

theorem toCome_pulled (h : r.buffer.Valid) (hwet : ¬ r.isDry = true) {c : Char} {s : σ} {b : Buffer}
    (hs : Source.readChar r.source = .ok (some c) s) (hb : Buffer.add c r.buffer = .ok () b) :
    ({ r with source := s, buffer := b } : Reader σ).toCome = r.toCome := by
  have hqwet : ¬ ({ r with source := s, buffer := b } : Reader σ).isDry = true := hwet
  rw [toCome_of_wet hqwet, toCome_of_wet hwet, Source.remainder_some hs, (h.stands.add hb).toList,
    List.map_append, List.append_assoc]
  rfl

theorem length_toCome_lt (r : Reader σ) : r.toCome.length < r.rounds := by
  have hle := Source.length_remainder_le r.source
  unfold toCome rounds
  rw [List.length_append, List.length_map, Buffer.length_toList]
  show r.buffer.count + _ < r.buffer.count + _ + 1
  by_cases h : r.isDry = true
  · rw [if_pos h, List.length_nil]
    omega
  · rw [if_neg h]
    omega

end

/-! ## programs -/

/-- started with `k` characters held at least and `is` to come, the program gives some `a` and leaves
`js` to come with `post a js`, or the source fails with some `e` and `js` are to come with
`slip e js` -/
def Takes [Source σ ε] [Exhaustible σ] (f : δ → Option ε) (n k : Nat) (x : EStateM δ (Reader σ) α)
    (is : List (Except ε Char)) (post : α → List (Except ε Char) → Prop)
    (slip : ε → List (Except ε Char) → Prop) : Prop :=
  ∀ r, Stocked n k r → r.toCome = is → match x r with
    | .ok a s => Stocked n 0 s ∧ post a s.toCome
    | .error d s => Stocked n 0 s ∧ ∃ e, f d = some e ∧ slip e s.toCome

/-- the test leaves everything to come and answers as `answer` says, or it meets a failure before
which fewer than `k` characters come -/
def Sees [Source σ ε] [Exhaustible σ] (n k : Nat) (x : Step σ ε α) (is : List (Except ε Char))
    (answer : α → Prop) : Prop :=
  Takes ReadError.failure? n 0 x is (fun a js => js = is ∧ answer a) (Without k is)

section
variable [Source σ ε] [Exhaustible σ] {f : δ → Option ε} {n i j k : Nat}
  {is : List (Except ε Char)} {post post' : α → List (Except ε Char) → Prop}
  {slip slip' : ε → List (Except ε Char) → Prop}

theorem takes_pure {a : α} (h : post a is) :
    Takes f n k (pure a : EStateM δ (Reader σ) α) is post slip := by
  intro r hr his
  exact ⟨hr.mono (Nat.zero_le k), his.symm ▸ h⟩

theorem Takes.bind_held {x : EStateM δ (Reader σ) α} {g : α → EStateM δ (Reader σ) β}
    {left : α → Nat} {E : δ → Prop} {post' : β → List (Except ε Char) → Prop}
    (hx : Takes f n k x is post slip) (hleft : Leaves n k x left E)
    (hg : ∀ a js, post a js → Takes f n (left a) (g a) js post' slip) :
    Takes f n k (x >>= g) is post' slip := by
  intro r hr his
  have hres := hx r hr his
  have hheld := hleft r hr
  rw [bind_apply]
  cases h : x r with
  | ok a s =>
    rw [h] at hres hheld
    exact hg a s.toCome hres.2 s hheld rfl
  | error d s =>
    rw [h] at hres
    exact hres

theorem Takes.bind {x : EStateM δ (Reader σ) α} {g : α → EStateM δ (Reader σ) β}
    {post' : β → List (Except ε Char) → Prop} (hx : Takes f n k x is post slip)
    (hg : ∀ a js, post a js → Takes f n 0 (g a) js post' slip) :
    Takes f n k (x >>= g) is post' slip := by
  intro r hr his
  have hres := hx r hr his
  rw [bind_apply]
  cases h : x r with
  | ok a s =>
    rw [h] at hres
    exact hg a s.toCome hres.2 s hres.1 rfl
  | error d s =>
    rw [h] at hres
    exact hres

theorem Takes.mono {x : EStateM δ (Reader σ) α} (hx : Takes f n k x is post slip)
    (hpost : ∀ a js, post a js → post' a js) (hslip : ∀ e js, slip e js → slip' e js) :
    Takes f n k x is post' slip' := by
  intro r hr his
  have hres := hx r hr his
  cases h : x r with
  | ok a s =>
    rw [h] at hres
    exact ⟨hres.1, hpost a _ hres.2⟩
  | error d s =>
    rw [h] at hres
    obtain ⟨hs, e, he, hjs⟩ := hres
    exact ⟨hs, e, he, hslip e _ hjs⟩

theorem Takes.mono_slip {x : EStateM δ (Reader σ) α} (hx : Takes f n k x is post slip)
    (hslip : ∀ e js, slip e js → slip' e js) : Takes f n k x is post slip' :=
  hx.mono (fun _ _ h => h) hslip

theorem Takes.step {x : Step σ ε α} (hx : Takes ReadError.failure? n k x is post slip) :
    Takes Halt.failure? n k (step x) is post slip := by
  intro r hr his
  have hres := hx r hr his
  rw [Scan.step_apply]
  cases h : x r <;> rw [h] at hres <;> exact hres

/-- a loop that goes round again only with less to come -/
theorem takes_iterate (inv : α → List (Except ε Char) → Prop)
    {body : α → Scan σ ε (Scan.Round α β)} {post : β → List (Except ε Char) → Prop}
    (hbody : ∀ a is, inv a is → Takes Halt.failure? n 0 (body a) is
      (fun o js => match o with
        | .again b => inv b js ∧ js.length < is.length
        | .done b => post b js) slip)
    {limit : Nat} {a : α} (ha : inv a is) (hlimit : is.length < limit) :
    Takes Halt.failure? n 0 (Scan.iterate body limit a) is post slip := by
  induction limit generalizing a is with
  | zero => exact absurd hlimit (Nat.not_lt_zero _)
  | succ limit ih =>
    refine (hbody a is ha).bind fun o js ho => ?_
    cases o with
    | again b => exact ih ho.1 (Nat.lt_of_lt_of_le ho.2 (Nat.le_of_lt_succ hlimit))
    | done b => exact takes_pure ho

theorem sees_pure {a : α} {p : α → Prop} (h : p a) : Sees n k (pure a : Step σ ε α) is p :=
  takes_pure ⟨rfl, h⟩

theorem Sees.bind {x : Step σ ε α} {g : α → Step σ ε β} {p : α → Prop} {q : β → Prop}
    (hx : Sees n j x is p) (hjk : j ≤ k) (hg : ∀ a, p a → Sees n k (g a) is q) :
    Sees n k (x >>= g) is q := by
  refine (Takes.mono_slip hx fun e js h => Without.mono h hjk).bind ?_
  rintro a js ⟨rfl, ha⟩
  exact hg a ha

theorem Sees.mono {x : Step σ ε α} {p q : α → Prop} (hx : Sees n k x is p)
    (hpq : ∀ a, p a → q a) : Sees n k x is q :=
  Takes.mono hx (fun a _ h => ⟨h.1, hpq a h.2⟩) fun _ _ h => h

/-- a test that looks at one character meets a failure only if it comes first -/
theorem Sees.first {x : Step σ ε α} {p : α → Prop} (hx : Sees n 1 x is p) :
    Takes Halt.failure? n 0 (step x) is (fun a js => js = is ∧ p a)
      (fun e js => is = .error e :: js) :=
  (Takes.mono_slip hx fun _ _ h => h.eq_cons).step

theorem takes_advance (is : List (Except ε Char)) :
    Takes ReadError.failure? n j (onBuffer (Buffer.advance j) : Step σ ε Unit) is
      (fun _ js => js = is.drop j) slip := by
  intro r hr his
  rw [advance_of_le hr.held]
  exact ⟨hr.consume hr.held, by rw [toCome_consume hr.valid hr.held, his]⟩

theorem takes_accepting {test : Step σ ε Bool} {E : ReadError ε → Prop} {p : Bool → Prop}
    (htest : Sees n k test is p) (hheld : Leaves n 0 test (fun b => if b then j else 0) E) :
    Takes ReadError.failure? n 0 (accepting test j) is
      (fun b js => p b ∧ js = if b then is.drop j else is) (Without k is) := by
  refine Takes.bind_held htest hheld ?_
  rintro b js ⟨rfl, hb⟩
  cases b with
  | false => exact takes_pure ⟨hb, rfl⟩
  | true =>
    refine (takes_advance js).bind ?_
    rintro _ ks rfl
    exact takes_pure ⟨hb, rfl⟩

end

/-! ## looking ahead -/

section
variable [Source σ ε] [Exhaustible σ] {r : Reader σ} {n i k : Nat} {is : List (Except ε Char)}

/-- pulling brings characters from the source into the buffer, up to the first failure -/
theorem pullMore_takes (hr : Stocked n 0 r) (hwet : ¬ r.isDry = true) (hroom : r.buffered + k ≤ n) :
    match pullMore k r with
    | .ok _ s => Stocked n 0 s ∧ s.toCome = r.toCome ∧ (s.isDry = true ∨ r.buffered + k ≤ s.buffered)
    | .error d s => Stocked n 0 s ∧
      ∃ e, d.failure? = some e ∧ Without (r.buffered + k) r.toCome e s.toCome := by
  induction k generalizing r with
  | zero => exact ⟨hr, rfl, .inr (Nat.le_refl _)⟩
  | succ k ih =>
    rw [pullMore_succ]
    cases hs : Source.readChar r.source with
    | error e s =>
      refine ⟨⟨hr.valid, hr.capacity, Nat.zero_le _⟩, e, rfl, r.buffer.toList, Source.remainder s,
        ?_, ?_, toCome_of_wet (r := { r with source := s }) hwet⟩
      · rw [Buffer.length_toList]
        exact Nat.lt_add_of_pos_right (Nat.succ_pos k)
      · rw [toCome_of_wet hwet, Source.remainder_error hs]
    | ok o s =>
      cases o with
      | none =>
        have hdry : ({ r with source := s, ended := true } : Reader σ).isDry = true := rfl
        refine ⟨⟨hr.valid, hr.capacity, Nat.zero_le _⟩, ?_, .inl hdry⟩
        rw [toCome_of_dry hdry, toCome_of_wet hwet, Source.remainder_none hs, List.append_nil]
      | some c =>
        have hlt : r.buffer.count < r.buffer.capacity := by
          have : r.buffer.count + (k + 1) ≤ n := hroom
          have : r.buffer.capacity = n := hr.capacity
          omega
        obtain ⟨b, hb, hcount, hcap⟩ := Buffer.add_of_lt c hlt
        have hbuffered : b.count + k = r.buffered + (k + 1) := by
          show b.count + k = r.buffer.count + (k + 1)
          omega
        have hnext := ih (r := { r with source := s, buffer := b })
          ⟨(hr.valid.stands.add hb).valid, hcap.trans hr.capacity, Nat.zero_le _⟩ hwet
          (Nat.le_trans (Nat.le_of_eq hbuffered) hroom)
        rw [toCome_pulled hr.valid hwet hs hb] at hnext
        simp only [hb]
        rw [← hbuffered]
        exact hnext

theorem fill_takes (hr : Stocked n 0 r) (hk : k ≤ n) :
    match (fill k : Step σ ε Unit) r with
    | .ok _ s => Stocked n 0 s ∧ s.toCome = r.toCome ∧ (s.isDry = true ∨ k ≤ s.buffered)
    | .error d s => Stocked n 0 s ∧ ∃ e, d.failure? = some e ∧ Without k r.toCome e s.toCome := by
  rw [fill_eq, hr.capacity, if_neg (Nat.not_lt.2 hk)]
  by_cases hdry : r.isDry = true
  · rw [if_pos hdry]
    exact ⟨hr, rfl, .inl hdry⟩
  · rw [if_neg hdry]
    by_cases hle : k ≤ r.buffered
    · rw [Nat.sub_eq_zero_of_le hle]
      exact ⟨hr, rfl, .inr hle⟩
    · have hsum : r.buffered + (k - r.buffered) = k := by omega
      have hpull := pullMore_takes hr hdry (by rwa [hsum] : r.buffered + (k - r.buffered) ≤ n)
      rw [hsum] at hpull
      exact hpull

/-- the characters that are held show what is to come, as far as was looked -/
theorem held_shows (h : r.isDry = true ∨ k ≤ r.buffered) :
    Clear k r.toCome ∧ ∀ i < k, r.buffer.toList[i]? = (characters r.toCome)[i]? := by
  obtain hdry | hle := h
  · rw [toCome_of_dry hdry]
    refine ⟨clear_map_ok k _, fun i _ => ?_⟩
    rw [characters_map_ok]
  · have hlen : k ≤ r.buffer.toList.length := by
      rw [Buffer.length_toList]
      exact hle
    refine ⟨clear_of_append hlen _, fun i hi => ?_⟩
    rw [toCome, characters_append, characters_map_ok,
      List.getElem?_append_left (Nat.lt_of_lt_of_le hi hlen)]

theorem sees_peekNth (hi : i < n) (hmax : n ≤ maxCount) (is : List (Except ε Char)) :
    Sees n (i + 1) (peekNth i : Step σ ε (Option Char)) is
      (fun o => o = (characters is)[i]? ∧ Clear (i + 1) is) := by
  intro r hr his
  have hmin : min (i + 1) maxCount = i + 1 := Nat.min_eq_left (Nat.le_trans hi hmax)
  have hfill := fill_takes hr (Nat.succ_le_of_lt hi)
  rw [peekNth_eq, hmin]
  cases h : (fill (i + 1) : Step σ ε Unit) r with
  | error d s =>
    rw [h, his] at hfill
    exact hfill
  | ok _ s =>
    rw [h, his] at hfill
    obtain ⟨hs, hcomes, hseen⟩ := hfill
    obtain ⟨hclear, hheld⟩ := held_shows hseen
    rw [hcomes] at hclear hheld
    refine ⟨hs, hcomes, ?_, hclear⟩
    rw [Buffer.peekAt_eq_getElem?, hheld i (Nat.lt_succ_self i)]

/-! ## tests -/

theorem sees_atNth (hi : i < n) (hmax : n ≤ maxCount) (c : Char) (is : List (Except ε Char)) :
    Sees n (i + 1) (atNth i c : Step σ ε Bool) is
      (fun b => b = ((characters is)[i]? == some c) ∧ Clear (i + 1) is) := by
  refine (sees_peekNth hi hmax is).bind (Nat.le_refl _) fun o ho => sees_pure ⟨?_, ho.2⟩
  rw [ho.1]

theorem isPrefixOf_cons_drop (c : Char) (s cs : List Char) (i : Nat) :
    (c :: s).isPrefixOf (cs.drop i) = (cs[i]? == some c && s.isPrefixOf (cs.drop (i + 1))) := by
  by_cases hi : i < cs.length
  · rw [List.drop_eq_getElem_cons hi, List.getElem?_eq_getElem hi]
    show (c == cs[i] && _) = (cs[i] == c && _)
    rw [Bool.beq_comm]
  · have hle := Nat.le_of_not_lt hi
    rw [List.drop_eq_nil_of_le hle, List.getElem?_eq_none hle]
    rfl

theorem sees_spells (hmax : n ≤ maxCount) {s : List Char} (hfits : i + s.length ≤ n)
    (hclear : Clear i is) :
    Sees n (i + s.length) (spells i s : Step σ ε Bool) is
      (fun b => b = s.isPrefixOf ((characters is).drop i) ∧ (b = true → Clear (i + s.length) is)) := by
  induction s generalizing i with
  | nil => exact sees_pure ⟨by rw [List.isPrefixOf_nil_left], fun _ => hclear⟩
  | cons c s ih =>
    have hlen : i + (c :: s).length = i + 1 + s.length := by
      rw [List.length_cons]
      omega
    rw [hlen] at hfits ⊢
    refine (sees_atNth (Nat.lt_of_lt_of_le (Nat.lt_succ_self i) (Nat.le_trans (Nat.le_add_right _ _)
      hfits)) hmax c is).bind (Nat.le_add_right _ _) fun b hb => ?_
    rw [isPrefixOf_cons_drop, ← hb.1]
    cases b with
    | false => exact sees_pure ⟨rfl, nofun⟩
    | true => exact ih hfits hb.2

theorem sees_atComment (hmax : n ≤ maxCount) (rules : Rules) (hfits : rules.commentStart.length ≤ n)
    (is : List (Except ε Char)) :
    Sees n rules.commentStart.length (atComment rules : Step σ ε Bool) is
      (fun b => b = rules.beginsComment (characters is) ∧
        (b = true → Clear rules.commentStart.length is)) := by
  unfold atComment Rules.beginsComment
  by_cases hs : rules.commentStart.isEmpty = true
  · rw [if_pos hs, hs]
    exact sees_pure ⟨rfl, nofun⟩
  · rw [if_neg hs, atText, if_neg hs, Bool.eq_false_iff.2 hs]
    have hspells : Sees n (0 + rules.commentStart.length)
        (spells 0 rules.commentStart : Step σ ε Bool) is _ :=
      sees_spells hmax (by rwa [Nat.zero_add]) (clear_zero is)
    rw [Nat.zero_add] at hspells
    exact hspells

section
variable (hn : 0 < n) (hmax : n ≤ maxCount) (rules : Rules) (is : List (Except ε Char))
include hn hmax

theorem sees_peek : Sees n 1 (peek : Step σ ε (Option Char)) is
    (fun o => o = (characters is).head? ∧ Clear 1 is) := by
  refine (sees_peekNth hn hmax is).mono fun o ho => ⟨?_, ho.2⟩
  rw [ho.1, List.head?_eq_getElem?]

theorem sees_atLineEnd : Sees n 1 (atLineEnd rules : Step σ ε Bool) is
    (fun b => b = (characters is).head?.all rules.isLineEnd ∧ Clear 1 is) := by
  refine (sees_peek hn hmax is).bind (Nat.le_refl 1) fun o ho => ?_
  rw [← ho.1]
  cases o with
  | none => exact sees_pure ⟨rfl, ho.2⟩
  | some c => exact sees_pure ⟨rfl, ho.2⟩

theorem sees_atBlank : Sees n 1 (atBlank rules : Step σ ε Bool) is
    (fun b => b = (characters is).head?.any rules.isBlank ∧ Clear 1 is) := by
  refine (sees_peek hn hmax is).bind (Nat.le_refl 1) fun o ho => ?_
  rw [← ho.1]
  cases o with
  | none => exact sees_pure ⟨rfl, ho.2⟩
  | some c => exact sees_pure ⟨rfl, ho.2⟩

end

end

end Reader

end Lookahead
