import Lookahead.Proofs.Reader.Limits
import Lookahead.Proofs.Reader.Upcoming

/-!
# Scans use up characters

A scan ends because every round of it that goes on takes a character.  So what counts of a reader is
the characters to come: a test leaves them as they are, what a test has found is taken off them, and
a loop goes round again only with fewer of them.  A failure of the source, or of looking too far
ahead, ends a scan at once.

* `Uses`               what a scan does to the characters to come, unless it fails;
* `uses_iterate`       a loop with fewer of them in each round has rounds enough;
* `uses_accepting`     letting go of what a test has found;
* `uses_skipComment`, `uses_triviaRound`, `uses_skipTrivia`, `uses_takeWhile`   the scans.
-/

namespace Lookahead

open Scan (step)

namespace Reader

variable {σ ε α β : Type} [Source σ ε] [Exhaustible σ]

/-- started with `k` characters held at least and `cs` to come, the scan gives some `a` and leaves
`ds` to come with `post a ds`, or it fails; it does not run out of rounds -/
def Uses (n k : Nat) (x : Scan σ ε α) (cs : List Char) (post : α → List Char → Prop) : Prop :=
  ∀ r, Stocked n k r → characters r.toCome = cs → match x r with
    | .ok a s => Stocked n 0 s ∧ post a (characters s.toCome)
    | .error d _ => d ≠ .limit

/-- the scan leaves all characters to come -/
def Leaving (n : Nat) (x : Scan σ ε α) : Prop := ∀ cs, Uses n 0 x cs fun _ ds => ds = cs

/-! ## putting scans together -/

section
variable {n k j : Nat} {cs : List Char} {post post' : α → List Char → Prop}

theorem uses_ite {p : Prop} [Decidable p] {x y : Scan σ ε α} (hx : p → Uses n k x cs post)
    (hy : ¬ p → Uses n k y cs post) : Uses n k (if p then x else y) cs post := by
  by_cases hp : p
  · rw [if_pos hp]
    exact hx hp
  · rw [if_neg hp]
    exact hy hp

theorem uses_pure {a : α} (h : post a cs) : Uses n k (pure a : Scan σ ε α) cs post := by
  intro r hr hcs
  exact ⟨hr.mono (Nat.zero_le k), hcs.symm ▸ h⟩

theorem Uses.bind_held {x : Scan σ ε α} {f : α → Scan σ ε β} {left : α → Nat} {E : Halt ε → Prop}
    {post' : β → List Char → Prop} (hx : Uses n k x cs post) (hleft : Leaves n k x left E)
    (hf : ∀ a ds, post a ds → Uses n (left a) (f a) ds post') : Uses n k (x >>= f) cs post' := by
  intro r hr hcs
  have hres := hx r hr hcs
  have hheld := hleft r hr
  rw [bind_apply]
  cases h : x r with
  | ok a s =>
    rw [h] at hres hheld
    exact hf a _ hres.2 s hheld rfl
  | error d s =>
    rw [h] at hres
    exact hres

theorem Uses.bind {x : Scan σ ε α} {f : α → Scan σ ε β} {post' : β → List Char → Prop}
    (hx : Uses n k x cs post) (hf : ∀ a ds, post a ds → Uses n 0 (f a) ds post') :
    Uses n k (x >>= f) cs post' := by
  intro r hr hcs
  have hres := hx r hr hcs
  rw [bind_apply]
  cases h : x r with
  | ok a s =>
    rw [h] at hres
    exact hf a _ hres.2 s hres.1 rfl
  | error d s =>
    rw [h] at hres
    exact hres

theorem Uses.mono {x : Scan σ ε α} (hx : Uses n k x cs post) (h : ∀ a ds, post a ds → post' a ds) :
    Uses n k x cs post' := by
  intro r hr hcs
  have hres := hx r hr hcs
  cases hxr : x r with
  | ok a s =>
    rw [hxr] at hres
    exact ⟨hres.1, h a _ hres.2⟩
  | error d s =>
    rw [hxr] at hres
    exact hres

theorem uses_step {x : Step σ ε α} (h : ∀ r a s, Stocked n k r → characters r.toCome = cs →
    x r = .ok a s → Stocked n 0 s ∧ post a (characters s.toCome)) : Uses n k (step x) cs post := by
  intro r hr hcs
  rw [Scan.step_apply]
  cases hx : x r with
  | ok a s => exact h r a s hr hcs hx
  | error e s => exact nofun

/-- a loop that goes round again only with fewer characters to come -/
theorem uses_iterate (inv : α → List Char → Prop) {body : α → Scan σ ε (Scan.Round α β)}
    {post : β → List Char → Prop}
    (hbody : ∀ a cs, inv a cs → cs.length < j → Uses n 0 (body a) cs
      (fun o ds => match o with
        | .again b => inv b ds ∧ ds.length < cs.length
        | .done b => post b ds))
    {limit : Nat} {a : α} (ha : inv a cs) (hlimit : cs.length < limit) (hj : cs.length < j) :
    Uses n 0 (Scan.iterate body limit a) cs post := by
  induction limit generalizing a cs with
  | zero => exact absurd hlimit (Nat.not_lt_zero _)
  | succ limit ih =>
    refine (hbody a cs ha hj).bind fun o ds ho => ?_
    cases o with
    | again b =>
      exact ih ho.1 (Nat.lt_of_lt_of_le ho.2 (Nat.le_of_lt_succ hlimit)) (Nat.lt_trans ho.2 hj)
    | done b => exact uses_pure ho

end

/-! ## looking ahead -/

section
variable {n k : Nat} {r : Reader σ}

theorem characters_toCome (r : Reader σ) : ∃ ds, characters r.toCome = r.buffer.toList ++ ds := by
  unfold toCome
  exact ⟨_, by rw [characters_append, characters_map_ok]⟩

theorem buffered_le_characters (r : Reader σ) : r.buffered ≤ (characters r.toCome).length := by
  obtain ⟨ds, hds⟩ := characters_toCome r
  rw [hds, List.length_append, Buffer.length_toList]
  exact Nat.le_add_right _ _

theorem characters_consume (h : r.buffer.Valid) {j : Nat} (hj : j ≤ r.buffered) :
    characters ({ r with buffer := r.buffer.consume j } : Reader σ).toCome =
      (characters r.toCome).drop j := by
  have hlen : j ≤ r.buffer.toList.length := by
    rw [Buffer.length_toList]
    exact hj
  unfold toCome
  rw [characters_append, characters_append, characters_map_ok, characters_map_ok,
    Buffer.toList_consume h hj, List.drop_append_of_le_length hlen]
  rfl

theorem fill_leaving {s : Reader σ} (hr : Stocked n 0 r)
    (h : (fill k : Step σ ε Unit) r = .ok () s) :
    Stocked n 0 s ∧ s.toCome = r.toCome ∧ (s.isDry = true ∨ k ≤ s.buffered) := by
  by_cases hk : k ≤ n
  · have hres := fill_takes hr hk
    rw [h] at hres
    exact hres
  · rw [fill_eq, hr.capacity, if_pos (Nat.lt_of_not_le hk)] at h
    cases h

theorem uses_peekNth (i : Nat) (cs : List Char) :
    Uses n 0 (step (peekNth i : Step σ ε (Option Char))) cs
      (fun o ds => ds = cs ∧ (i < maxCount → o = cs[i]?)) := by
  refine uses_step fun r o s hr hcs h => ?_
  rw [peekNth_eq] at h
  cases hfill : (fill (min (i + 1) maxCount) : Step σ ε Unit) r with
  | error d t =>
    rw [hfill] at h
    cases h
  | ok _ t =>
    rw [hfill] at h
    cases h
    obtain ⟨hs, hcomes, hseen⟩ := fill_leaving hr hfill
    refine ⟨hs, by rw [hcomes, hcs], fun hi => ?_⟩
    rw [Nat.min_eq_left hi] at hseen
    have hheld := (held_shows hseen).2 i (Nat.lt_succ_self i)
    rw [Buffer.peekAt_eq_getElem?, hheld, hcomes, hcs]

theorem uses_peek (cs : List Char) : Uses n 0 (step (peek : Step σ ε (Option Char))) cs
    (fun o ds => ds = cs ∧ o = cs.head?) :=
  (uses_peekNth 0 cs).mono fun o ds h => ⟨h.1, by rw [h.2 (by decide), List.head?_eq_getElem?]⟩

theorem leaving : ForTests (σ := σ) (τ := σ) fun x _ => Leaving n x where
  pure := fun _ _ => uses_pure rfl
  bind := by
    intro α β x y f g hx hf cs
    refine (hx cs).bind ?_
    rintro a ds rfl
    exact hf a ds
  peekNth i cs := (uses_peekNth i cs).mono fun _ _ h => h.1

/-! ## letting go, and reading -/

theorem uses_advance {j : Nat} (cs : List Char) :
    Uses n j (step (onBuffer (Buffer.advance j) : Step σ ε Unit)) cs
      (fun _ ds => ds.length + j = cs.length) := by
  refine uses_step fun r _ s hr hcs h => ?_
  rw [advance_of_le hr.held] at h
  cases h
  refine ⟨hr.consume hr.held, ?_⟩
  have hle := Nat.le_trans hr.held (buffered_le_characters r)
  rw [characters_consume hr.valid hr.held, List.length_drop, ← hcs]
  exact Nat.sub_add_cancel hle

theorem uses_accepting {test : Step σ ε Bool} {j : Nat} (htest : Leaving n (step test))
    (hheld : Leaves n 0 test (fun b => if b then j else 0) (Looking True n)) (cs : List Char) :
    Uses n 0 (step (accepting test j)) cs
      (fun b ds => if b then ds.length + j = cs.length else ds = cs) := by
  unfold accepting
  rw [Scan.step_bind]
  refine (htest cs).bind_held hheld.step ?_
  rintro b ds rfl
  cases b with
  | false => exact uses_pure rfl
  | true =>
    show Uses n j (step (onBuffer (Buffer.advance j) >>= fun _ => pure true)) ds _
    rw [Scan.step_bind]
    refine (uses_advance ds).bind fun _ es hes => uses_pure hes

theorem remove_tail (hr : Stocked n 0 r) (he : ¬ r.buffer.isEmpty = true) :
    Stocked n 0 { r with buffer := r.buffer.consume 1 } ∧
      characters ({ r with buffer := r.buffer.consume 1 } : Reader σ).toCome =
        (characters r.toCome).tail := by
  have hpos : 1 ≤ r.buffered := Nat.pos_of_ne_zero (mt Buffer.isEmpty_iff.2 he)
  exact ⟨hr.remove he, by rw [characters_consume hr.valid hpos, List.drop_one]⟩

theorem takeBuffered_tail {o : Option Char} {s : Reader σ} (hr : Stocked n 0 r)
    (h : (takeBuffered : Step σ ε (Option Char)) r = .ok o s) :
    Stocked n 0 s ∧ characters s.toCome = (characters r.toCome).tail := by
  rw [takeBuffered_eq] at h
  cases hfill : (fill 1 : Step σ ε Unit) r with
  | error d t =>
    rw [hfill] at h
    cases h
  | ok _ t =>
    obtain ⟨ht, hcomes, hseen⟩ := fill_leaving hr hfill
    rw [hfill] at h
    rw [← hcomes]
    by_cases he : t.buffer.isEmpty = true
    · -- nothing is held after the look, so that nothing is to come
      have hdry : t.isDry = true := hseen.resolve_right fun hle =>
        absurd (Buffer.isEmpty_iff.1 he) (Nat.ne_of_gt hle)
      simp only [if_pos he] at h
      cases h
      rw [toCome_of_dry hdry, Buffer.toList_of_isEmpty he]
      exact ⟨ht, rfl⟩
    · simp only [if_neg he] at h
      cases h
      exact remove_tail ht he

theorem pull_tail {o : Option Char} {s : Reader σ} (hr : Stocked n 0 r)
    (he : r.buffer.isEmpty = true) (h : (pull : Step σ ε (Option Char)) r = .ok o s) :
    Stocked n 0 s ∧ characters s.toCome = (characters r.toCome).tail := by
  have hempty := Buffer.toList_of_isEmpty he
  rw [pull_eq] at h
  by_cases hdry : r.isDry = true
  · rw [if_pos hdry] at h
    cases h
    rw [toCome_of_dry hdry, hempty]
    exact ⟨hr, rfl⟩
  · rw [if_neg hdry] at h
    rw [toCome_of_wet hdry, hempty]
    cases hread : Source.readChar r.source with
    | error e t =>
      rw [hread] at h
      cases h
    | ok o t =>
      rw [hread] at h
      cases o with
      | none =>
        cases h
        have hended : ({ r with source := t, ended := true } : Reader σ).isDry = true := rfl
        rw [toCome_of_dry hended, Source.remainder_none hread, hempty]
        exact ⟨⟨hr.valid, hr.capacity, Nat.zero_le _⟩, rfl⟩
      | some c =>
        cases h
        rw [toCome_of_wet (r := { r with source := t }) hdry, Source.remainder_some hread, hempty]
        exact ⟨⟨hr.valid, hr.capacity, Nat.zero_le _⟩, rfl⟩

theorem uses_read (cs : List Char) :
    Uses n 0 (step (read : Step σ ε (Option Char))) cs (fun _ ds => ds = cs.tail) := by
  refine uses_step fun r o s hr hcs h => ?_
  rw [← hcs]
  rw [read_eq] at h
  by_cases he : r.buffer.isEmpty = true
  · rw [if_pos he] at h
    by_cases hm : r.buffer.isMarked = true
    · rw [if_pos hm] at h
      exact takeBuffered_tail hr h
    · rw [if_neg hm] at h
      exact pull_tail hr he h
  · rw [if_neg he] at h
    cases h
    exact remove_tail hr he

end

/-! ## scans -/

section
variable {n limit : Nat} (hn : 0 < n) (rules : Rules) (cs : List Char)
include hn

theorem uses_lineRound (u : Unit) :
    Uses n 0 (lineRound rules u : Scan σ ε (Scan.Round Unit Unit)) cs (fun o ds => match o with
      | .again _ => ds.length < cs.length
      | .done _ => ds = cs) := by
  have hheld : Leaves n 0 (step (atLineEnd rules : Step σ ε Bool)) (fun b => if b then 0 else 1)
      (Halt.Of (Looking True n)) := (leaves_atLineEnd hn rules).step
  refine (leaving.atLineEnd rules cs).bind_held hheld ?_
  rintro found ds rfl
  cases found with
  | true => exact uses_pure rfl
  | false =>
    refine (uses_advance (j := 1) ds).bind fun _ es hes => uses_pure ?_
    exact Nat.lt_of_succ_le (Nat.le_of_eq hes)

theorem uses_skipLine (hlimit : cs.length < limit) :
    Uses n 0 (skipLine rules limit : Scan σ ε Unit) cs (fun _ ds => ds.length ≤ cs.length) := by
  rw [skipLine_eq]
  refine uses_iterate (fun _ ds => ds.length ≤ cs.length) (fun u ds hds _ => ?_) (Nat.le_refl _)
    hlimit hlimit
  refine (uses_lineRound hn rules ds u).mono fun o es ho => ?_
  cases o with
  | again _ => exact ⟨Nat.le_trans (Nat.le_of_lt ho) hds, ho⟩
  | done _ => exact Nat.le_trans (Nat.le_of_eq (congrArg List.length ho)) hds

theorem uses_acceptCommentStart :
    Uses n 0 (step (acceptCommentStart rules : Step σ ε Bool)) cs
      (fun b ds => if b then ds.length + rules.commentStart.length = cs.length else ds = cs) :=
  uses_accepting (leaving.atComment rules) (leaves_atComment hn rules fun _ => trivial) cs

theorem uses_skipComment (hlimit : cs.length < limit) :
    Uses n 0 (skipComment rules limit : Scan σ ε Bool) cs
      (fun b ds => ds.length + b.toNat ≤ cs.length) := by
  by_cases hs : rules.commentStart = []
  · -- an empty text begins no comment
    have hnone : (atComment rules : Step σ ε Bool) = pure false := by
      rw [atComment, hs, if_pos List.isEmpty_nil]
    have hskip : (skipComment rules limit : Scan σ ε Bool) = pure false := by
      rw [skipComment, acceptCommentStart, hnone]
      rfl
    rw [hskip]
    exact uses_pure (Nat.le_refl _)
  · have hpos : 0 < rules.commentStart.length := List.length_pos_iff.2 hs
    refine (uses_acceptCommentStart hn rules cs).bind fun found ds hds => ?_
    cases found with
    | false => exact uses_pure (Nat.le_of_eq (congrArg List.length hds))
    | true =>
      have hds : ds.length + rules.commentStart.length = cs.length := hds
      refine (uses_skipLine hn rules ds (by omega)).bind fun _ es hes => uses_pure ?_
      show es.length + 1 ≤ cs.length
      omega

theorem uses_blankRound (found : Bool) :
    Uses n 0 (blankRound rules found : Scan σ ε (Scan.Round Bool Bool)) cs
      (fun o ds => match o with
        | .again b => b = true ∧ ds.length < cs.length
        | .done b => b = found ∧ ds = cs) := by
  have hblank : Uses n 0 (step (acceptBlank rules : Step σ ε Bool)) cs
      (fun b ds => if b then ds.length + 1 = cs.length else ds = cs) :=
    uses_accepting (leaving.atBlank rules) (leaves_atBlank hn rules) cs
  refine hblank.bind fun blank ds hds => ?_
  cases blank with
  | false => exact uses_pure ⟨rfl, hds⟩
  | true => exact uses_pure ⟨rfl, Nat.lt_of_succ_le (Nat.le_of_eq hds)⟩

theorem uses_skipBlanks (hlimit : cs.length < limit) :
    Uses n 0 (skipBlanks rules limit : Scan σ ε Bool) cs
      (fun b ds => ds.length + b.toNat ≤ cs.length) := by
  rw [skipBlanks_eq]
  refine uses_iterate (fun b ds => ds.length + b.toNat ≤ cs.length) (fun b ds hds _ => ?_)
    (Nat.le_refl _) hlimit hlimit
  refine (uses_blankRound hn rules ds b).mono fun o es ho => ?_
  cases o with
  | again b' =>
    obtain ⟨rfl, hlt⟩ := ho
    refine ⟨?_, hlt⟩
    show es.length + 1 ≤ cs.length
    omega
  | done b' =>
    obtain ⟨rfl, rfl⟩ := ho
    exact hds

/-- a round that goes on has found a blank or a comment -/
theorem uses_triviaRound (hlimit : cs.length < limit) (u : Unit) :
    Uses n 0 (triviaRound rules limit u : Scan σ ε (Scan.Round Unit Unit)) cs
      (fun o ds => match o with
        | .again _ => ds.length < cs.length
        | .done _ => ds.length ≤ cs.length) := by
  refine (uses_skipBlanks hn rules cs hlimit).bind fun blanks ds hds => ?_
  refine (uses_skipComment hn rules ds (by omega)).bind fun comment es hes => ?_
  refine uses_pure ?_
  cases blanks with
  | true =>
    show es.length < cs.length
    rw [Bool.toNat_true] at hds
    omega
  | false =>
    cases comment with
    | true =>
      show es.length < cs.length
      rw [Bool.toNat_true] at hes
      omega
    | false =>
      show es.length ≤ cs.length
      omega

theorem uses_skipTrivia (hlimit : cs.length < limit) :
    Uses n 0 (skipTrivia rules limit : Scan σ ε Unit) cs (fun _ ds => ds.length ≤ cs.length) := by
  rw [skipTrivia_eq]
  refine uses_iterate (fun _ ds => ds.length ≤ cs.length) (fun u ds hds hlt => ?_) (Nat.le_refl _)
    hlimit hlimit
  refine (uses_triviaRound hn rules ds hlt u).mono fun o es ho => ?_
  cases o with
  | again _ => exact ⟨Nat.le_trans (Nat.le_of_lt ho) hds, ho⟩
  | done _ => exact Nat.le_trans ho hds

end

/-! ## runs of characters -/

section
variable {n limit : Nat} (p : Char → Bool) (cs : List Char)

theorem uses_takeRound (taken : List Char) :
    Uses n 0 (takeRound p taken : Scan σ ε (Scan.Round (List Char) (List Char))) cs
      (fun o ds => match o with
        | .again _ => ds.dropWhile p = cs.dropWhile p ∧ ds.length < cs.length
        | .done _ => ds = cs.dropWhile p) := by
  refine (uses_peek cs).bind fun o ds ho => ?_
  obtain ⟨rfl, rfl⟩ := ho
  cases ds with
  | nil => exact uses_pure rfl
  | cons c ds =>
    by_cases hp : p c = true
    · simp only [List.head?_cons, if_pos hp]
      refine (uses_read (c :: ds)).bind fun _ es hes => uses_pure ?_
      subst hes
      rw [List.dropWhile_cons_of_pos hp]
      exact ⟨rfl, Nat.lt_succ_self _⟩
    · simp only [List.head?_cons, if_neg hp]
      exact uses_pure (List.dropWhile_cons_of_neg hp).symm

theorem uses_takeWhile (hlimit : cs.length < limit) :
    Uses n 0 (takeWhile p limit : Scan σ ε (List Char)) cs (fun _ ds => ds = cs.dropWhile p) := by
  rw [takeWhile_eq]
  refine uses_iterate (fun _ ds => ds.dropWhile p = cs.dropWhile p) (fun taken ds hds _ => ?_) rfl
    hlimit hlimit
  refine (uses_takeRound p ds taken).mono fun o es ho => ?_
  cases o with
  | again _ => exact ⟨ho.1.trans hds, ho.2⟩
  | done _ => exact Eq.trans ho hds

end

end Reader

end Lookahead
