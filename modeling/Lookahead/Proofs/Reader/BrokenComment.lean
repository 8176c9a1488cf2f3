import Lookahead.Proofs.Reader.Operations
import Lookahead.Proofs.Reader.Retry
import Lookahead.Proofs.Reader.Upcoming

/-!
# Trivia skipped over failures

A scan for trivia that fails has skipped what it had found by then.  Asked for again, it looks at
what comes next as if nothing had been before.  That does no harm between comments, but what begins a
comment is gone once it was found, so that a failure inside a comment ends it for the next scan, and
the rest of its line is content.

* `Skips`                     what scans have skipped and met on the way from one place to another;
* `takes_skipBlanks`, `takes_skipComment`, `takes_skipTrivia`   the scans, asked for once;
* `insisted_skipTrivia`       a scan for trivia, asked for again after each failure;
* `comment_read_as_content`   what is left of a broken comment is read;
* `comments_end_at_failures`  what is left by the scan in general.
-/

namespace Lookahead

open Scan (step)

variable {σ ε : Type}

/-! ## places on the way -/

/-- from `js` on the same is left after trivia as from `is` on, and `es` were met between -/
structure Skips (rules : Rules) (is : List (Except ε Char)) (es : List ε)
    (js : List (Except ε Char)) : Prop where
  left : rules.dropBrokenTrivia js = rules.dropBrokenTrivia is
  met : failures is = es ++ failures js
  length_le : js.length ≤ is.length

namespace Skips
variable {rules : Rules} {is js ks : List (Except ε Char)} {es fs : List ε}

theorem refl (rules : Rules) (is : List (Except ε Char)) : Skips rules is [] is :=
  ⟨rfl, rfl, Nat.le_refl _⟩

theorem trans (h : Skips rules is es js) (k : Skips rules js fs ks) :
    Skips rules is (es ++ fs) ks where
  left := k.left.trans h.left
  met := by rw [h.met, k.met, List.append_assoc]
  length_le := Nat.le_trans k.length_le h.length_le

theorem failure (rules : Rules) (e : ε) (is : List (Except ε Char)) :
    Skips rules (.error e :: is) [e] is :=
  ⟨(Rules.dropBrokenTrivia_cons rfl).symm, rfl, Nat.le_succ _⟩

theorem blank {c : Char} (h : rules.isBlank c = true) (is : List (Except ε Char)) :
    Skips rules (.ok c :: is : List (Except ε Char)) [] is := by
  have hskip : rules.skipsOver (.ok c : Except ε Char) = true := h
  exact ⟨(Rules.dropBrokenTrivia_cons hskip).symm, rfl, Nat.le_succ _⟩

theorem without {e : ε} (h : Without rules.commentStart.length is e js) :
    Skips rules is [e] js := by
  obtain ⟨cs, rest, hlt, rfl, rfl⟩ := h
  refine ⟨(Rules.dropBrokenTrivia_of_lt hlt e rest).symm, ?_, ?_⟩
  · rw [failures_append, failures_append, failures_map_ok]
    rfl
  · rw [List.length_append, List.length_append, List.length_cons]
    omega

theorem comment (hbegins : rules.beginsComment (characters is) = true)
    (hclear : Clear rules.commentStart.length is) (hfront : is.dropWhile rules.skipsOver = is) :
    let js := (is.drop rules.commentStart.length).dropWhile rules.goesOn
    Skips rules is [] js ∧ js.length < is.length := by
  intro js
  obtain ⟨-, hprefix⟩ := Rules.beginsComment_iff.1 hbegins
  have hcomment : rules.dropBrokenComment? is = some js := by
    rw [Rules.dropBrokenComment?, if_pos hbegins, hclear.afterChars hprefix]
  have hlt := Rules.length_dropBrokenComment?_lt hcomment
  refine ⟨⟨?_, ?_, Nat.le_of_lt hlt⟩, hlt⟩
  · rw [Rules.dropBrokenTrivia_front hfront, hcomment]
  · rw [Rules.failures_goesOn, hclear.failures_drop hprefix, List.nil_append]

end Skips

namespace Reader

section
variable [Source σ ε] [Exhaustible σ] {n limit : Nat} (hn : 0 < n) (hmax : n ≤ maxCount)
  (rules : Rules) {is : List (Except ε Char)}
include hn hmax

/-! ## scans asked for once -/

theorem takes_skipLine (hlimit : is.length < limit) :
    Takes Halt.failure? n 0 (skipLine rules limit : Scan σ ε Unit) is
      (fun _ js => js = is.dropWhile rules.goesOn)
      (fun e js => is.dropWhile rules.goesOn = .error e :: js) := by
  refine takes_iterate (fun _ js => js.dropWhile rules.goesOn = is.dropWhile rules.goesOn)
    (fun _ js hjs => ?_) rfl hlimit
  rw [← hjs]
  have htest := (sees_atLineEnd (σ := σ) hn hmax rules js).first
  have hheld : Leaves n 0 (atLineEnd rules : Step σ ε Bool) _ (Looking False n) :=
    leaves_atLineEnd hn rules
  refine (htest.mono_slip ?_).bind_held hheld.step ?_
  · -- a failure comes first, where no line goes on
    rintro e ks rfl
    rfl
  · rintro b ks ⟨rfl, hb, hclear⟩
    obtain rfl | ⟨c, js, rfl⟩ := hclear.cases
    · cases hb
      exact takes_pure rfl
    · have hend : b = rules.isLineEnd c := hb
      cases b with
      | true =>
        exact takes_pure (List.dropWhile_cons_of_neg (by simp [Rules.goesOn, ← hend])).symm
      | false =>
        refine (takes_advance _).step.bind ?_
        rintro _ ls rfl
        exact takes_pure ⟨(List.dropWhile_cons_of_pos (by simp [Rules.goesOn, ← hend])).symm,
          Nat.lt_succ_self _⟩

theorem takes_skipBlanks (hlimit : is.length < limit) :
    Takes Halt.failure? n 0 (skipBlanks rules limit : Scan σ ε Bool) is
      (fun b js => Skips rules is [] js ∧ js.dropWhile rules.skipsOver = js ∧
        if b then js.length < is.length else js = is)
      (fun e js => Skips rules is [e] js) := by
  refine takes_iterate (fun b js => Skips rules is [] js ∧
    if b then js.length < is.length else js = is) (fun found js hjs => ?_)
    ⟨Skips.refl rules is, rfl⟩ hlimit
  obtain ⟨hskips, hfound⟩ := hjs
  have hheld : Leaves n 0 (atBlank rules : Step σ ε Bool) _ (Looking False n) :=
    leaves_atBlank hn rules
  have htest := takes_accepting (sees_atBlank hn hmax rules js) hheld
  refine (htest.step.mono_slip fun e ks h => ?_).bind ?_
  · rw [h.eq_cons] at hskips
    exact hskips.trans (Skips.failure rules e ks)
  · rintro b ks ⟨⟨hb, hclear⟩, rfl⟩
    obtain rfl | ⟨c, js, rfl⟩ := hclear.cases
    · cases hb
      exact takes_pure ⟨hskips, rfl, hfound⟩
    · have his : b = rules.isBlank c := hb
      cases b with
      | true =>
        have hblank := hskips.trans (Skips.blank his.symm js)
        have hlen := hskips.length_le
        exact takes_pure ⟨⟨hblank, hlen⟩, Nat.lt_succ_self _⟩
      | false =>
        have hfront : (.ok c :: js).dropWhile rules.skipsOver = .ok c :: js :=
          List.dropWhile_cons_of_neg (by simp [Rules.skipsOver, ← his])
        exact takes_pure ⟨hskips, hfront, hfound⟩

theorem takes_skipComment (hfits : rules.commentStart.length ≤ n)
    (hfront : is.dropWhile rules.skipsOver = is) (hlimit : is.length < limit) :
    Takes Halt.failure? n 0 (skipComment rules limit : Scan σ ε Bool) is
      (fun b js => Skips rules is [] js ∧
        if b then js.length < is.length
        else js = is ∧ rules.beginsComment (characters is) = false)
      (fun e js => Skips rules is [e] js) := by
  have hheld : Leaves n 0 (atComment rules : Step σ ε Bool) _ (Looking False n) :=
    leaves_atComment hn rules fun hlt => absurd hlt (Nat.not_lt.2 hfits)
  have htest := takes_accepting (sees_atComment hmax rules hfits is) hheld
  refine (htest.step.mono_slip fun e js h => Skips.without h).bind ?_
  rintro b js ⟨⟨hb, hclear⟩, rfl⟩
  cases b with
  | false => exact takes_pure ⟨Skips.refl rules is, rfl, hb.symm⟩
  | true =>
    obtain ⟨hskips, hlt⟩ := Skips.comment hb.symm (hclear rfl) hfront
    have hlen : (is.drop rules.commentStart.length).length < limit := by
      rw [List.length_drop]
      omega
    refine ((takes_skipLine hn hmax rules hlen).mono_slip fun e js h => ?_).bind ?_
    · -- what began the comment is read by now, so that the failure ends it
      rw [h] at hskips
      exact hskips.trans (Skips.failure rules e js)
    · rintro _ ks rfl
      exact takes_pure ⟨hskips, hlt⟩

/-- the trivia are read up to their end or the first failure -/
theorem takes_skipTrivia (hfits : rules.commentStart.length ≤ n) (hlimit : is.length < limit) :
    Takes Halt.failure? n 0 (skipTrivia rules limit : Scan σ ε Unit) is
      (fun _ js => Skips rules is [] js ∧ characters js = rules.dropBrokenTrivia is)
      (fun e js => Skips rules is [e] js) := by
  refine takes_iterate (fun _ js => Skips rules is [] js) (fun _ js hjs => ?_)
    (Skips.refl rules is) hlimit
  have hlen := Nat.lt_of_le_of_lt hjs.length_le hlimit
  refine ((takes_skipBlanks hn hmax rules hlen).mono_slip fun e ks h => hjs.trans h).bind ?_
  rintro blanks ks ⟨hblanks, hfront, hmoved⟩
  have hks := hjs.trans hblanks
  refine ((takes_skipComment hn hmax rules hfits hfront
    (Nat.lt_of_le_of_lt hks.length_le hlimit)).mono_slip fun e ls h => hks.trans h).bind ?_
  rintro comment ls ⟨hcomment, hended⟩
  have hls := hks.trans hcomment
  cases comment with
  | true =>
    rw [Bool.or_true]
    exact takes_pure ⟨hls, Nat.lt_of_lt_of_le hended hblanks.length_le⟩
  | false =>
    obtain ⟨rfl, hnone⟩ := hended
    cases blanks with
    | true => exact takes_pure ⟨hls, hmoved⟩
    | false =>
      have hdrop : rules.dropBrokenTrivia ls = characters ls := by
        rw [Rules.dropBrokenTrivia_front hfront, Rules.dropBrokenComment?, hnone]
        rfl
      exact takes_pure ⟨hls, by rw [← hls.left, hdrop]⟩

/-! ## scans asked for again -/

/-- asked for once, the scan ends or uses up a failure -/
theorem run_skipTrivia_cases (hfits : rules.commentStart.length ≤ n) {r : Reader σ}
    (hr : Stocked n 0 r) (hlimit : r.toCome.length < limit) :
    (∃ s, Op.skipTrivia.run rules limit r = (.answer .done, s) ∧ Skips rules r.toCome [] s.toCome ∧
      characters s.toCome = rules.dropBrokenTrivia r.toCome) ∨
    ∃ e s, Op.skipTrivia.run rules limit r = (.failed (.source e), s) ∧ Stocked n 0 s ∧
      Skips rules r.toCome [e] s.toCome := by
  have hscan := takes_skipTrivia hn hmax rules hfits hlimit r hr rfl
  rw [Op.run, Op.perform, map_apply]
  cases h : (skipTrivia rules limit : Scan σ ε Unit) r with
  | ok _ s =>
    rw [h] at hscan
    exact .inl ⟨s, rfl, hscan.2⟩
  | error d s =>
    rw [h] at hscan
    obtain ⟨hs, e, hd, hskips⟩ := hscan
    cases Halt.eq_of_failure? hd
    exact .inr ⟨e, s, rfl, hs, hskips⟩

/-- asked for again after each failure, the scan ends, having met the first few failures -/
theorem insisted_skipTrivia (hfits : rules.commentStart.length ≤ n) {r : Reader σ}
    (hr : Stocked n 0 r) (hlimit : r.toCome.length < limit) {tries : Nat}
    (htries : (failures r.toCome).length ≤ tries) :
    ∃ es s, Op.skipTrivia.insist rules limit tries r = (es, .answer .done, s) ∧
      Skips rules r.toCome es s.toCome ∧
      characters s.toCome = rules.dropBrokenTrivia r.toCome := by
  -- on the tries: one that fails leaves as much to drop and one failure less
  induction tries generalizing r with
  | zero =>
    obtain ⟨s, hrun, hskips, hleft⟩ | ⟨e, s, -, -, hskips⟩ :=
      run_skipTrivia_cases hn hmax rules hfits hr hlimit
    · exact ⟨[], s, congrArg (Prod.mk []) hrun, hskips, hleft⟩
    · rw [hskips.met] at htries
      cases htries
  | succ tries ih =>
    obtain ⟨s, hrun, hskips, hleft⟩ | ⟨e, s, hrun, hs, hskips⟩ :=
      run_skipTrivia_cases hn hmax rules hfits hr hlimit
    · refine ⟨[], s, ?_, hskips, hleft⟩
      rw [Op.insist_done (by rw [hrun]; exact nofun), hrun]
    · have hlater : (failures s.toCome).length ≤ tries := by
        rw [hskips.met] at htries
        exact Nat.le_of_succ_le_succ htries
      obtain ⟨es, t, hinsist, hmore, hleft⟩ :=
        ih hs (Nat.lt_of_le_of_lt hskips.length_le hlimit) hlater
      refine ⟨e :: es, t, ?_, hskips.trans hmore, hleft.trans hskips.left⟩
      rw [Op.insist_failed (e := e) (by rw [hrun]), hrun, hinsist]

end

/-! ## without the failures -/

section
variable {τ : Type} [Source σ ε] [Source τ ε] [Exhaustible σ] [Exhaustible τ]
  {R : List ε → σ → τ → Prop} (hR : Source.Mended R) {es : List ε}
include hR

theorem remainder_of_mended {s : σ} {t : τ} (h : R es s t) :
    Source.remainder t = (characters (Source.remainder s)).map .ok := by
  fun_induction Source.remainder s generalizing es t with
  | case1 s s' hs =>
    obtain ⟨t', ht, -⟩ := hR.ok h hs
    exact Source.remainder_none ht
  | case2 s c s' hs ih =>
    obtain ⟨t', ht, h'⟩ := hR.ok h hs
    rw [Source.remainder_some ht, ih h']
    rfl
  | case3 s e s' hs ih =>
    obtain ⟨fs, t', -, h', hagain⟩ := hR.error h hs
    rw [← Source.remainder_congr hagain, ih h']
    rfl

theorem toCome_of_awaits {r : Reader σ} {q : Reader τ} (h : Awaits R es r q) :
    q.toCome = (characters r.toCome).map .ok := by
  unfold toCome
  rw [characters_append, characters_map_ok, List.map_append, h.isDry, h.buffer]
  by_cases hdry : q.isDry = true
  · rw [if_pos hdry, if_pos hdry]
    rfl
  · rw [if_neg hdry, if_neg hdry, remainder_of_mended hR h.source]

theorem run_skipTrivia_mended {n limit : Nat} (hn : 0 < n) (hmax : n ≤ maxCount) (rules : Rules)
    (hfits : rules.commentStart.length ≤ n) {r : Reader σ} {q : Reader τ} (h : Awaits R es r q)
    (hq : q.capacity = n) (hlimit : r.toCome.length < limit) :
    ∃ s, Op.skipTrivia.run rules limit q = (.answer .done, s) ∧
      characters s.toCome = rules.dropTrivia (characters r.toCome) := by
  have hcomes := toCome_of_awaits hR h
  have hlen : q.toCome.length < limit := by
    rw [hcomes, List.length_map]
    exact Nat.lt_of_le_of_lt (List.length_filterMap_le _ _) hlimit
  obtain ⟨s, hrun, -, hleft⟩ | ⟨e, s, -, -, hskips⟩ :=
    run_skipTrivia_cases hn hmax rules hfits ⟨h.valid, hq, Nat.zero_le _⟩ hlen
  · refine ⟨s, hrun, ?_⟩
    rw [hleft, hcomes, Rules.dropBrokenTrivia_map_ok]
  · have hmet := hskips.met
    rw [hcomes, failures_map_ok] at hmet
    cases hmet

end

/-! ## over scripts -/

theorem awaits_sound (r : Reader (Script ε)) (h : r.buffer.Valid) :
    Awaits (fun es (s t : Script ε) => s.failures = es ∧ s.sound = t) r.source.failures r
      { r with source := r.source.sound } :=
  ⟨⟨⟨rfl, rfl⟩, rfl, rfl, rfl⟩, h⟩

/-- a failure inside a comment: the scan is asked for again and ends, and what is read next is of the
comment, whereas without the failure the comment is skipped to its end -/
theorem comment_read_as_content :
    let script : Script String :=
      ⟨[.char '#', .char 'a', .failure "slow", .char 'b', .char '\n', .char 'c']⟩
    ∃ r, create script 4 = .ok r ∧
      let again := Op.skipTrivia.insist Rules.standard 9 9 r
      let once := Op.skipTrivia.run Rules.standard 9 { r with source := r.source.sound }
      again.2.1 = .answer .done ∧ once.1 = .answer .done ∧
        (∃ s, (read : Step (Script String) String _) again.2.2 = .ok (some 'b') s) ∧
        ∃ s, (read : Step (Script String) String _) once.2 = .ok (some 'c') s := by
  intro script
  obtain ⟨r, hr⟩ : ∃ r : Reader (Script String), r = ⟨script, Buffer.ofCapacity 4, false, false⟩ :=
    ⟨_, rfl⟩
  have hmax : 4 ≤ maxCount := by decide
  have hfits : Rules.standard.commentStart.length ≤ 4 := by decide
  have hvalid : r.buffer.Valid := hr ▸ Buffer.valid_ofCapacity (by decide)
  have hcap : r.capacity = 4 := hr ▸ rfl
  have hlen : r.toCome.length < 9 :=
    Nat.lt_of_lt_of_le r.length_toCome_lt (by rw [hr]; decide +kernel)
  have htries := Nat.le_trans (List.length_filterMap_le failure? r.toCome) (Nat.le_of_lt hlen)
  obtain ⟨es, s, hagain, -⟩ := insisted_skipTrivia (by decide) hmax Rules.standard hfits
    ⟨hvalid, hcap, Nat.zero_le _⟩ hlen htries
  obtain ⟨t, honce, -⟩ := run_skipTrivia_mended Script.mended (by decide) hmax Rules.standard hfits
    (awaits_sound r hvalid) hcap hlen
  refine ⟨r, hr ▸ create_eq _ (by decide), ?_, ?_, exists_of_outcome ?_, exists_of_outcome ?_⟩
  · rw [hagain]
  · rw [honce]
  · rw [hr]
    decide +kernel
  · rw [hr]
    decide +kernel

/-- **A failure ends the comment that it comes in.**  Over a script with failures anywhere, after any
run, a scan for trivia that is asked for again after each failure comes to its end, having met the
first few failures once each.  What is left is what follows the trivia when a failure inside a
comment counts as the end of the comment, and no other failure counts.  The same scan over the script
without its failures leaves what follows the trivia, which is the same as long as no failure comes
inside a comment. -/
theorem comments_end_at_failures (script : Script ε) {n : Nat} (hn : 0 < n) (hmax : n ≤ maxCount)
    (rules : Rules) (hfits : rules.commentStart.length ≤ n) (steps : Nat) (ops : List Op) :
    ∃ r₀, create script n = .ok r₀ ∧
      let r := (run rules steps ops r₀).2
      ∀ limit tries, r.rounds ≤ limit → (failures r.toCome).length ≤ tries →
        let again := Op.skipTrivia.insist rules limit tries r
        let once := Op.skipTrivia.run rules limit { r with source := r.source.sound }
        again.2.1 = .answer .done ∧
          failures r.toCome = again.1 ++ failures again.2.2.toCome ∧
          characters again.2.2.toCome = rules.dropBrokenTrivia r.toCome ∧
          once.1 = .answer .done ∧
          characters once.2.toCome = rules.dropTrivia (characters r.toCome) ∧
          (rules.Unbroken r.toCome → characters again.2.2.toCome = characters once.2.toCome) := by
  refine ⟨_, create_eq _ hn, ?_⟩
  intro r limit tries hlimit htries again once
  obtain ⟨hvalid, hcapacity⟩ := valid_run (r := ⟨script, Buffer.ofCapacity n, false, false⟩) rules
    steps ops (Buffer.valid_ofCapacity hn)
  have hcap : r.capacity = n := hcapacity.trans (Array.size_replicate (n := n))
  have hlen := Nat.lt_of_lt_of_le r.length_toCome_lt hlimit
  obtain ⟨es, s, hagain, hskips, hleft⟩ :=
    insisted_skipTrivia hn hmax rules hfits ⟨hvalid, hcap, Nat.zero_le _⟩ hlen htries
  obtain ⟨t, honce, hrest⟩ :=
    run_skipTrivia_mended Script.mended hn hmax rules hfits (awaits_sound r hvalid) hcap hlen
  have hagain : again = (es, .answer .done, s) := hagain
  have honce : once = (.answer .done, t) := honce
  rw [hagain, honce]
  refine ⟨rfl, hskips.met, hleft, rfl, hrest, fun hunbroken => ?_⟩
  show characters s.toCome = characters t.toCome
  rw [hleft, hrest, Rules.dropBrokenTrivia_eq hunbroken]

/-- a failure before a comment, one inside it and one behind it -/
theorem comments_end_at_failures_abc :
    let script : Script String := ⟨[.char 'x', .failure "slow", .char ' ', .char '#', .char 'a',
      .failure "late", .char 'b', .failure "later", .char '\n']⟩
    0 < 2 ∧ 2 ≤ maxCount ∧ Rules.standard.commentStart.length ≤ 2 ∧
      ∃ r₀, create script 2 = .ok r₀ ∧
        let r := (run Rules.standard 9 [.read] r₀).2
        let again := Op.skipTrivia.insist Rules.standard 9 9 r
        let once := Op.skipTrivia.run Rules.standard 9 { r with source := r.source.sound }
        r.rounds ≤ 9 ∧ (failures r.toCome).length ≤ 9 ∧
          again.2.1 = .answer .done ∧ again.1 = ["slow", "late"] ∧ again.2.2.buffer.toList = ['b'] ∧
          characters again.2.2.toCome = Rules.standard.dropBrokenTrivia r.toCome ∧
          once.1 = .answer .done ∧ once.2.buffer.toList = [] ∧
          characters once.2.toCome = Rules.standard.dropTrivia (characters r.toCome) := by
  intro script
  have hmax : 2 ≤ maxCount := by decide
  have hfits : Rules.standard.commentStart.length ≤ 2 := by decide
  obtain ⟨r₀, hr₀, hall⟩ :=
    comments_end_at_failures script Nat.two_pos hmax Rules.standard hfits 9 [.read]
  refine ⟨Nat.two_pos, hmax, hfits, r₀, hr₀, ?_⟩
  rw [create_eq _ Nat.two_pos] at hr₀
  cases hr₀
  have hrounds : (run (ε := String) Rules.standard 9 [.read]
      ⟨script, Buffer.ofCapacity 2, false, false⟩).2.rounds ≤ 9 := by decide +kernel
  have htries := Nat.le_trans (List.length_filterMap_le failure? _)
    (Nat.le_trans (Nat.le_of_lt (length_toCome_lt _)) hrounds)
  obtain ⟨hagain, -, hleft, honce, hrest, -⟩ := hall 9 9 hrounds htries
  exact ⟨hrounds, htries, hagain, by decide +kernel, by decide +kernel, hleft, honce,
    by decide +kernel, hrest⟩

end Reader

end Lookahead
