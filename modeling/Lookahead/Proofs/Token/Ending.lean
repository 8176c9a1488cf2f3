import Lookahead.Proofs.Reader.Ending
import Lookahead.Proofs.Reader.Operations
import Lookahead.Source.Script
import Lookahead.Token.Binding
import Lookahead.Token.Settings

/-!
# Scans and tokenizers come to an end

A token takes a character at least: what is accepted has one, a run of characters is read only where
its first one is at hand, and what is left over is read itself.  So a tokenizer goes round no more
often than there are characters to come, and gives no more tokens.  This holds for every source that
comes to an end and from every state of a reader that can be reached.

* `withMore_bindingNext`, `withMore_settingsNext`   more rounds change nothing;
* `uses_bindingNext`, `uses_settingsNext`           a token takes a character;
* `collected_le`      no more tokens are collected than there are characters;
* `Ends`, `Advances`  a scan that comes to an end, and a round that is a step towards it;
* `every_scan_ends`   the scans and the tokenizers from every state.
-/

namespace Lookahead

open Scan (step)

namespace Reader

/-! ## more rounds change nothing -/

section
variable {σ ε : Type} [Source σ ε] {limit more : Nat} (hle : limit ≤ more)
include hle

theorem withMore_next {T : Type} {beginning beginning' : Char → Scan σ ε T}
    (hbegin : ∀ c, WithMore (beginning c) (beginning' c)) :
    WithMore
      (do
        skipTrivia .standard limit
        match ← step peek with
        | none => return none
        | some c => return some (← beginning c))
      (do
        skipTrivia .standard more
        match ← step peek with
        | none => return none
        | some c => return some (← beginning' c)) := by
  refine (withMore_skipTrivia .standard hle).bind fun _ => WithMore.after _ fun o => ?_
  cases o with
  | none => exact WithMore.refl _
  | some c => exact (hbegin c).bind fun _ => WithMore.refl _

theorem withMore_bindingBeginning (c : Char) :
    WithMore (Binding.beginning limit c : Scan σ ε Binding.Token) (Binding.beginning more c) := by
  have hrun := withMore_takeWhile (σ := σ) (ε := ε) hle
  refine WithMore.after _ fun _ => WithMore.ite _ (WithMore.refl _) ?_
  refine WithMore.ite _ ((hrun _).bind fun _ => WithMore.refl _) ?_
  refine WithMore.ite _ ((hrun _).bind fun _ => WithMore.refl _) ?_
  refine WithMore.after _ fun _ => WithMore.ite _ ?_ (WithMore.refl _)
  exact (hrun _).bind fun _ => WithMore.refl _

theorem withMore_bindingNext :
    WithMore (Binding.next limit : Scan σ ε (Option Binding.Token)) (Binding.next more) :=
  withMore_next hle (withMore_bindingBeginning hle)

theorem withMore_listing :
    WithMore (Binding.listing limit : Scan σ ε (List Char)) (Binding.listing more) :=
  WithMore.map ((withMore_collect (withMore_bindingNext hle) hle).bind fun _ => WithMore.refl _) _

theorem withMore_settingsBeginning (c : Char) :
    WithMore (Settings.beginning limit c : Scan σ ε Settings.Token)
      (Settings.beginning more c) := by
  have hrun := withMore_takeWhile (σ := σ) (ε := ε) hle
  refine WithMore.after _ fun o => ?_
  cases o with
  | some k => exact WithMore.refl _
  | none =>
    refine WithMore.ite _ ((hrun _).bind fun _ => WithMore.refl _) ?_
    refine WithMore.ite _ ((hrun _).bind fun _ => WithMore.refl _) ?_
    refine WithMore.after _ fun _ => WithMore.ite _ ?_ (WithMore.refl _)
    exact (hrun _).bind fun _ => WithMore.refl _

theorem withMore_settingsNext :
    WithMore (Settings.next limit : Scan σ ε (Option Settings.Token)) (Settings.next more) :=
  withMore_next hle (withMore_settingsBeginning hle)

theorem withMore_tokens :
    WithMore (Settings.tokens limit : Scan σ ε (List Settings.Token × Option (ReadError ε)))
      (Settings.tokens more) := withMore_collect (withMore_settingsNext hle) hle

end

/-! ## a token takes a character -/

theorem le_of_taken {c : Char} {cs ds : List Char} {j : Nat} (hj : 0 < j)
    (h : ds.length + j = (c :: cs).length) : ds.length ≤ cs.length := by
  rw [List.length_cons] at h
  omega

section
variable {σ ε : Type} [Source σ ε] [Exhaustible σ] {n limit : Nat} (hn : 0 < n) {cs : List Char}
include hn

theorem uses_acceptWord (w cs : List Char) :
    Uses n 0 (step (acceptWord .standard w : Step σ ε Bool)) cs
      (fun b ds => if b then ds.length + w.length = cs.length else ds = cs) :=
  uses_accepting (leaving.atWord .standard w) (leaves_atWord hn .standard fun _ => trivial) cs

theorem uses_acceptText (s cs : List Char) :
    Uses n 0 (step (acceptText s : Step σ ε Bool)) cs
      (fun b ds => if b then ds.length + s.length = cs.length else ds = cs) :=
  uses_accepting (leaving.atText s) (leaves_atText hn fun _ => trivial) cs

omit hn in
theorem uses_acceptChar (c : Char) (cs : List Char) :
    Uses n 0 (step (acceptChar c : Step σ ε Bool)) cs
      (fun b ds => if b then ds.length + 1 = cs.length else ds = cs) :=
  uses_accepting (leaving.atNth 0 c) (leaves_atNth (k := 0) (fun _ => trivial) c) cs

omit hn in
theorem uses_run {α : Type} {p : Char → Bool} {c : Char} (hp : p c = true)
    (hlimit : (c :: cs).length < limit) (f : List Char → α) :
    Uses n 0 (do return f (← takeWhile p limit) : Scan σ ε α) (c :: cs)
      (fun _ ds => ds.length ≤ cs.length) := by
  refine (uses_takeWhile p _ hlimit).bind fun run ds hds => uses_pure ?_
  rw [hds, List.dropWhile_cons_of_pos hp]
  exact Rules.length_dropWhile_le p cs

omit hn in
theorem uses_quoted {α : Type} {rest : Scan σ ε α} {c : Char} (p : Char → Bool) (q : Char)
    (hlimit : (c :: cs).length < limit) (f : List Char → α)
    (hrest : Uses n 0 rest (c :: cs) (fun _ ds => ds.length ≤ cs.length)) :
    Uses n 0 (do
        if ← step (acceptChar q) then
          let run ← takeWhile p limit
          let _ ← step (acceptChar q)
          return f run
        rest : Scan σ ε α) (c :: cs) (fun _ ds => ds.length ≤ cs.length) := by
  refine (uses_acceptChar q (c :: cs)).bind fun opened ds hds => ?_
  cases opened with
  | false =>
    obtain rfl : ds = c :: cs := hds
    exact hrest
  | true =>
    have hle : ds.length ≤ cs.length := le_of_taken Nat.one_pos hds
    refine (uses_takeWhile p ds (Nat.lt_of_le_of_lt hle (Nat.lt_of_succ_lt hlimit))).bind
      fun run es hes => ?_
    have hle : es.length ≤ cs.length := by
      rw [hes]
      exact Nat.le_trans (Rules.length_dropWhile_le p ds) hle
    refine (uses_acceptChar q es).bind fun closed fs hfs => uses_pure ?_
    cases closed with
    | true => exact Nat.le_trans (Nat.le_of_succ_le (Nat.le_of_eq hfs)) hle
    | false => exact Nat.le_trans (Nat.le_of_eq (congrArg List.length hfs)) hle

omit hn in
theorem uses_single {α : Type} (c : Char) (a : α) :
    Uses n 0 (do
        let _ ← step read
        return a : Scan σ ε α) (c :: cs) (fun _ ds => ds.length ≤ cs.length) :=
  (uses_read (c :: cs)).bind fun _ _ hds =>
    uses_pure (Nat.le_of_eq (congrArg List.length hds))

theorem uses_next {T : Type} {beginning : Char → Scan σ ε T}
    (hbegin : ∀ {c : Char} {cs : List Char}, (c :: cs).length < limit →
      Uses n 0 (beginning c) (c :: cs) (fun _ ds => ds.length ≤ cs.length))
    (hlimit : cs.length < limit) :
    Uses n 0
      (do
        skipTrivia .standard limit
        match ← step peek with
        | none => return none
        | some c => return some (← beginning c))
      cs (fun o ds => ds.length + o.isSome.toNat ≤ cs.length) := by
  refine (uses_skipTrivia hn .standard cs hlimit).bind fun _ ds hds => ?_
  refine (uses_peek ds).bind fun o es ho => ?_
  obtain ⟨rfl, rfl⟩ := ho
  cases es with
  | nil => exact uses_pure hds
  | cons c es =>
    refine (hbegin (Nat.lt_of_le_of_lt hds hlimit)).bind fun t fs hfs => ?_
    exact uses_pure (Nat.le_trans (Nat.succ_le_succ hfs) hds)

theorem uses_bindingBeginning {c : Char} (hlimit : (c :: cs).length < limit) :
    Uses n 0 (Binding.beginning limit c : Scan σ ε Binding.Token) (c :: cs)
      (fun _ ds => ds.length ≤ cs.length) := by
  refine (uses_acceptWord hn ['l', 'e', 't'] (c :: cs)).bind fun word ds hds => ?_
  cases word with
  | true => exact uses_pure (le_of_taken (by decide) hds)
  | false =>
    obtain rfl : ds = c :: cs := hds
    refine uses_ite nofun fun _ => ?_
    refine uses_ite (fun hc => ?_) fun _ => uses_ite (fun hc => ?_) fun _ => ?_
    · exact uses_run (Character.isNameChar_of_isNameStart hc) hlimit _
    · exact uses_run hc hlimit _
    · refine uses_quoted _ '"' hlimit _ ?_
      refine (uses_acceptText hn ['=', '>'] (c :: cs)).bind fun arrow ds hds => ?_
      cases arrow with
      | true => exact uses_pure (le_of_taken (by decide) hds)
      | false =>
        obtain rfl : ds = c :: cs := hds
        exact uses_single c _

theorem uses_bindingNext (hlimit : cs.length < limit) :
    Uses n 0 (Binding.next limit : Scan σ ε (Option Binding.Token)) cs
      (fun o ds => ds.length + o.isSome.toNat ≤ cs.length) :=
  uses_next hn (uses_bindingBeginning hn) hlimit

theorem uses_acceptKeyword (ks : List Settings.Keyword) (cs : List Char) :
    Uses n 0 (step (Settings.acceptKeyword ks : Step σ ε (Option Settings.Keyword))) cs
      (fun o ds => match o with
        | some k => ds.length + k.spelling.length = cs.length
        | none => ds = cs) := by
  induction ks with
  | nil => exact uses_pure rfl
  | cons k ks ih =>
    rw [Settings.acceptKeyword, Scan.step_bind]
    refine (uses_acceptWord hn k.spelling cs).bind fun found ds hds => ?_
    cases found with
    | true => exact uses_pure hds
    | false =>
      obtain rfl : ds = cs := hds
      exact ih

theorem uses_settingsBeginning {c : Char} (hlimit : (c :: cs).length < limit) :
    Uses n 0 (Settings.beginning limit c : Scan σ ε Settings.Token) (c :: cs)
      (fun _ ds => ds.length ≤ cs.length) := by
  refine (uses_acceptKeyword hn Settings.Keyword.all (c :: cs)).bind fun o ds hds => ?_
  cases o with
  | some k => exact uses_pure (le_of_taken (by cases k <;> decide) hds)
  | none =>
    obtain rfl : ds = c :: cs := hds
    refine uses_ite (fun hc => ?_) fun _ => uses_ite (fun hc => ?_) fun _ => ?_
    · exact uses_run (Character.isNameChar_of_isNameStart hc) hlimit _
    · exact uses_run hc hlimit _
    · exact uses_quoted _ '"' hlimit _ (uses_single c _)

theorem uses_settingsNext (hlimit : cs.length < limit) :
    Uses n 0 (Settings.next limit : Scan σ ε (Option Settings.Token)) cs
      (fun o ds => ds.length + o.isSome.toNat ≤ cs.length) :=
  uses_next hn (uses_settingsBeginning hn) hlimit

end

/-! ## collecting tokens -/

section
variable {σ ε α : Type} [Source σ ε] [Exhaustible σ] {n limit : Nat} {r : Reader σ}

/-- what takes a character each time is collected to its end, or up to a failure, and there is no
more of it than there are characters to come -/
theorem collected_le {next : Scan σ ε (Option α)} {j : Nat}
    (hnext : ∀ cs, cs.length < j →
      Uses n 0 next cs (fun o ds => ds.length + o.isSome.toNat ≤ cs.length))
    (hr : Stocked n 0 r) (hlimit : (characters r.toCome).length < limit)
    (hj : (characters r.toCome).length < j) (taken : List α) :
    ∃ ts e s, Scan.iterate (collectRound next) limit taken r = .ok (taken.reverse ++ ts, e) s ∧
      ts.length ≤ (characters r.toCome).length := by
  induction limit generalizing r taken with
  | zero => exact absurd hlimit (Nat.not_lt_zero _)
  | succ limit ih =>
    have hround := hnext _ hj r hr rfl
    rw [iterate_collectRound]
    cases h : next r with
    | error d s =>
      rw [h] at hround
      cases d with
      | error e => exact ⟨[], some e, s, by rw [List.append_nil], Nat.zero_le _⟩
      | limit => exact absurd rfl hround
    | ok o s =>
      rw [h] at hround
      obtain ⟨hs, hle⟩ := hround
      cases o with
      | none => exact ⟨[], none, s, by rw [List.append_nil], Nat.zero_le _⟩
      | some a =>
        have hlt : (characters s.toCome).length < (characters r.toCome).length := hle
        obtain ⟨ts, e, t, ht, hts⟩ := ih hs (by omega) (by omega) (a :: taken)
        refine ⟨a :: ts, e, t, ?_, Nat.le_trans (Nat.succ_le_succ hts) hlt⟩
        rw [List.reverse_cons, List.append_assoc] at ht
        exact ht

/-! ## coming to an end -/

/-- given more rounds than there are characters to come, the scan does not run out of them, and how
many more they are makes no difference -/
def Ends (scan : Nat → Scan σ ε α) (r : Reader σ) : Prop :=
  ∃ x, (∀ s, x ≠ .error .limit s) ∧ ∀ limit, (characters r.toCome).length < limit → scan limit r = x

/-- from every reader in order, a round that goes on leaves fewer characters to come -/
def Advances {β : Type} (round : α → Scan σ ε (Scan.Round α β)) : Prop :=
  ∀ (r s : Reader σ) (a b : α), r.buffer.Valid → round a r = .ok (.again b) s →
    (characters s.toCome).length < (characters r.toCome).length

theorem ends_of_withMore {scan : Nat → Scan σ ε α}
    (hmore : ∀ limit more, limit ≤ more → WithMore (scan limit) (scan more))
    (h : ∀ s, scan ((characters r.toCome).length + 1) r ≠ .error .limit s) : Ends scan r :=
  ⟨_, h, fun _ hlt => (hmore _ _ hlt).eq h⟩

theorem ends_of_uses {scan : Nat → Scan σ ε α} {post : List Char → α → List Char → Prop}
    (hmore : ∀ limit more, limit ≤ more → WithMore (scan limit) (scan more))
    (huses : ∀ limit cs, cs.length < limit → Uses n 0 (scan limit) cs (post cs))
    (hr : Stocked n 0 r) : Ends scan r := by
  refine ends_of_withMore hmore fun s hs => ?_
  have hres := huses _ _ (Nat.lt_succ_self _) r hr rfl
  rw [hs] at hres
  exact hres rfl

section
variable (hn : 0 < n) (hr : Stocked n 0 r)
include hn hr

theorem collected_bindings (hlimit : (characters r.toCome).length < limit) :
    ∃ ts e s, collect (Binding.next limit) limit r = .ok (ts, e) s ∧
      ts.length ≤ (characters r.toCome).length :=
  collected_le (fun _ => uses_bindingNext hn) hr hlimit hlimit []

theorem collected_settings (hlimit : (characters r.toCome).length < limit) :
    ∃ ts e s, collect (Settings.next limit) limit r = .ok (ts, e) s ∧
      ts.length ≤ (characters r.toCome).length :=
  collected_le (fun _ => uses_settingsNext hn) hr hlimit hlimit []

theorem ends_listing : Ends Binding.listing r := by
  refine ends_of_withMore (fun _ _ => withMore_listing) fun s hs => ?_
  obtain ⟨ts, e, q, hq, -⟩ := collected_bindings hn hr (Nat.lt_succ_self _)
  rw [Binding.listing, map_apply, Binding.tokens, bind_apply, hq] at hs
  cases e <;> cases hs

theorem ends_tokens : Ends Settings.tokens r := by
  refine ends_of_withMore (fun _ _ => withMore_tokens) fun s hs => ?_
  obtain ⟨ts, e, q, hq, -⟩ := collected_settings hn hr (Nat.lt_succ_self _)
  rw [Settings.tokens, hq] at hs
  cases hs

end

theorem post_of_uses {scan : Nat → Scan σ ε α} {post : List Char → α → List Char → Prop}
    (hmore : ∀ limit more, limit ≤ more → WithMore (scan limit) (scan more))
    (huses : ∀ n, 0 < n → ∀ limit cs, cs.length < limit → Uses n 0 (scan limit) cs (post cs))
    (hvalid : r.buffer.Valid) {a : α} {s : Reader σ} (h : scan limit r = .ok a s) :
    post (characters r.toCome) a (characters s.toCome) := by
  have hstocked : Stocked r.capacity 0 r := ⟨hvalid, rfl, Nat.zero_le _⟩
  let more := max limit ((characters r.toCome).length + 1)
  have hres : scan more r = .ok a s := by
    rw [← h]
    exact (hmore limit more (Nat.le_max_left _ _)).eq (by rw [h]; exact nofun)
  have hpost := huses r.capacity hvalid.capacity_pos more _ (Nat.le_max_right _ _) r hstocked rfl
  rw [hres] at hpost
  exact hpost.2

theorem advances_lineRound (rules : Rules) : Advances (lineRound (σ := σ) (ε := ε) rules) := by
  intro r s a b hvalid h
  have hround := uses_lineRound (ε := ε) hvalid.capacity_pos rules _ a r
    ⟨hvalid, rfl, Nat.zero_le _⟩ rfl
  rw [h] at hround
  exact hround.2

theorem advances_triviaRound (rules : Rules) (limit : Nat) :
    Advances (triviaRound (σ := σ) (ε := ε) rules limit) := by
  intro r s a b hvalid h
  exact post_of_uses (fun _ _ hle => withMore_triviaRound rules hle a)
    (fun n hn _ cs hlimit => uses_triviaRound hn rules cs hlimit a) hvalid h

theorem advances_collectRound {next : Nat → Scan σ ε (Option α)}
    (hmore : ∀ limit more, limit ≤ more → WithMore (next limit) (next more))
    (huses : ∀ n, 0 < n → ∀ limit cs, cs.length < limit →
      Uses n 0 (next limit) cs (fun o ds => ds.length + o.isSome.toNat ≤ cs.length))
    (limit : Nat) : Advances (collectRound (next limit)) := by
  intro r s taken b hvalid h
  rw [collectRound, bind_apply, Scan.attempt] at h
  cases hnext : next limit r with
  | error d t =>
    rw [hnext] at h
    cases d <;> cases h
  | ok o t =>
    rw [hnext] at h
    cases o with
    | none => cases h
    | some a =>
      cases h
      exact post_of_uses hmore huses hvalid hnext

end

/-- **Scans and tokenizers come to an end.**  Over every source of which only so many characters and
failures can be had before its end, under all rules, with any capacity and after any run: skipping a
comment, skipping trivia and both tokenizers come to an end, by themselves or by a failure.  For that
they need no more rounds than one for each character to come and one to stop, and no more tokens are
collected than there are characters.  Every round that goes on, of a comment, of trivia or of a
tokenizer, takes a character at least. -/
theorem every_scan_ends {σ ε : Type} [Source σ ε] [Exhaustible σ] (s : σ) {n : Nat} (hn : 0 < n)
    (rules : Rules) (steps : Nat) (ops : List Op) :
    (∃ r₀, create s n = .ok r₀ ∧
      let r := (run rules steps ops r₀).2
      Ends (skipComment rules) r ∧ Ends (skipTrivia rules) r ∧ Ends Binding.listing r ∧
        Ends Settings.tokens r ∧
        ∀ limit, (characters r.toCome).length < limit →
          (∃ ts e q, collect (Binding.next limit) limit r = .ok (ts, e) q ∧
            ts.length ≤ (characters r.toCome).length) ∧
          ∃ ts e q, collect (Settings.next limit) limit r = .ok (ts, e) q ∧
            ts.length ≤ (characters r.toCome).length) ∧
      Advances (lineRound (σ := σ) (ε := ε) rules) ∧
      ∀ limit, Advances (triviaRound (σ := σ) (ε := ε) rules limit) ∧
        Advances (collectRound (Binding.next (σ := σ) (ε := ε) limit)) ∧
        Advances (collectRound (Settings.next (σ := σ) (ε := ε) limit)) := by
  refine ⟨⟨_, create_eq s hn, ?_⟩, advances_lineRound rules, fun limit =>
    ⟨advances_triviaRound rules limit, ?_, ?_⟩⟩
  · intro r
    obtain ⟨hvalid, hcapacity⟩ := valid_run (r := ⟨s, Buffer.ofCapacity n, false, false⟩) rules
      steps ops (Buffer.valid_ofCapacity hn)
    have hr : Stocked n 0 r :=
      ⟨hvalid, hcapacity.trans (Array.size_replicate (n := n)), Nat.zero_le _⟩
    refine ⟨?_, ?_, ends_listing hn hr, ends_tokens hn hr, fun limit hlimit =>
      ⟨collected_bindings hn hr hlimit, collected_settings hn hr hlimit⟩⟩
    · exact ends_of_uses (fun _ _ => withMore_skipComment rules)
        (fun _ cs => uses_skipComment hn rules cs) hr
    · exact ends_of_uses (fun _ _ => withMore_skipTrivia rules)
        (fun _ cs => uses_skipTrivia hn rules cs) hr
  · exact advances_collectRound (fun _ _ => withMore_bindingNext)
      (fun _ hn _ _ => uses_bindingNext hn) limit
  · exact advances_collectRound (fun _ _ => withMore_settingsNext)
      (fun _ hn _ _ => uses_settingsNext hn) limit

/-- comments that begin with a blank and a line end, a failure, and an end that is not the last -/
theorem every_scan_ends_abc :
    let script : Script String := ⟨[.char 'x', .char ' ', .char '\n', .char 'a', .char ' ',
      .failure "slow", .char 'b', .stop, .char 'c']⟩
    let rules : Rules := { commentStart := [' ', '\n'] }
    0 < 2 ∧ ∃ r₀, create script 2 = .ok r₀ ∧
      let r := (run rules 9 [.mark 2, .read] r₀).2
      (characters r.toCome).length < 9 ∧ Ends (skipTrivia rules) r ∧ Ends Settings.tokens r ∧
        ∃ e q, collect (Settings.next 9) 9 r = .ok ([.name ['a']], e) q ∧
          [Settings.Token.name ['a']].length ≤ (characters r.toCome).length := by
  intro script rules
  obtain ⟨⟨r₀, hr₀, -, htrivia, -, htokens, hcollected⟩, -⟩ :=
    every_scan_ends script Nat.two_pos rules 9 [.mark 2, .read]
  refine ⟨Nat.two_pos, r₀, hr₀, ?_⟩
  rw [create_eq _ Nat.two_pos] at hr₀
  cases hr₀
  have hrounds : (run (ε := String) rules 9 [.mark 2, .read]
      ⟨script, Buffer.ofCapacity 2, false, false⟩).2.rounds ≤ 9 := by decide +kernel
  have hfew := Nat.lt_of_le_of_lt (List.length_filterMap_le Except.toOption _)
    (Nat.lt_of_lt_of_le (length_toCome_lt _) hrounds)
  obtain ⟨-, ts, e, q, hq, hle⟩ := hcollected 9 hfew
  have hts : (outcomeOf (collect (Settings.next 9) 9 (run (ε := String) rules 9 [.mark 2, .read]
      ⟨script, Buffer.ofCapacity 2, false, false⟩).2)).toOption.map Prod.fst =
        some [.name ['a']] := by decide +kernel
  rw [hq] at hts
  obtain rfl : ts = [.name ['a']] := Option.some.inj hts
  exact ⟨hfew, htrivia, htokens, e, q, hq, hle⟩

end Reader

end Lookahead
