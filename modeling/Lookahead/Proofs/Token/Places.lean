import Lookahead.Proofs.Token.Lexing

/-!
# How far a text is read

Cutting off one token after another, a text is left at one place after another, each the beginning of
a token or the end.  Whether a reader can tell what begins at a place is decided by how far it looks
ahead: it reads on, token by token, up to the first place where it cannot tell, and stays there.

* `Reaches`             the places of a text, and the tokens before each;
* `Earliest`            the first place of a kind;
* `BeginsUnless`        a program that reads a token, except at places left open, which it leaves so;
* `collectRounds_cases` it reads all tokens, or those before the first place left open.
-/

namespace Lookahead

open Scan (step)

variable {T : Type} {first : Char → List Char → T × List Char} {lex : List Char → List T}
  {cs ds place : List Char} {c : Char} {ts : List T}

/-! ## places -/

/-- with these tokens cut off, and the trivia after them, this is left of the text -/
inductive Reaches (first : Char → List Char → T × List Char) :
    List Char → List T → List Char → Prop where
  | start (cs : List Char) : Reaches first cs [] (Rules.standard.dropTrivia cs)
  | token {cs ds place : List Char} {c : Char} {ts : List T}
      (begins : Rules.standard.dropTrivia cs = c :: ds)
      (more : Reaches first (first c ds).2 ts place) :
      Reaches first cs ((first c ds).1 :: ts) place

/-- the first place with `P` that cutting off tokens comes to -/
structure Earliest (first : Char → List Char → T × List Char) (P : List Char → Prop)
    (text : List Char) (ts : List T) (place : List Char) : Prop where
  reached : Reaches first text ts place
  holds : P place
  least : ∀ us other, Reaches first text us other → P other → ts.length ≤ us.length

theorem Reaches.of_nil (h : Reaches first cs ts place) (hcs : Rules.standard.dropTrivia cs = []) :
    place = [] := by
  cases h with
  | start => exact hcs
  | token hbegins _ => cases hcs.symm.trans hbegins

theorem Reaches.of_cons (h : Reaches first cs ts place)
    (hcs : Rules.standard.dropTrivia cs = c :: ds) :
    (ts = [] ∧ place = c :: ds) ∨
      ∃ us, ts = (first c ds).1 :: us ∧ Reaches first (first c ds).2 us place := by
  cases h with
  | start => exact .inl ⟨rfl, hcs⟩
  | token hbegins hmore =>
    cases hcs.symm.trans hbegins
    exact .inr ⟨_, rfl, hmore⟩

theorem Lexes.lex_dropTrivia (h : Lexes first lex) (cs : List Char) :
    lex (Rules.standard.dropTrivia cs) = lex cs := by
  have hagain : Rules.standard.dropTrivia (Rules.standard.dropTrivia cs) =
      Rules.standard.dropTrivia cs := Rules.dropTrivia_solid (Rules.solid_dropTrivia cs)
  cases hcs : Rules.standard.dropTrivia cs with
  | nil =>
    rw [hcs] at hagain
    rw [h.nil hcs, h.nil hagain]
  | cons c ds =>
    rw [hcs] at hagain
    rw [h.cons hcs, h.cons hagain]

theorem Lexes.lex_of_reaches (h : Lexes first lex) (hplace : Reaches first cs ts place) :
    lex cs = ts ++ lex place := by
  induction hplace with
  | start cs => exact (h.lex_dropTrivia cs).symm
  | token hbegins _ ih => rw [h.cons hbegins, ih, List.cons_append]

section
variable {P : List Char → Prop}

theorem earliest_start (hcs : Rules.standard.dropTrivia cs = c :: ds) (hP : P (c :: ds)) :
    Earliest first P cs [] (c :: ds) :=
  ⟨hcs ▸ .start cs, hP, fun _ _ _ _ => Nat.zero_le _⟩

theorem Earliest.token (h : Earliest first P (first c ds).2 ts place)
    (hcs : Rules.standard.dropTrivia cs = c :: ds) (hP : ¬ P (c :: ds)) :
    Earliest first P cs ((first c ds).1 :: ts) place := by
  refine ⟨.token hcs h.reached, h.holds, fun us other hother hholds => ?_⟩
  obtain ⟨-, rfl⟩ | ⟨vs, rfl, hmore⟩ := hother.of_cons hcs
  · exact absurd hholds hP
  · exact Nat.succ_le_succ (h.least vs other hmore hholds)

end

/-! ## reading from place to place -/

namespace Reader

variable {n limit : Nat} {unsure : List Char → Prop} {beginning : Char → Scan Text Empty T}

/-- `beginning` reads the token that `first` finds, wherever there are rounds enough, but is refused
at the places left open, and reads nothing there -/
structure BeginsUnless (unsure : List Char → Prop) (first : Char → List Char → T × List Char)
    (n limit : Nat) (beginning : Char → Scan Text Empty T) : Prop where
  gives : ∀ {c : Char} {cs : List Char}, (c :: cs).length < limit → ¬ unsure (c :: cs) →
    Gives (Ahead n (c :: cs)) (beginning c) (first c cs).1 (Ahead n (first c cs).2)
  refuses : ∀ {c : Char} {cs : List Char}, unsure (c :: cs) →
    Refuses (Ahead n (c :: cs)) (beginning c) (.lookahead (n + 1) n) (Ahead n (c :: cs))

theorem refuses_nextBy {e : ReadError Empty} (hn : 1 ≤ n) (hlimit : cs.length < limit)
    (hcs : Rules.standard.dropTrivia cs = c :: ds)
    (hbegin : Refuses (Ahead n (c :: ds)) (beginning c) e (Ahead n (c :: ds))) :
    Refuses (Ahead n cs) (nextBy beginning limit) e (Ahead n (c :: ds)) := by
  have htrivia : Gives (Ahead n cs) (skipTrivia .standard limit) () _ :=
    gives_skipTrivia hn hlimit
  rw [hcs] at htrivia
  exact htrivia.refuses (gives_peek.refuses (hbegin.bind _))

/-- the tokens read are those of the whole text, and no place was left open, or those before the first
place left open, where the reader stays -/
theorem collectRounds_cases (h : Lexes first lex) (hend : ¬ unsure [])
    (hbegin : BeginsUnless unsure first n limit beginning) (hn : 1 ≤ n) (rounds : Nat)
    (taken : List T) (hrounds : cs.length < rounds) (hlimit : cs.length < limit) (r : Reader Text)
    (hr : Ahead n cs r) :
    (∃ r', Scan.iterate (collectRound (nextBy beginning limit)) rounds taken r =
        .ok (taken.reverse ++ lex cs, none) r' ∧ Through r' ∧
      ∀ ts place, Reaches first cs ts place → ¬ unsure place) ∨
    ∃ ts place r', Scan.iterate (collectRound (nextBy beginning limit)) rounds taken r =
        .ok (taken.reverse ++ ts, some (.lookahead (n + 1) n)) r' ∧ Ahead n place r' ∧
      Earliest first unsure cs ts place := by
  obtain ⟨rounds, rfl⟩ := Nat.exists_eq_add_one_of_ne_zero (Nat.ne_zero_of_lt hrounds)
  -- one round takes one token off the text, so the rounds left stay more than the characters left
  induction cs using h.induction generalizing rounds taken r with
  | nil cs hcs =>
    obtain ⟨r', hnext, hthrough⟩ := gives_nextBy_end beginning hn hlimit hcs r hr
    refine .inl ⟨r', ?_, hthrough, fun ts place hplace => hplace.of_nil hcs ▸ hend⟩
    rw [iterate_collectRound, hnext, h.nil hcs, List.append_nil]
  | cons cs c ds hcs ih =>
    have hless := h.length_lt hcs
    have hwhole : (c :: ds).length < limit :=
      Nat.lt_of_le_of_lt (hcs ▸ Rules.length_dropTrivia_le Rules.standard cs) hlimit
    by_cases hopen : unsure (c :: ds)
    · obtain ⟨r', hnext, hr'⟩ := refuses_nextBy hn hlimit hcs (hbegin.refuses hopen) r hr
      refine .inr ⟨[], c :: ds, r', ?_, hr', earliest_start hcs hopen⟩
      rw [iterate_collectRound, hnext, List.append_nil]
    obtain ⟨r', hnext, hr'⟩ := gives_nextBy hn hlimit hcs (hbegin.gives hwhole hopen) r hr
    obtain ⟨rounds, rfl⟩ := Nat.exists_eq_add_one_of_ne_zero (show rounds ≠ 0 by omega)
    rw [iterate_collectRound, hnext, h.cons hcs]
    dsimp only
    have hreverse : ∀ us : List T, ((first c ds).1 :: taken).reverse ++ us =
        taken.reverse ++ (first c ds).1 :: us := fun us => by
      rw [List.reverse_cons, List.append_assoc, List.singleton_append]
    obtain ⟨q, hq, hthrough, hclear⟩ | ⟨us, place, q, hq, hplace, hearliest⟩ :=
      ih ((first c ds).1 :: taken) (by omega) r' hr' rounds (by omega)
    · refine .inl ⟨q, hreverse _ ▸ hq, hthrough, fun ts place hplace => ?_⟩
      obtain ⟨-, rfl⟩ | ⟨us, -, hmore⟩ := hplace.of_cons hcs
      · exact hopen
      · exact hclear us place hmore
    · exact .inr ⟨_, place, q, hreverse us ▸ hq, hplace, hearliest.token hcs hopen⟩

/-- **Reading one token after another reads the text to its end.** -/
theorem gives_tokens (h : Lexes first lex) (hbegin : Begins first n limit beginning)
    (hn : 1 ≤ n) (hlimit : cs.length < limit) :
    Gives (Ahead n cs) (collect (nextBy beginning limit) limit) (lex cs, none) Through := by
  have hunless : BeginsUnless (fun _ => False) first n limit beginning :=
    ⟨fun hlen _ => hbegin _ _ hlen, fun hno => hno.elim⟩
  intro r hr
  obtain ⟨r', hr', hthrough, -⟩ | ⟨_, _, _, -, -, hno⟩ :=
    collectRounds_cases h id hunless hn limit [] hlimit hlimit r hr
  · exact ⟨r', hr', hthrough⟩
  · exact hno.holds.elim

end Reader

end Lookahead
