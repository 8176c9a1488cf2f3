import Lookahead.Proofs.Reader.Ahead
import Lookahead.Proofs.Trivia

/-!
# Tokens with trivia between them

A language of tokens is told by the token that begins at the front of a text, and what is left after
it.  The tokens of a whole text are then cut off one after another, with trivia before each and after
the last.  A program that reads such a token after trivia reads all of them.

* `Lexes`              a text is cut into tokens one after another;
* `Splits`             a text, as trivia and the spelling of each token;
* `splits_iff`         there is one way to split a text, and it is how the text is cut;
* `OpenWord`, `OpenText`   what a limited view of a text leaves open;
* `gives_acceptName`   a word is accepted where it is the whole run of name characters;
* `gives_nextBy`       a token is read after trivia.
-/

namespace Lookahead

open Scan (step)

variable {T : Type} {first : Char → List Char → T × List Char} {lex : List Char → List T}
  {cs ds : List Char} {c : Char}

/-! ## cutting a text into tokens -/

/-- `lex` cuts off one token after another, each the one that `first` finds after trivia -/
structure Lexes (first : Char → List Char → T × List Char) (lex : List Char → List T) : Prop where
  nil : ∀ {cs : List Char}, Rules.standard.dropTrivia cs = [] → lex cs = []
  cons : ∀ {cs ds : List Char} {c : Char}, Rules.standard.dropTrivia cs = c :: ds →
    lex cs = (first c ds).1 :: lex (first c ds).2
  length_le : ∀ (c : Char) (cs : List Char), (first c cs).2.length ≤ cs.length

namespace Lexes

theorem length_lt (h : Lexes first lex) (hcs : Rules.standard.dropTrivia cs = c :: ds) :
    (first c ds).2.length < cs.length := by
  have htoken := h.length_le c ds
  have htrivia := Rules.length_dropTrivia_le Rules.standard cs
  rw [hcs, List.length_cons] at htrivia
  omega

/-- what holds of trivia, and of a text where it holds after its first token, holds of all texts -/
theorem induction (h : Lexes first lex) {P : List Char → Prop}
    (nil : ∀ cs, Rules.standard.dropTrivia cs = [] → P cs)
    (cons : ∀ cs c ds, Rules.standard.dropTrivia cs = c :: ds → P (first c ds).2 → P cs)
    (cs : List Char) : P cs := by
  induction hlen : cs.length using Nat.strongRecOn generalizing cs with
  | ind len ih =>
    cases hcs : Rules.standard.dropTrivia cs with
    | nil => exact nil cs hcs
    | cons c ds => exact cons cs c ds hcs (ih _ (hlen ▸ h.length_lt hcs) _ rfl)

end Lexes

/-! ## splitting a text -/

/-- the text is a sequence of tokens, with trivia before each and after the last.  `Spans t lexeme
rest` says that `lexeme` spells the token `t` where `rest` follows. -/
inductive Splits (Spans : T → List Char → List Char → Prop) : List Char → List T → Prop where
  | done {skipped : List Char} (trivia : Trivia [] skipped) : Splits Spans skipped []
  | token {skipped lexeme rest : List Char} {t : T} {ts : List T}
      (trivia : Trivia (lexeme ++ rest) skipped) (solid : Solid (lexeme ++ rest))
      (spans : Spans t lexeme rest) (more : Splits Spans rest ts) :
      Splits Spans (skipped ++ (lexeme ++ rest)) (t :: ts)

/-- the characters that `first` cuts off spell the token -/
def Spelled (first : Char → List Char → T × List Char) (Spans : T → List Char → List Char → Prop)
    (c : Char) (cs : List Char) : Prop :=
  ∃ lexeme, lexeme ++ (first c cs).2 = c :: cs ∧ Spans (first c cs).1 lexeme (first c cs).2

/-- `first` cuts a token off where it is spelled, and nowhere else -/
structure Spells (first : Char → List Char → T × List Char)
    (Spans : T → List Char → List Char → Prop) : Prop where
  sound : ∀ (c : Char) (cs : List Char), Spelled first Spans c cs
  complete : ∀ {t : T} {lexeme rest : List Char}, Spans t lexeme rest →
    ∃ c cs, lexeme ++ rest = c :: cs ∧ first c cs = (t, rest)

section
variable {Spans : T → List Char → List Char → Prop}

theorem solid_nil : Solid [] := fun _ hc => nomatch hc

theorem Lexes.splits (h : Lexes first lex) (hspells : Spells first Spans) (text : List Char) :
    Splits Spans text (lex text) := by
  induction text using h.induction with
  | nil cs hcs =>
    obtain ⟨skipped, htext, htrivia, -⟩ := Rules.dropTrivia_eq_iff.1 hcs
    rw [h.nil hcs, htext, List.append_nil]
    exact .done htrivia
  | cons cs c ds hcs ih =>
    obtain ⟨skipped, htext, htrivia, hsolid⟩ := Rules.dropTrivia_eq_iff.1 hcs
    obtain ⟨lexeme, hwhole, hspans⟩ := hspells.sound c ds
    rw [h.cons hcs, htext, ← hwhole]
    rw [← hwhole] at htrivia hsolid
    exact .token htrivia hsolid hspans ih

theorem Lexes.eq_lex (h : Lexes first lex) (hspells : Spells first Spans) {text : List Char}
    {ts : List T} (hsplits : Splits Spans text ts) : ts = lex text := by
  induction hsplits with
  | @done skipped htrivia =>
    have hnil := Rules.dropTrivia_append htrivia solid_nil
    rw [List.append_nil] at hnil
    exact (h.nil hnil).symm
  | @token skipped lexeme rest t ts htrivia hsolid hspans _ ih =>
    obtain ⟨c, cs, hcs, hfirst⟩ := hspells.complete hspans
    have hcons := h.cons ((Rules.dropTrivia_append htrivia hsolid).trans hcs)
    rw [hcons, hfirst, ih]

/-- **A text is split into tokens in one way**, namely into those that are cut off it. -/
theorem Lexes.splits_iff (h : Lexes first lex) (hspells : Spells first Spans) {text : List Char}
    {ts : List T} : Splits Spans text ts ↔ ts = lex text :=
  ⟨h.eq_lex hspells, fun hts => hts ▸ h.splits hspells text⟩

end

/-! ## reading names -/

namespace Reader

variable {n limit : Nat} {w rest : List Char} (rules : Rules)

/-- so many characters of the text are those of the word, and the word has as many or more: whether
it stands here is decided further on, by its other characters or by the one after it -/
def OpenWord (n : Nat) (w cs : List Char) : Prop := n ≤ w.length ∧ w.take n <+: cs

/-- so many characters of the text are those of the pattern, and it has more -/
def OpenText (n : Nat) (s cs : List Char) : Prop := n < s.length ∧ s.take n <+: cs

theorem not_openWord (h : w.length < n) : ¬ OpenWord n w cs := fun ho =>
  absurd ho.1 (Nat.not_le_of_lt h)

/-- a pattern that is left open cannot be decided, any other one can -/
theorem sees_of_open {s : List Char} (h : OpenText n s cs) :
    sees n cs s = .error (.lookahead (n + 1) n) := by
  have hs : s ≠ [] := List.ne_nil_of_length_pos (Nat.zero_lt_of_lt h.1)
  exact (if_neg hs).trans (if_pos h)

theorem sees_of_not_open {s : List Char} (hs : s ≠ []) (h : ¬ OpenText n s cs) :
    sees n cs s = .ok (s.isPrefixOf cs) := (if_neg hs).trans (if_neg h)

theorem seesWord_of_open (hw : w ≠ []) (h : OpenWord n w cs) :
    seesWord rules n cs w = .error (.lookahead (n + 1) n) := by
  obtain ⟨hle, hfront⟩ := h
  rw [seesWord]
  by_cases hlt : n < w.length
  · rw [sees_of_open ⟨hlt, hfront⟩]
  · have hlen : w.length = n := Nat.le_antisymm (Nat.le_of_not_lt hlt) hle
    rw [← hlen, List.take_length] at hfront
    rw [Cursor.sees_of_front hw hfront (Nat.le_of_eq hlen)]
    dsimp only
    rw [if_pos hlen]

theorem seesWord_eq (cs : List Char) (hw : w ≠ []) (hnames : ∀ c ∈ w, rules.isNameChar c = true)
    (hsure : ¬ OpenWord n w cs) :
    seesWord rules n cs w = .ok (w == cs.takeWhile rules.isNameChar) := by
  rw [seesWord, sees_of_not_open hw fun ho => hsure ⟨Nat.le_of_lt ho.1, ho.2⟩]
  by_cases hfront : w <+: cs
  · have hlen : w.length < n := Nat.lt_of_not_le fun hle =>
      hsure ⟨hle, (List.take_prefix n w).trans hfront⟩
    obtain ⟨es, rfl⟩ := hfront
    rw [List.isPrefixOf_iff_prefix.2 (List.prefix_append w es),
      List.takeWhile_append_of_pos hnames]
    dsimp only
    rw [if_neg (Nat.ne_of_lt hlen), List.getElem?_append_right (Nat.le_refl _), Nat.sub_self]
    refine congrArg Except.ok ?_
    cases es with
    | nil => simp
    | cons c es => cases hc : rules.isNameChar c <;> simp [hc]
  · have hdiffers : w ≠ cs.takeWhile rules.isNameChar :=
      fun e => hfront (e ▸ List.takeWhile_prefix _)
    rw [Bool.eq_false_iff.2 (mt List.isPrefixOf_iff_prefix.1 hfront), beq_false_of_ne hdiffers]

theorem gives_acceptName (hw : w ≠ []) (hnames : ∀ c ∈ w, rules.isNameChar c = true)
    (hsure : ¬ OpenWord n w cs) :
    Gives (Ahead n cs) (step (acceptWord rules w)) (w == cs.takeWhile rules.isNameChar)
      (Ahead n (if w == cs.takeWhile rules.isNameChar then cs.dropWhile rules.isNameChar
        else cs)) := by
  have haccept := gives_acceptWord (seesWord_eq rules cs hw hnames hsure)
  cases hfound : w == cs.takeWhile rules.isNameChar with
  | false => rwa [hfound] at haccept
  | true =>
    have hdrop : cs.drop w.length = cs.dropWhile rules.isNameChar := by
      rw [eq_of_beq hfound, length_takeWhile, drop_of_suffix (List.dropWhile_suffix _)]
    rwa [hfound, if_pos rfl, hdrop] at haccept

theorem refuses_acceptName (hw : w ≠ []) (h : OpenWord n w cs) :
    Refuses (Ahead n cs) (step (acceptWord rules w)) (.lookahead (n + 1) n) (Ahead n cs) :=
  refuses_acceptWord (seesWord_of_open rules hw h)

theorem ne_takeWhile_of_open {v : List Char} (hopen : OpenWord n w cs)
    (hnames : ∀ c ∈ w, rules.isNameChar c = true) (hsure : ¬ OpenWord n v cs) :
    v ≠ cs.takeWhile rules.isNameChar := by
  rintro rfl
  obtain ⟨hle, es, rfl⟩ := hopen
  refine hsure ⟨?_, (List.take_prefix _ _).trans (List.takeWhile_prefix _)⟩
  have hrun : ∀ c ∈ w.take n, rules.isNameChar c = true := fun c hc =>
    hnames c (List.mem_of_mem_take hc)
  rw [List.takeWhile_append_of_pos hrun, List.length_append, List.length_take, Nat.min_eq_left hle]
  exact Nat.le_add_right _ _

/-! ## reading the parts of a token -/

variable {p : Char → Bool} {ch : Char}

theorem gives_run (h : p c = true) (hlimit : (c :: cs).length < limit) :
    Gives (Ahead n (c :: cs)) (takeWhile p limit) (c :: cs.takeWhile p)
      (Ahead n (cs.dropWhile p)) := by
  have hrun : Gives (Ahead n (c :: cs)) _ _ _ := gives_takeWhile p hlimit
  rwa [List.takeWhile_cons_of_pos h, List.dropWhile_cons_of_pos h] at hrun

theorem gives_acceptChar_self :
    Gives (Ahead n (ch :: cs)) (step (acceptChar ch)) true (Ahead n cs) := by
  have haccept : Gives (Ahead n (ch :: cs)) _ _ _ := gives_acceptChar ch
  rwa [List.head?_cons, beq_self_eq_true, if_pos rfl] at haccept

theorem gives_acceptChar_ne (h : cs.head? ≠ some ch) :
    Gives (Ahead n cs) (step (acceptChar ch)) false (Ahead n cs) := by
  have haccept : Gives (Ahead n cs) _ _ _ := gives_acceptChar ch
  rwa [beq_false_of_ne h] at haccept

/-! ## reading tokens -/

variable {t : T} {beginning : Char → Scan Text Empty T}

/-- the next token after trivia, if there is one; `beginning` reads the token that begins with a
character -/
def nextBy (beginning : Char → Scan Text Empty T) (limit : Nat) : Scan Text Empty (Option T) := do
  skipTrivia .standard limit
  match ← step peek with
  | none => return none
  | some c => return some (← beginning c)

theorem gives_nextBy_end (beginning : Char → Scan Text Empty T) (hn : 1 ≤ n)
    (hlimit : cs.length < limit) (hcs : Rules.standard.dropTrivia cs = []) :
    Gives (Ahead n cs) (nextBy beginning limit) none Through := by
  have htrivia : Gives (Ahead n cs) (skipTrivia .standard limit) () _ :=
    gives_skipTrivia hn hlimit
  rw [hcs] at htrivia
  exact htrivia.bind (gives_peek_end.bind (gives_pure none))

theorem gives_nextBy (hn : 1 ≤ n) (hlimit : cs.length < limit)
    (hcs : Rules.standard.dropTrivia cs = c :: ds)
    (hbegin : Gives (Ahead n (c :: ds)) (beginning c) t (Ahead n rest)) :
    Gives (Ahead n cs) (nextBy beginning limit) (some t) (Ahead n rest) := by
  have htrivia : Gives (Ahead n cs) (skipTrivia .standard limit) () _ :=
    gives_skipTrivia hn hlimit
  rw [hcs] at htrivia
  exact htrivia.bind (gives_peek.bind (hbegin.bind (gives_pure (some t))))

/-- `beginning` reads the token that `first` finds, wherever there are rounds enough -/
def Begins (first : Char → List Char → T × List Char) (n limit : Nat)
    (beginning : Char → Scan Text Empty T) : Prop :=
  ∀ c cs, (c :: cs).length < limit →
    Gives (Ahead n (c :: cs)) (beginning c) (first c cs).1 (Ahead n (first c cs).2)

end Reader

end Lookahead
