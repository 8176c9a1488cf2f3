import Lookahead.Proofs.Token.Places
import Lookahead.Token.Settings.Grammar

/-!
# The tokens of a settings text

The settings language told by how its tokens are spelled: what each kind of token is made of, and
what must not follow it.  A text can be split into such tokens in one way, and a reader that looks as
far ahead as the longest keyword is long, and one character further, reads these tokens.

* `Settings.Spans`                the spelling of a token;
* `Settings.spells`               cutting off a token is finding its spelling;
* `Settings.Unsure`               a keyword may begin here, and cannot be seen to its end;
* `Settings.begins_unless`        elsewhere, reading a token is cutting it off;
* `Settings.tokens_by_grammar`    a reader gives the tokens of its text.
-/

namespace Lookahead.Settings

open Scan (step)
open Reader

/-! ## spelling -/

/-- these characters spell the token where `rest` follows them -/
inductive Spans : Token → List Char → List Char → Prop where
  | keyword {k : Keyword} {rest : List Char}
      (whole : Longest Character.isNameChar k.spelling rest) : Spans (.keyword k) k.spelling rest
  /-- a name is not one of the keywords -/
  | name {c : Char} {cs rest : List Char} (start : Character.isNameStart c = true)
      (whole : Longest Character.isNameChar (c :: cs) rest)
      (own : ∀ k : Keyword, k.spelling ≠ c :: cs) : Spans (.name (c :: cs)) (c :: cs) rest
  | number {c : Char} {cs rest : List Char} (whole : Longest Character.isDigit (c :: cs) rest) :
      Spans (.number (c :: cs)) (c :: cs) rest
  | text {cs rest : List Char} (inside : ∀ c ∈ cs, insideText c = true) :
      Spans (.text cs) ('"' :: (cs ++ ['"'])) rest
  /-- a text without a closing quote ends with its line -/
  | broken {cs rest : List Char} (inside : ∀ c ∈ cs, insideText c = true)
      (ends : ∀ c, rest.head? = some c → Character.isLineEnd c = true) :
      Spans (.text cs) ('"' :: cs) rest
  | mark {c : Char} {rest : List Char} (nameless : Character.isNameStart c = false)
      (digitless : Character.isDigit c = false) (quoteless : c ≠ '"') : Spans (.mark c) [c] rest

section
variable {c : Char} {cs run rest : List Char} {k : Keyword}

/-! ## keywords -/

theorem Keyword.nameChars (k : Keyword) : ∀ c ∈ k.spelling, Character.isNameChar c = true := by
  refine List.all_eq_true.1 ?_
  cases k <;> decide

theorem Keyword.exists_spelling (k : Keyword) :
    ∃ c cs, k.spelling = c :: cs ∧ Character.isNameStart c = true := by
  cases k <;> exact ⟨_, _, rfl, by decide⟩

theorem Keyword.length_spelling_le (k : Keyword) : k.spelling.length ≤ 5 := by
  cases k <;> decide

/-- the keyword that a run of name characters is -/
def keyword? (run : List Char) : Option Keyword := Keyword.all.find? fun k => k.spelling == run

theorem keyword?_eq_none : keyword? run = none ↔ ∀ k : Keyword, k.spelling ≠ run := by
  rw [keyword?, List.find?_eq_none]
  exact ⟨fun h k e => h k k.mem_all (beq_iff_eq.2 e), fun h k _ hk => h k (eq_of_beq hk)⟩

theorem spelling_of_keyword? (h : keyword? run = some k) : k.spelling = run := by
  unfold keyword? at h
  have hk := List.find?_some h
  exact eq_of_beq hk

theorem keyword?_spelling (k : Keyword) : keyword? k.spelling = some k := by
  cases k <;> decide

theorem keyword?_of_nameless (h : Character.isNameStart c = false) :
    keyword? ((c :: cs).takeWhile Character.isNameChar) = none := by
  refine keyword?_eq_none.2 fun k hk => ?_
  obtain ⟨d, ds, hspelling, hstart⟩ := k.exists_spelling
  have hfront : d :: ds <+: c :: cs := hspelling ▸ hk ▸ List.takeWhile_prefix _
  rw [(List.cons_prefix_cons.1 hfront).1, h] at hstart
  cases hstart

theorem word_of_some (h : keyword? run = some k) : word run = .keyword k := by
  unfold keyword? at h
  rw [word, h]

theorem word_of_none (h : keyword? run = none) : word run = .name run := by
  unfold keyword? at h
  rw [word, h]

/-! ## cutting off a token -/

theorem first_name (h : Character.isNameStart c = true) :
    first c cs =
      (word (c :: cs.takeWhile Character.isNameChar), cs.dropWhile Character.isNameChar) := by
  rw [first, if_pos h, List.takeWhile_cons_of_pos (Character.isNameChar_of_isNameStart h)]

theorem first_number (h : Character.isDigit c = true) :
    first c cs =
      (.number (c :: cs.takeWhile Character.isDigit), cs.dropWhile Character.isDigit) := by
  have hname : ¬ Character.isNameStart c = true := by
    rw [Character.isNameStart_of_isDigit h]
    exact nofun
  rw [first, if_neg hname, if_pos h, List.takeWhile_cons_of_pos h]

theorem first_text :
    first '"' cs = (.text (cs.takeWhile insideText), dropQuote (cs.dropWhile insideText)) := rfl

theorem first_mark (hname : Character.isNameStart c = false) (hdigit : Character.isDigit c = false)
    (hquote : c ≠ '"') : first c cs = (.mark c, cs) := by
  rw [first, hname, hdigit, if_neg nofun, if_neg nofun, if_neg hquote]

theorem dropQuote_of_ne (h : cs.head? ≠ some '"') : dropQuote cs = cs := by
  unfold dropQuote
  split
  · exact absurd rfl h
  · rfl

theorem isLineEnd_of_insideText (h : insideText c = false) (hquote : c ≠ '"') :
    Character.isLineEnd c = true := by
  simpa [insideText, hquote] using h

/-! ## spelling is cutting off -/

theorem spelled_name (h : Character.isNameStart c = true) : Spelled first Spans c cs := by
  have hwhole := longest_cons (Character.isNameChar_of_isNameStart h) cs
  unfold Spelled
  rw [first_name h]
  refine ⟨c :: cs.takeWhile Character.isNameChar, ?_, ?_⟩
  · exact congrArg (c :: ·) List.takeWhile_append_dropWhile
  · cases hk : keyword? (c :: cs.takeWhile Character.isNameChar) with
    | none =>
      rw [word_of_none hk]
      exact .name h hwhole (keyword?_eq_none.1 hk)
    | some k =>
      rw [word_of_some hk, ← spelling_of_keyword? hk]
      exact .keyword (spelling_of_keyword? hk ▸ hwhole)

theorem spelled_text : Spelled first Spans '"' cs := by
  have hinside := longest_takeWhile insideText cs
  have hsplit : cs.takeWhile insideText ++ cs.dropWhile insideText = cs :=
    List.takeWhile_append_dropWhile
  unfold Spelled
  rw [first_text]
  by_cases hclosed : (cs.dropWhile insideText).head? = some '"'
  · obtain ⟨rest, hrest⟩ := List.head?_eq_some_iff.1 hclosed
    refine ⟨'"' :: (cs.takeWhile insideText ++ ['"']), ?_, .text hinside.all⟩
    rw [List.cons_append, List.append_assoc, hrest]
    rw [hrest] at hsplit
    exact congrArg ('"' :: ·) hsplit
  · rw [dropQuote_of_ne hclosed]
    refine ⟨_, congrArg ('"' :: ·) hsplit, .broken hinside.all fun d hd => ?_⟩
    exact isLineEnd_of_insideText (hinside.stops d hd) fun e => hclosed (e ▸ hd)

theorem spelled (c : Char) (cs : List Char) : Spelled first Spans c cs := by
  by_cases hname : Character.isNameStart c = true
  · exact spelled_name hname
  by_cases hdigit : Character.isDigit c = true
  · unfold Spelled
    rw [first_number hdigit]
    exact ⟨_, congrArg (c :: ·) List.takeWhile_append_dropWhile, .number (longest_cons hdigit cs)⟩
  rw [Bool.not_eq_true] at hname hdigit
  by_cases hquote : c = '"'
  · exact hquote ▸ spelled_text
  · unfold Spelled
    rw [first_mark hname hdigit hquote]
    exact ⟨[c], rfl, .mark hname hdigit hquote⟩

theorem first_of_spans {t : Token} {lexeme : List Char} (h : Spans t lexeme rest) :
    ∃ c cs, lexeme ++ rest = c :: cs ∧ first c cs = (t, rest) := by
  cases h with
  | @keyword k _ hwhole =>
    obtain ⟨c, cs, hspelling, hstart⟩ := k.exists_spelling
    rw [hspelling] at hwhole
    refine ⟨c, cs ++ rest, by rw [hspelling, List.cons_append], ?_⟩
    rw [first_name hstart, hwhole.tail.takeWhile, hwhole.tail.dropWhile, ← hspelling,
      word_of_some (keyword?_spelling k)]
  | @name c cs _ hstart hwhole hown =>
    refine ⟨c, cs ++ rest, rfl, ?_⟩
    rw [first_name hstart, hwhole.tail.takeWhile, hwhole.tail.dropWhile,
      word_of_none (keyword?_eq_none.2 hown)]
  | @number c cs _ hwhole =>
    refine ⟨c, cs ++ rest, rfl, ?_⟩
    rw [first_number (hwhole.all c List.mem_cons_self), hwhole.tail.takeWhile,
      hwhole.tail.dropWhile]
  | @text cs _ hinside =>
    have hwhole : Longest insideText cs ('"' :: rest) :=
      ⟨hinside, fun c hc => Option.some.inj hc ▸ rfl⟩
    refine ⟨'"', cs ++ '"' :: rest, by simp, ?_⟩
    rw [first_text, hwhole.takeWhile, hwhole.dropWhile]
    rfl
  | @broken cs _ hinside hends =>
    have hwhole : Longest insideText cs rest :=
      ⟨hinside, fun c hc => by simp [insideText, hends c hc]⟩
    refine ⟨'"', cs ++ rest, rfl, ?_⟩
    rw [first_text, hwhole.takeWhile, hwhole.dropWhile,
      dropQuote_of_ne fun hc => absurd (hends _ hc) (by decide)]
  | @mark c _ hname hdigit hquote => exact ⟨c, rest, rfl, first_mark hname hdigit hquote⟩

theorem spells : Spells first Spans := ⟨spelled, first_of_spans⟩

theorem lexes : Lexes first lex := ⟨lex_of_nil, lex_of_cons, length_first_le⟩

/-! ## reading a token -/

variable {n limit : Nat}

/-- a keyword is left open by what can be seen of the text -/
def Unsure (n : Nat) (cs : List Char) : Prop := ∃ k : Keyword, OpenWord n k.spelling cs

theorem Keyword.spelling_ne_nil (k : Keyword) : k.spelling ≠ [] := by
  obtain ⟨_, _, hspelling, -⟩ := k.exists_spelling
  rw [hspelling]
  exact List.cons_ne_nil _ _

theorem not_unsure (hn : 6 ≤ n) (cs : List Char) : ¬ Unsure n cs := by
  rintro ⟨k, hopen⟩
  have hle := k.length_spelling_le
  exact not_openWord (by omega) hopen

theorem not_unsure_nil (hn : 0 < n) : ¬ Unsure n [] := by
  rintro ⟨k, hle, hfront⟩
  have hnil := congrArg List.length (List.prefix_nil.1 hfront)
  rw [List.length_take, List.length_nil] at hnil
  omega

theorem gives_acceptKeyword (ks : List Keyword)
    (hsure : ∀ k ∈ ks, ¬ OpenWord n k.spelling cs) :
    Gives (Ahead n cs) (step (acceptKeyword ks))
      (ks.find? fun k => k.spelling == cs.takeWhile Character.isNameChar)
      (Ahead n (if (ks.find? fun k => k.spelling == cs.takeWhile Character.isNameChar).isSome
        then cs.dropWhile Character.isNameChar else cs)) := by
  induction ks with
  | nil => exact gives_pure none
  | cons k ks ih =>
    have haccept : Gives (Ahead n cs) _ (k.spelling == cs.takeWhile Character.isNameChar) _ :=
      gives_acceptName .standard k.spelling_ne_nil k.nameChars (hsure k List.mem_cons_self)
    unfold acceptKeyword
    rw [Reader.Scan.step_bind, List.find?_cons]
    refine haccept.bind ?_
    have hrules : Rules.standard.isNameChar = Character.isNameChar := rfl
    rw [hrules]
    cases k.spelling == cs.takeWhile Character.isNameChar with
    | true => exact gives_pure (some k)
    | false => exact ih fun j hj => hsure j (List.mem_cons_of_mem _ hj)

/-- the keywords tried before the one left open are not found, so that it is reached -/
theorem refuses_acceptKeyword {k : Keyword} (hopen : OpenWord n k.spelling cs) {ks : List Keyword}
    (hk : k ∈ ks) :
    Refuses (Ahead n cs) (step (acceptKeyword ks)) (.lookahead (n + 1) n) (Ahead n cs) := by
  induction ks with
  | nil => exact absurd hk List.not_mem_nil
  | cons j ks ih =>
    unfold acceptKeyword
    rw [Reader.Scan.step_bind]
    by_cases hfirst : OpenWord n j.spelling cs
    · exact (refuses_acceptName .standard j.spelling_ne_nil hfirst).bind _
    · have hnot : j.spelling ≠ cs.takeWhile Rules.standard.isNameChar :=
        ne_takeWhile_of_open .standard hopen k.nameChars hfirst
      have haccept := gives_acceptName (n := n) .standard j.spelling_ne_nil j.nameChars hfirst
      rw [beq_false_of_ne hnot, if_neg Bool.false_ne_true] at haccept
      refine haccept.refuses (ih ((List.mem_cons.1 hk).resolve_left ?_))
      rintro rfl
      exact hfirst hopen

theorem gives_keyword (hsure : ¬ Unsure n cs) :
    Gives (Ahead n cs) (step (acceptKeyword Keyword.all))
      (keyword? (cs.takeWhile Character.isNameChar))
      (Ahead n (if (keyword? (cs.takeWhile Character.isNameChar)).isSome
        then cs.dropWhile Character.isNameChar else cs)) :=
  gives_acceptKeyword Keyword.all fun k _ hopen => hsure ⟨k, hopen⟩

theorem gives_acceptQuote (cs : List Char) :
    ∃ b, Gives (Ahead n cs) (step (acceptChar '"')) b (Ahead n (dropQuote cs)) := by
  by_cases h : cs.head? = some '"'
  · obtain ⟨ds, rfl⟩ := List.head?_eq_some_iff.1 h
    exact ⟨true, gives_acceptChar_self⟩
  · rw [dropQuote_of_ne h]
    exact ⟨false, gives_acceptChar_ne h⟩

variable (hsure : ¬ Unsure n (c :: cs)) (hlimit : (c :: cs).length < limit)
include hsure hlimit

/-- the keywords are tried before names are -/
theorem gives_beginning_name (hname : Character.isNameStart c = true) :
    Gives (Ahead n (c :: cs)) (beginning limit c) (first c cs).1 (Ahead n (first c cs).2) := by
  have hchar := Character.isNameChar_of_isNameStart hname
  have hkeyword := gives_keyword hsure
  rw [List.takeWhile_cons_of_pos hchar, List.dropWhile_cons_of_pos hchar] at hkeyword
  rw [first_name hname]
  cases hk : keyword? (c :: cs.takeWhile Character.isNameChar) with
  | some k =>
    rw [hk] at hkeyword
    rw [word_of_some hk]
    exact hkeyword.bind (gives_pure _)
  | none =>
    rw [hk] at hkeyword
    rw [word_of_none hk]
    refine hkeyword.bind ?_
    dsimp only
    rw [if_pos hname]
    exact (gives_run hchar hlimit).bind (gives_pure (Token.name _))

/-- they are also tried where no name begins, and none is found -/
theorem gives_beginning_nameless (hname : Character.isNameStart c = false) :
    Gives (Ahead n (c :: cs)) (beginning limit c) (first c cs).1 (Ahead n (first c cs).2) := by
  have hkeyword := gives_keyword hsure
  rw [keyword?_of_nameless hname] at hkeyword
  refine hkeyword.bind ?_
  dsimp only
  rw [if_neg (ne_true_of_eq_false hname)]
  by_cases hdigit : Character.isDigit c = true
  · rw [first_number hdigit, if_pos hdigit]
    exact (gives_run hdigit hlimit).bind (gives_pure (Token.number _))
  rw [if_neg hdigit]
  rw [Bool.not_eq_true] at hdigit
  by_cases hquote : c = '"'
  · subst hquote
    have hinside := gives_takeWhile (n := n) insideText (Nat.lt_of_succ_lt hlimit)
    obtain ⟨b, hclosing⟩ := gives_acceptQuote (n := n) (cs.dropWhile insideText)
    exact gives_acceptChar_self.bind (hinside.bind (hclosing.bind (gives_pure _)))
  · have hquoted : (c :: cs).head? ≠ some '"' := fun e => hquote (Option.some.inj e)
    rw [first_mark hname hdigit hquote]
    exact (gives_acceptChar_ne hquoted).bind (gives_read.bind (gives_pure _))

theorem gives_beginning :
    Gives (Ahead n (c :: cs)) (beginning limit c) (first c cs).1 (Ahead n (first c cs).2) := by
  cases hname : Character.isNameStart c with
  | true => exact gives_beginning_name hsure hlimit hname
  | false => exact gives_beginning_nameless hsure hlimit hname

omit hsure hlimit in
theorem begins (hn : 6 ≤ n) : Begins first n limit (beginning limit) :=
  fun _ _ hlimit => gives_beginning (not_unsure hn _) hlimit

omit hsure hlimit in
theorem begins_unless : BeginsUnless (Unsure n) first n limit (beginning limit) where
  gives hlimit hsure := gives_beginning hsure hlimit
  refuses := by
    rintro c cs ⟨k, hopen⟩
    exact (refuses_acceptKeyword hopen k.mem_all).bind _

end

/-- **A reader of settings gives the tokens of its text.**  Where it looks ahead as far as it takes
to tell a keyword from a longer name, it reads one token after another without a failure until it is
through with the text, and these are the tokens into which the text can be split.  There is one way to
split it: each character is trivia or in one token, no keyword is the front of a longer name, and no
name is a keyword.  The capacity is one that a count can exceed, as that of every buffer is that can
be stored. -/
theorem tokens_by_grammar (text : List Char) {n limit : Nat} (hn : 6 ≤ n) (hmax : n < maxCount)
    (hlimit : text.length < limit) :
    ∃ r₀ r, create (⟨text⟩ : Text) n = .ok r₀ ∧ tokens limit r₀ = .ok (lex text, none) r ∧
      Through r ∧ ∀ ts, Splits Spans text ts ↔ ts = lex text := by
  have hpos : 0 < n := by omega
  obtain ⟨r, hr, hend⟩ := gives_tokens lexes (begins hn) (by omega) hlimit _
    (ahead_create text hpos hmax)
  exact ⟨_, r, create_eq _ hpos, hr, hend, fun _ => lexes.splits_iff spells⟩

/-- a keyword at the front of a name is not found, a quote in a comment opens nothing, and a text
that is not closed ends with its line -/
theorem tokens_by_grammar_abc :
    let text := ['l', 'e', 't', 'x', ' ', 'l', 'e', 't', '#', '"', '\n', '"', 'a', '\n', '=']
    6 ≤ 6 ∧ 6 < maxCount ∧ text.length < 16 ∧
      ∃ r₀ r, create (⟨text⟩ : Text) 6 = .ok r₀ ∧
        tokens 16 r₀ = .ok ([.name ['l', 'e', 't', 'x'], .keyword .letWord, .text ['a'],
          .mark '='], none) r ∧ Through r := by
  intro text
  refine ⟨by decide, by decide, by decide, ?_⟩
  obtain ⟨r₀, r, hr₀, hr, hend, -⟩ := tokens_by_grammar text (by decide : 6 ≤ 6)
    (by decide : 6 < maxCount) (by decide : text.length < 16)
  have hlex : lex text = [.name ['l', 'e', 't', 'x'], .keyword .letWord, .text ['a'],
      .mark '='] := by decide +kernel
  rw [hlex] at hr
  exact ⟨r₀, r, hr₀, hr, hend⟩

end Lookahead.Settings
