import Lookahead.Proofs.Agreement
import Lookahead.Proofs.Token.Places
import Lookahead.Token.Binding.Grammar

/-!
# The listing of a binding text

The binding language told by how its tokens are spelled.  Its texts go on over line ends, its arrow
is two characters that are marks elsewhere, and `let` is its only keyword.  A reader that looks ahead
one character further than `let` is long lists the tokens of its text, and looking further ahead does
not change the listing.

* `Binding.Spans`                 the spelling of a token;
* `Binding.spells`                cutting off a token is finding its spelling;
* `Binding.Unsure`                the word or the arrow may begin here, and cannot be seen to its end;
* `Binding.begins_unless`         elsewhere, reading a token is cutting it off;
* `Binding.listing_by_grammar`    readers of a text list its tokens.
-/

namespace Lookahead.Binding

open Scan (step)
open Reader

/-! ## spelling -/

/-- goes on with a text up to its quote -/
def insideText (c : Char) : Bool := c != '"'

/-- these characters spell the token where `rest` follows them -/
inductive Spans : Token → List Char → List Char → Prop where
  | letWord {rest : List Char} (whole : Longest Character.isNameChar ['l', 'e', 't'] rest) :
      Spans .letWord ['l', 'e', 't'] rest
  | name {c : Char} {cs rest : List Char} (start : Character.isNameStart c = true)
      (whole : Longest Character.isNameChar (c :: cs) rest) (own : c :: cs ≠ ['l', 'e', 't']) :
      Spans (.name (c :: cs)) (c :: cs) rest
  | number {c : Char} {cs rest : List Char} (whole : Longest Character.isDigit (c :: cs) rest) :
      Spans (.number (c :: cs)) (c :: cs) rest
  | text {cs rest : List Char} (inside : ∀ c ∈ cs, insideText c = true) :
      Spans (.text cs) ('"' :: (cs ++ ['"'])) rest
  /-- a text without a closing quote is the last token -/
  | broken {cs : List Char} (inside : ∀ c ∈ cs, insideText c = true) :
      Spans (.text cs) ('"' :: cs) []
  | arrow {rest : List Char} : Spans .arrow ['=', '>'] rest
  | mark {c : Char} {rest : List Char} (nameless : Character.isNameStart c = false)
      (digitless : Character.isDigit c = false) (quoteless : c ≠ '"')
      (arrowless : ¬ (c = '=' ∧ rest.head? = some '>')) : Spans (.mark c) [c] rest

section
variable {c : Char} {cs rest : List Char}

/-! ## cutting off a token -/

theorem first_name (h : Character.isNameStart c = true) :
    first c cs =
      (if c :: cs.takeWhile Character.isNameChar = ['l', 'e', 't'] then .letWord
        else .name (c :: cs.takeWhile Character.isNameChar),
        cs.dropWhile Character.isNameChar) := by
  rw [first, if_pos h, List.takeWhile_cons_of_pos (Character.isNameChar_of_isNameStart h)]

theorem first_number (h : Character.isDigit c = true) :
    first c cs =
      (.number (c :: cs.takeWhile Character.isDigit), cs.dropWhile Character.isDigit) := by
  have hname : ¬ Character.isNameStart c = true := by
    rw [Character.isNameStart_of_isDigit h]
    exact nofun
  rw [first, if_neg hname, if_pos h, List.takeWhile_cons_of_pos h]

theorem first_text :
    first '"' cs = (.text (cs.takeWhile insideText), (cs.dropWhile insideText).drop 1) := rfl

theorem first_arrow : first '=' ('>' :: cs) = (.arrow, cs) := rfl

theorem first_mark (hname : Character.isNameStart c = false) (hdigit : Character.isDigit c = false)
    (hquote : c ≠ '"') (harrow : ¬ (c = '=' ∧ cs.head? = some '>')) :
    first c cs = (.mark c, cs) := by
  rw [first, hname, hdigit, if_neg nofun, if_neg nofun, if_neg hquote, if_neg harrow]

theorem eq_of_insideText (h : insideText c = false) : c = '"' := by
  simpa [insideText] using h

/-! ## spelling is cutting off -/

theorem spelled_name (h : Character.isNameStart c = true) : Spelled first Spans c cs := by
  have hwhole := longest_cons (Character.isNameChar_of_isNameStart h) cs
  unfold Spelled
  rw [first_name h]
  refine ⟨c :: cs.takeWhile Character.isNameChar, ?_, ?_⟩
  · exact congrArg (c :: ·) List.takeWhile_append_dropWhile
  · by_cases hlet : c :: cs.takeWhile Character.isNameChar = ['l', 'e', 't']
    · rw [if_pos hlet]
      rw [hlet] at hwhole ⊢
      exact .letWord hwhole
    · rw [if_neg hlet]
      exact .name h hwhole hlet

theorem spelled_text : Spelled first Spans '"' cs := by
  have hinside := longest_takeWhile insideText cs
  have hsplit : cs.takeWhile insideText ++ cs.dropWhile insideText = cs :=
    List.takeWhile_append_dropWhile
  unfold Spelled
  rw [first_text]
  cases hrest : cs.dropWhile insideText with
  | nil =>
    rw [hrest] at hsplit
    exact ⟨_, congrArg ('"' :: ·) hsplit, .broken hinside.all⟩
  | cons d rest =>
    have hd : d = '"' := eq_of_insideText (hinside.stops d (by rw [hrest]; rfl))
    subst hd
    refine ⟨'"' :: (cs.takeWhile insideText ++ ['"']), ?_, .text hinside.all⟩
    rw [hrest] at hsplit
    rw [List.cons_append, List.append_assoc]
    exact congrArg ('"' :: ·) hsplit

theorem spelled (c : Char) (cs : List Char) : Spelled first Spans c cs := by
  by_cases hname : Character.isNameStart c = true
  · exact spelled_name hname
  by_cases hdigit : Character.isDigit c = true
  · unfold Spelled
    rw [first_number hdigit]
    exact ⟨_, congrArg (c :: ·) List.takeWhile_append_dropWhile, .number (longest_cons hdigit cs)⟩
  rw [Bool.not_eq_true] at hname hdigit
  by_cases hquote : c = '"'
  · exact hquote ▸ spelled_text
  by_cases harrow : c = '=' ∧ cs.head? = some '>'
  · obtain ⟨rfl, hhead⟩ := harrow
    obtain ⟨ds, rfl⟩ := List.head?_eq_some_iff.1 hhead
    exact ⟨['=', '>'], rfl, .arrow⟩
  · unfold Spelled
    rw [first_mark hname hdigit hquote harrow]
    exact ⟨[c], rfl, .mark hname hdigit hquote harrow⟩

theorem first_of_spans {t : Token} {lexeme : List Char} (h : Spans t lexeme rest) :
    ∃ c cs, lexeme ++ rest = c :: cs ∧ first c cs = (t, rest) := by
  cases h with
  | letWord hwhole =>
    refine ⟨'l', ['e', 't'] ++ rest, rfl, ?_⟩
    rw [first_name (by decide), hwhole.tail.takeWhile, hwhole.tail.dropWhile, if_pos rfl]
  | @name c cs _ hstart hwhole hown =>
    refine ⟨c, cs ++ rest, rfl, ?_⟩
    rw [first_name hstart, hwhole.tail.takeWhile, hwhole.tail.dropWhile, if_neg hown]
  | @number c cs _ hwhole =>
    refine ⟨c, cs ++ rest, rfl, ?_⟩
    rw [first_number (hwhole.all c List.mem_cons_self), hwhole.tail.takeWhile,
      hwhole.tail.dropWhile]
  | @text cs _ hinside =>
    have hwhole : Longest insideText cs ('"' :: rest) :=
      ⟨hinside, fun c hc => Option.some.inj hc ▸ rfl⟩
    refine ⟨'"', cs ++ '"' :: rest, by simp, ?_⟩
    rw [first_text, hwhole.takeWhile, hwhole.dropWhile]
    rfl
  | @broken cs hinside =>
    have hwhole : Longest insideText cs [] := ⟨hinside, nofun⟩
    refine ⟨'"', cs ++ [], rfl, ?_⟩
    rw [first_text, hwhole.takeWhile, hwhole.dropWhile]
    rfl
  | arrow => exact ⟨'=', '>' :: rest, rfl, first_arrow⟩
  | @mark c _ hname hdigit hquote harrow =>
    exact ⟨c, rest, rfl, first_mark hname hdigit hquote harrow⟩

theorem spells : Spells first Spans := ⟨spelled, first_of_spans⟩

theorem lexes : Lexes first lex := ⟨lex_of_nil, lex_of_cons, length_first_le⟩

/-! ## reading a token -/

variable {n limit : Nat}

/-- the word `let` or the arrow is left open by what can be seen of the text -/
def Unsure (n : Nat) (cs : List Char) : Prop :=
  OpenWord n ['l', 'e', 't'] cs ∨ OpenText n ['=', '>'] cs

theorem not_unsure (hn : 4 ≤ n) (cs : List Char) : ¬ Unsure n cs := by
  rintro (⟨hle, -⟩ | ⟨hlt, -⟩)
  · exact absurd (Nat.le_trans hn hle) (by decide)
  · exact absurd (Nat.lt_of_le_of_lt hn hlt) (by decide)

theorem not_unsure_nil (hn : 0 < n) : ¬ Unsure n [] := by
  rintro (⟨-, hfront⟩ | ⟨-, hfront⟩) <;>
  · have hnil := congrArg List.length (List.prefix_nil.1 hfront)
    rw [List.length_take, List.length_nil, List.length_cons] at hnil
    omega

theorem gives_acceptLet (hsure : ¬ OpenWord n ['l', 'e', 't'] cs) :
    Gives (Ahead n cs) (step (acceptWord .standard ['l', 'e', 't']))
      (['l', 'e', 't'] == cs.takeWhile Character.isNameChar)
      (Ahead n (if ['l', 'e', 't'] == cs.takeWhile Character.isNameChar
        then cs.dropWhile Character.isNameChar else cs)) :=
  gives_acceptName .standard (List.cons_ne_nil _ _) (List.all_eq_true.1 (by decide)) hsure

theorem gives_acceptArrow (hsure : ¬ OpenText n ['=', '>'] cs) :
    Gives (Ahead n cs) (step (acceptText ['=', '>'])) (['=', '>'].isPrefixOf cs)
      (Ahead n (if ['=', '>'].isPrefixOf cs then cs.drop 2 else cs)) :=
  gives_acceptText (sees_of_not_open (List.cons_ne_nil _ _) hsure)

theorem gives_acceptClosing (cs : List Char) :
    ∃ b, Gives (Ahead n (cs.dropWhile insideText)) (step (acceptChar '"')) b
      (Ahead n ((cs.dropWhile insideText).drop 1)) := by
  cases hrest : cs.dropWhile insideText with
  | nil => exact ⟨false, gives_acceptChar_ne nofun⟩
  | cons d rest =>
    have hd : d = '"' :=
      eq_of_insideText ((longest_takeWhile insideText cs).stops d (by rw [hrest]; rfl))
    subst hd
    exact ⟨true, gives_acceptChar_self⟩

variable (hsure : ¬ Unsure n (c :: cs)) (hlimit : (c :: cs).length < limit)
include hsure hlimit

/-- the word `let` is tried before names are -/
theorem gives_beginning_name (hname : Character.isNameStart c = true) :
    Gives (Ahead n (c :: cs)) (beginning limit c) (first c cs).1 (Ahead n (first c cs).2) := by
  have hchar := Character.isNameChar_of_isNameStart hname
  have hlet := gives_acceptLet fun hopen => hsure (.inl hopen)
  rw [List.takeWhile_cons_of_pos hchar, List.dropWhile_cons_of_pos hchar] at hlet
  rw [first_name hname]
  by_cases hk : c :: cs.takeWhile Character.isNameChar = ['l', 'e', 't']
  · rw [hk, beq_self_eq_true, if_pos rfl] at hlet
    rw [if_pos hk]
    exact hlet.bind (gives_pure _)
  · rw [beq_false_of_ne (Ne.symm hk)] at hlet
    rw [if_neg hk]
    refine hlet.bind ?_
    rw [if_neg Bool.false_ne_true, if_pos hname]
    exact (gives_run hchar hlimit).bind (gives_pure (Token.name _))

/-- it is also tried where no name begins, and not found -/
theorem gives_beginning_nameless (hname : Character.isNameStart c = false) :
    Gives (Ahead n (c :: cs)) (beginning limit c) (first c cs).1 (Ahead n (first c cs).2) := by
  have hno : ['l', 'e', 't'] ≠ (c :: cs).takeWhile Character.isNameChar := by
    intro e
    have hfront : ['l', 'e', 't'] <+: c :: cs := e ▸ List.takeWhile_prefix _
    rw [← (List.cons_prefix_cons.1 hfront).1] at hname
    exact absurd hname (by decide)
  have hlet := gives_acceptLet fun hopen => hsure (.inl hopen)
  rw [beq_false_of_ne hno] at hlet
  refine hlet.bind ?_
  rw [if_neg Bool.false_ne_true, if_neg (ne_true_of_eq_false hname)]
  by_cases hdigit : Character.isDigit c = true
  · rw [first_number hdigit, if_pos hdigit]
    exact (gives_run hdigit hlimit).bind (gives_pure (Token.number _))
  rw [if_neg hdigit]
  rw [Bool.not_eq_true] at hdigit
  by_cases hquote : c = '"'
  · subst hquote
    have hinside := gives_takeWhile (n := n) insideText (Nat.lt_of_succ_lt hlimit)
    obtain ⟨b, hclosing⟩ := gives_acceptClosing (n := n) cs
    exact gives_acceptChar_self.bind (hinside.bind (hclosing.bind (gives_pure _)))
  have hquoted : (c :: cs).head? ≠ some '"' := fun e => hquote (Option.some.inj e)
  refine (gives_acceptChar_ne hquoted).bind ?_
  rw [if_neg Bool.false_ne_true]
  have haccept := gives_acceptArrow fun hopen => hsure (.inr hopen)
  by_cases harrow : c = '=' ∧ cs.head? = some '>'
  · obtain ⟨rfl, hhead⟩ := harrow
    obtain ⟨ds, rfl⟩ := List.head?_eq_some_iff.1 hhead
    exact haccept.bind (gives_pure _)
  · have hplain : ['=', '>'].isPrefixOf (c :: cs) = false := by
      refine Bool.eq_false_iff.2 fun h => harrow ?_
      obtain ⟨ds, hds⟩ := List.isPrefixOf_iff_prefix.1 h
      cases hds
      exact ⟨rfl, rfl⟩
    rw [hplain] at haccept
    rw [first_mark hname hdigit hquote harrow]
    exact haccept.bind (gives_read.bind (gives_pure _))

theorem gives_beginning :
    Gives (Ahead n (c :: cs)) (beginning limit c) (first c cs).1 (Ahead n (first c cs).2) := by
  cases hname : Character.isNameStart c with
  | true => exact gives_beginning_name hsure hlimit hname
  | false => exact gives_beginning_nameless hsure hlimit hname

omit hsure hlimit in
theorem begins (hn : 4 ≤ n) : Begins first n limit (beginning limit) :=
  fun _ _ hlimit => gives_beginning (not_unsure hn _) hlimit

omit hsure hlimit in
/-- the word is tried before the arrow, and is not found where an arrow could begin -/
theorem refuses_arrow (hword : ¬ OpenWord n ['l', 'e', 't'] (c :: cs))
    (hopen : OpenText n ['=', '>'] (c :: cs)) :
    Refuses (Ahead n (c :: cs)) (beginning limit c) (.lookahead (n + 1) n)
      (Ahead n (c :: cs)) := by
  have hone : n = 1 := by
    have hlt : n < 2 := hopen.1
    have hpos : n ≠ 0 := by
      rintro rfl
      exact hword ⟨Nat.zero_le _, List.nil_prefix⟩
    omega
  have hc : '=' = c := by
    have hfront := hopen.2
    rw [hone] at hfront
    exact (List.cons_prefix_cons.1 hfront).1
  subst hc
  have hno : ['l', 'e', 't'] ≠ ('=' :: cs).takeWhile Character.isNameChar := by
    rw [List.takeWhile_cons_of_neg (by decide)]
    exact List.cons_ne_nil _ _
  have hlet := gives_acceptLet hword
  rw [beq_false_of_ne hno] at hlet
  refine hlet.refuses ?_
  rw [if_neg Bool.false_ne_true, if_neg (by decide), if_neg (by decide)]
  refine Gives.refuses (gives_acceptChar_ne (by decide : some '=' ≠ some '"')) ?_
  rw [if_neg Bool.false_ne_true]
  exact (refuses_acceptText (sees_of_open hopen)).bind _

omit hsure hlimit in
theorem begins_unless : BeginsUnless (Unsure n) first n limit (beginning limit) where
  gives hlimit hsure := gives_beginning hsure hlimit
  refuses := by
    intro c cs hopen
    by_cases hword : OpenWord n ['l', 'e', 't'] (c :: cs)
    · exact (refuses_acceptName .standard (List.cons_ne_nil _ _) hword).bind _
    · exact refuses_arrow hword (hopen.resolve_left hword)

omit hsure hlimit in
theorem gives_listing (hn : 4 ≤ n) (hlimit : cs.length < limit) :
    Gives (Ahead n cs) (listing limit) (render (lex cs)) Through := by
  have hcollect := gives_tokens lexes (begins hn) (by omega) hlimit
  exact (hcollect.bind (gives_pure (lex cs))).map render rfl

end

/-- **Readers of a binding text list its tokens**, however far they look ahead beyond what it takes
to tell `let` from a longer name.  They read the text to its end without a failure, and they list the
tokens into which the text can be split in one way.  So the listing does not depend on how far they
look.  The capacities are such that a count can exceed them, as those of all buffers are that can be
stored. -/
theorem listing_by_grammar (text : List Char) {n m limit : Nat} (hn : 4 ≤ n) (hnmax : n < maxCount)
    (hm : 4 ≤ m) (hmmax : m < maxCount) (hlimit : text.length < limit) :
    ∃ r₀ q₀ r, create (⟨text⟩ : Text) n = .ok r₀ ∧ create (⟨text⟩ : Text) m = .ok q₀ ∧
      listing limit r₀ = .ok (render (lex text)) r ∧ Through r ∧
      (∀ ts, Splits Spans text ts ↔ ts = lex text) ∧
      outcomeOf (listing limit q₀) = outcomeOf (listing limit r₀) := by
  have hnpos : 0 < n := by omega
  have hmpos : 0 < m := by omega
  obtain ⟨r, hr, hend⟩ := gives_listing hn hlimit _ (ahead_create text hnpos hnmax)
  obtain ⟨q, hq, -⟩ := gives_listing hm hlimit _ (ahead_create text hmpos hmmax)
  refine ⟨_, _, r, create_eq _ hnpos, create_eq _ hmpos, hr, hend, fun _ => lexes.splits_iff spells,
    ?_⟩
  rw [hr, hq]
  rfl

/-- a `#` in a text begins no comment, a text goes on over line ends, and a mark that begins as the
arrow does is a mark -/
theorem listing_by_grammar_abc :
    let text := ['l', 'e', 't', '#', '\n', '=', '>', '=', '"', '#', '\n']
    4 ≤ 4 ∧ 4 < maxCount ∧ 4 ≤ 9 ∧ 9 < maxCount ∧ text.length < 12 ∧
      ∃ q₀ q, create (⟨text⟩ : Text) 9 = .ok q₀ ∧
        listing 12 q₀ = .ok (render [.letWord, .arrow, .mark '=', .text ['#', '\n']]) q := by
  intro text
  refine ⟨by decide, by decide, by decide, by decide, by decide, ?_⟩
  obtain ⟨r₀, q₀, r, -, hq₀, hr, -, -, hsame⟩ := listing_by_grammar text (by decide : 4 ≤ 4)
    (by decide : 4 < maxCount) (by decide : 4 ≤ 9) (by decide : 9 < maxCount)
    (by decide : text.length < 12)
  have hlex : lex text = [.letWord, .arrow, .mark '=', .text ['#', '\n']] := by decide +kernel
  rw [hr, hlex] at hsame
  cases hq : listing 12 q₀ with
  | ok out q =>
    rw [hq] at hsame
    cases hsame
    exact ⟨q₀, q, hq₀, hq⟩
  | error e q =>
    rw [hq] at hsame
    cases hsame

end Lookahead.Binding
