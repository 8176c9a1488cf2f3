import Lookahead.Token.Settings
import Lookahead.Trivia

/-!
# The settings language, from the whole text

`Settings.lex` says what the tokens of a text are, without a reader.  A word is a keyword when the
whole run of name characters spells it: a keyword is never cut off the front of a longer name.

* `Settings.lex`               one token after another;
* `length_first_le`            a token takes its first character at least.
-/

namespace Lookahead.Settings

/-- the token that a run of name characters is -/
def word (run : List Char) : Token :=
  match Keyword.all.find? fun k => k.spelling == run with
  | some k => .keyword k
  | none => .name run

/-- what is left after the quote at the front, if there is one -/
def dropQuote : List Char → List Char
  | '"' :: cs => cs
  | cs => cs

/-- the token that begins with `c`, of the text `c :: cs`, and what follows it -/
def first (c : Char) (cs : List Char) : Token × List Char :=
  if Character.isNameStart c then
    (word ((c :: cs).takeWhile Character.isNameChar), cs.dropWhile Character.isNameChar)
  else if Character.isDigit c then
    (.number ((c :: cs).takeWhile Character.isDigit), cs.dropWhile Character.isDigit)
  else if c = '"' then
    (.text (cs.takeWhile insideText), dropQuote (cs.dropWhile insideText))
  else (.mark c, cs)

theorem length_dropQuote_le (cs : List Char) : (dropQuote cs).length ≤ cs.length := by
  unfold dropQuote
  split
  · simp
  · exact Nat.le_refl _

theorem length_first_le (c : Char) (cs : List Char) : (first c cs).2.length ≤ cs.length := by
  unfold first
  split
  · exact Rules.length_dropWhile_le _ cs
  · split
    · exact Rules.length_dropWhile_le _ cs
    · split
      · exact Nat.le_trans (length_dropQuote_le _) (Rules.length_dropWhile_le _ cs)
      · exact Nat.le_refl _

def lex (cs : List Char) : List Token :=
  match _h : Rules.standard.dropTrivia cs with
  | [] => []
  | c :: ds => (first c ds).1 :: lex (first c ds).2
termination_by cs.length
decreasing_by
  have h1 := length_first_le c ds
  have h2 := Rules.length_dropTrivia_le Rules.standard cs
  rw [_h, List.length_cons] at h2
  omega

theorem lex_of_nil {cs : List Char} (h : Rules.standard.dropTrivia cs = []) : lex cs = [] := by
  rw [lex]
  split
  · rfl
  · next hc => rw [h] at hc; cases hc

theorem lex_of_cons {cs ds : List Char} {c : Char} (h : Rules.standard.dropTrivia cs = c :: ds) :
    lex cs = (first c ds).1 :: lex (first c ds).2 := by
  rw [lex]
  split
  · next hc => rw [h] at hc; cases hc
  · next hc =>
    rw [h] at hc
    cases hc
    rfl

end Lookahead.Settings
