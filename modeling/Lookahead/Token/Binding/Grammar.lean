import Lookahead.Token.Binding
import Lookahead.Trivia

/-!
# The binding language, from the whole text

`Binding.lex` says what the tokens of a text are, without a reader: after the trivia, the first
character decides what kind of token it is, and the token takes as many characters as belong to it.

* `Binding.lex`                one token after another;
* `length_first_le`            a token takes its first character at least.
-/

namespace Lookahead.Binding

/-- the token that begins with `c`, of the text `c :: cs`, and what follows it -/
def first (c : Char) (cs : List Char) : Token × List Char :=
  if Character.isNameStart c then
    let run := (c :: cs).takeWhile Character.isNameChar
    (if run = ['l', 'e', 't'] then .letWord else .name run, cs.dropWhile Character.isNameChar)
  else if Character.isDigit c then
    (.number ((c :: cs).takeWhile Character.isDigit), cs.dropWhile Character.isDigit)
  else if c = '"' then
    (.text (cs.takeWhile (· != '"')), (cs.dropWhile (· != '"')).drop 1)
  else if c = '=' ∧ cs.head? = some '>' then (.arrow, cs.drop 1)
  else (.mark c, cs)

theorem length_first_le (c : Char) (cs : List Char) : (first c cs).2.length ≤ cs.length := by
  have hd (p : Char → Bool) := Rules.length_dropWhile_le p cs
  have hn := hd Character.isNameChar
  have hg := hd Character.isDigit
  have hq := hd (· != '"')
  unfold first
  split
  · exact hn
  · split
    · exact hg
    · split
      · simp only [List.length_drop]
        omega
      · split
        · simp
        · exact Nat.le_refl _

def lex (cs : List Char) : List Token :=
  match _h : Rules.standard.dropTrivia cs with
  | [] => []
  | c :: ds => (first c ds).1 :: lex (first c ds).2
termination_by cs.length
decreasing_by
  have h1 := length_first_le c ds
  have h2 := Rules.length_dropTrivia_le Rules.standard cs
  rw [_h, List.length_cons] at h2
  omega

theorem lex_of_nil {cs : List Char} (h : Rules.standard.dropTrivia cs = []) : lex cs = [] := by
  rw [lex]
  split
  · rfl
  · next hc => rw [h] at hc; cases hc

theorem lex_of_cons {cs ds : List Char} {c : Char} (h : Rules.standard.dropTrivia cs = c :: ds) :
    lex cs = (first c ds).1 :: lex (first c ds).2 := by
  rw [lex]
  split
  · next hc => rw [h] at hc; cases hc
  · next hc =>
    rw [h] at hc
    cases hc
    rfl

end Lookahead.Binding
