import Lookahead.Proofs.Reader.Trivia
import Lookahead.Proofs.Token.Binding
import Lookahead.Proofs.Token.Settings

/-!
# Where too little can be looked at

A reader that looks less far ahead than the longest keyword reaches may come to a place where it
cannot tell what begins there: all that it can see are characters of a keyword, or of the arrow.  It
is refused at the first such place, with the tokens before it read, the trivia before it skipped, and
nothing of the token itself read.  At every other place it reads the token that is there, although it
does not look far enough for all keywords.

* `Ahead.remaining`         the characters that can still be read;
* `Binding.listing_of_all`, `Binding.listing_of_refused`   a listing shows all tokens or none;
* `refused_at_first_open`   both languages, at every capacity.
-/

namespace Lookahead

open Reader

variable {n limit : Nat} {cs : List Char} {r s : Reader Text}

theorem Reader.Ahead.remaining (h : Ahead n cs r) : r.remaining = cs := by
  obtain ⟨c, hshows, -, -, hahead⟩ := h
  exact hshows.remaining_eq.trans hahead

section
variable {ts : List Binding.Token}

theorem Binding.listing_of_all (h : collect (Binding.next limit) limit r = .ok (ts, none) s) :
    Binding.listing limit r = .ok (Binding.render ts) s := by
  rw [Binding.listing, map_apply, Binding.tokens, bind_apply, h]
  rfl

theorem Binding.listing_of_refused {e : ReadError Empty}
    (h : collect (Binding.next limit) limit r = .ok (ts, some e) s) :
    Binding.listing limit r = .error (.error e) s := by
  rw [Binding.listing, map_apply, Binding.tokens, bind_apply, h]
  rfl

end

/-- **Tokens are read up to the first place left open.**  At any capacity, and for both languages,
reading the tokens of a text comes to one of two ends.  Either no token begins where all that can be
seen is the front of a keyword, or of the arrow, with the end of it or what follows it out of sight;
then all tokens are read, to the end of the text.  Or there is such a place; then reading is refused
for looking one character further than the capacity, at the first of these places.  The tokens given
before it are those of the whole text that stand before it, and what can still be read is the text
from this place on.  A listing is given in the first case only.  The capacity is one that a count can
exceed, as that of every buffer is that can be stored. -/
theorem refused_at_first_open (text : List Char) {n limit : Nat} (hn : 0 < n) (hmax : n < maxCount)
    (hlimit : text.length < limit) :
    ∃ r₀, create (⟨text⟩ : Text) n = .ok r₀ ∧
      (match Settings.tokens limit r₀ with
        | .ok (ts, none) r => ts = Settings.lex text ∧ Through r ∧
            ∀ us place, Reaches Settings.first text us place → ¬ Settings.Unsure n place
        | .ok (ts, some e) r => e = .lookahead (n + 1) n ∧
            Earliest Settings.first (Settings.Unsure n) text ts r.remaining ∧
            Settings.lex text = ts ++ Settings.lex r.remaining
        | .error _ _ => False) ∧
      match Binding.listing limit r₀ with
        | .ok out r => out = Binding.render (Binding.lex text) ∧ Through r ∧
            ∀ us place, Reaches Binding.first text us place → ¬ Binding.Unsure n place
        | .error e r => e = .error (.lookahead (n + 1) n) ∧
            ∃ ts, Earliest Binding.first (Binding.Unsure n) text ts r.remaining ∧
              Binding.lex text = ts ++ Binding.lex r.remaining := by
  have hahead := ahead_create text hn hmax
  refine ⟨_, create_eq _ hn, ?_, ?_⟩
  · obtain ⟨r, hr, hthrough, hclear⟩ | ⟨ts, place, r, hr, hplace, hearliest⟩ :=
      collectRounds_cases Settings.lexes (Settings.not_unsure_nil hn) Settings.begins_unless hn limit
        [] hlimit hlimit _ hahead
    · have htokens : Settings.tokens limit _ = .ok (Settings.lex text, none) r := hr
      rw [htokens]
      exact ⟨rfl, hthrough, hclear⟩
    · have htokens : Settings.tokens limit _ = .ok (ts, some (.lookahead (n + 1) n)) r := hr
      rw [htokens]
      dsimp only
      rw [hplace.remaining]
      exact ⟨rfl, hearliest, Settings.lexes.lex_of_reaches hearliest.reached⟩
  · obtain ⟨r, hr, hthrough, hclear⟩ | ⟨ts, place, r, hr, hplace, hearliest⟩ :=
      collectRounds_cases Binding.lexes (Binding.not_unsure_nil hn) Binding.begins_unless hn limit
        [] hlimit hlimit _ hahead
    · rw [Binding.listing_of_all hr]
      exact ⟨rfl, hthrough, hclear⟩
    · rw [Binding.listing_of_refused hr]
      dsimp only
      rw [hplace.remaining]
      exact ⟨rfl, ts, hearliest, Binding.lexes.lex_of_reaches hearliest.reached⟩

/-- with one character to look at, a name is left open where it begins as a keyword does, and a mark
where it begins as the arrow does -/
theorem refused_at_first_open_abc :
    let text := ['a', '=', 'b', ' ', 't', 'o']
    0 < 1 ∧ 1 < maxCount ∧ text.length < 7 ∧
      ∃ r₀ r q, create (⟨text⟩ : Text) 1 = .ok r₀ ∧
        Settings.tokens 7 r₀ =
          .ok ([.name ['a'], .mark '=', .name ['b']], some (.lookahead 2 1)) r ∧
        Earliest Settings.first (Settings.Unsure 1) text [.name ['a'], .mark '=', .name ['b']]
          ['t', 'o'] ∧
        Binding.listing 7 r₀ = .error (.error (.lookahead 2 1)) q ∧
        ∃ ts, Earliest Binding.first (Binding.Unsure 1) text ts ['=', 'b', ' ', 't', 'o'] := by
  intro text
  refine ⟨by decide, by decide, by decide, ?_⟩
  obtain ⟨r₀, hr₀, hsettings, hbinding⟩ := refused_at_first_open text (by decide : 0 < 1)
    (by decide : 1 < maxCount) (by decide : text.length < 7)
  obtain ⟨r, hr⟩ := exists_of_outcome (x := Settings.tokens 7 r₀)
    (a := ([.name ['a'], .mark '=', .name ['b']], some (.lookahead 2 1)))
    (by cases hr₀; decide +kernel)
  have hleft : (finalState (Settings.tokens 7 r₀)).remaining = ['t', 'o'] := by
    cases hr₀
    decide +kernel
  have hleft' : (finalState (Binding.listing 7 r₀)).remaining = ['=', 'b', ' ', 't', 'o'] := by
    cases hr₀
    decide +kernel
  have hrefused : (outcomeOf (Binding.listing 7 r₀)).toOption = none := by
    cases hr₀
    decide +kernel
  rw [hr] at hsettings hleft
  obtain ⟨-, hearliest, -⟩ := hsettings
  rw [show r.remaining = ['t', 'o'] from hleft] at hearliest
  cases hq : Binding.listing 7 r₀ with
  | ok out q =>
    rw [hq] at hrefused
    cases hrefused
  | error e q =>
    rw [hq] at hbinding hleft'
    obtain ⟨rfl, ts, hearliest', -⟩ := hbinding
    rw [show q.remaining = ['=', 'b', ' ', 't', 'o'] from hleft'] at hearliest'
    exact ⟨r₀, r, q, hr₀, hr, hearliest, hq, ts, hearliest'⟩

end Lookahead
