import Lookahead.Proofs.Reader.Steps

/-!
# More rounds change nothing

The limit of a scan bounds the rounds of its loops.  A scan that does not run out of them has no use
for more: with a larger limit it makes the same steps.

* `WithMore`            one scan is the other with more rounds;
* `withMore_iterate`    a loop with more rounds, each of which may itself have more;
* `lineRound`, `blankRound`, `triviaRound`, `takeRound`   one round of each loop;
* `withMore_skipComment`, `withMore_skipTrivia`, `withMore_takeWhile`, `withMore_collect`   the scans.
-/

namespace Lookahead

open Scan (step)

namespace Reader

variable {σ ε α β : Type}

/-- `y` is `x` with more rounds: where `x` does not run out of them both go alike -/
def WithMore (x y : Scan σ ε α) : Prop :=
  ∀ r, (∃ s, x r = .error .limit s) ∨ y r = x r

theorem WithMore.refl (x : Scan σ ε α) : WithMore x x := fun _ => .inr rfl

theorem WithMore.eq {x y : Scan σ ε α} (h : WithMore x y) {r : Reader σ}
    (hx : ∀ s, x r ≠ .error .limit s) : y r = x r := by
  obtain ⟨s, hs⟩ | hxy := h r
  · exact absurd hs (hx s)
  · exact hxy

theorem WithMore.bind {x y : Scan σ ε α} {f g : α → Scan σ ε β} (hxy : WithMore x y)
    (hfg : ∀ a, WithMore (f a) (g a)) : WithMore (x >>= f) (y >>= g) := by
  intro r
  rw [bind_apply, bind_apply]
  obtain ⟨s, hx⟩ | heq := hxy r
  · rw [hx]
    exact .inl ⟨s, rfl⟩
  · rw [heq]
    cases x r with
    | ok a s => exact hfg a s
    | error e s => exact .inr rfl

theorem WithMore.after {f g : α → Scan σ ε β} (x : Scan σ ε α)
    (hfg : ∀ a, WithMore (f a) (g a)) : WithMore (x >>= f) (x >>= g) :=
  (WithMore.refl x).bind hfg

theorem WithMore.map {x y : Scan σ ε α} (hxy : WithMore x y) (f : α → β) :
    WithMore (f <$> x) (f <$> y) := hxy.bind fun a => WithMore.refl (pure (f a))

theorem WithMore.ite (p : Prop) [Decidable p] {x x' y y' : Scan σ ε α} (hxy : WithMore x y)
    (hxy' : WithMore x' y') : WithMore (if p then x else x') (if p then y else y') := by
  by_cases hp : p
  · rw [if_pos hp, if_pos hp]
    exact hxy
  · rw [if_neg hp, if_neg hp]
    exact hxy'

theorem withMore_iterate {x y : α → Scan σ ε (Scan.Round α β)} (hxy : ∀ a, WithMore (x a) (y a))
    {limit more : Nat} (hle : limit ≤ more) (a : α) :
    WithMore (Scan.iterate x limit a) (Scan.iterate y more a) := by
  induction limit generalizing more a with
  | zero => exact fun r => .inl ⟨r, rfl⟩
  | succ limit ih =>
    obtain ⟨more, rfl⟩ := Nat.exists_eq_add_one_of_ne_zero (Nat.ne_of_gt (Nat.zero_lt_of_lt hle))
    refine (hxy a).bind fun o => ?_
    cases o with
    | again b => exact ih (Nat.le_of_succ_le_succ hle) b
    | done b => exact WithMore.refl _

theorem WithMore.attempt {x y : Scan σ ε α} (h : WithMore x y) :
    WithMore (Scan.attempt x) (Scan.attempt y) := by
  intro r
  unfold Scan.attempt
  obtain ⟨s, hx⟩ | heq := h r
  · rw [hx]
    exact .inl ⟨s, rfl⟩
  · rw [heq]
    exact .inr rfl

/-! ## the rounds of the loops -/

section
variable [Source σ ε] (rules : Rules)

def lineRound (_ : Unit) : Scan σ ε (Scan.Round Unit Unit) := do
  if ← step (atLineEnd rules) then return .done ()
  step (onBuffer (Buffer.advance 1))
  return .again ()

def blankRound (found : Bool) : Scan σ ε (Scan.Round Bool Bool) := do
  if ← step (acceptBlank rules) then return .again true
  return .done found

/-- one round of skipping trivia: the blanks here, then the comment behind them -/
def triviaRound (limit : Nat) (_ : Unit) : Scan σ ε (Scan.Round Unit Unit) := do
  let blanks ← skipBlanks rules limit
  let comment ← skipComment rules limit
  return if blanks || comment then .again () else .done ()

def takeRound (p : Char → Bool) (taken : List Char) :
    Scan σ ε (Scan.Round (List Char) (List Char)) := do
  match ← step peek with
  | none => return .done taken.reverse
  | some c =>
    if p c then
      let _ ← step read
      return .again (c :: taken)
    return .done taken.reverse

theorem skipLine_eq (limit : Nat) :
    (skipLine rules limit : Scan σ ε Unit) = Scan.iterate (lineRound rules) limit () := rfl

theorem skipBlanks_eq (limit : Nat) :
    (skipBlanks rules limit : Scan σ ε Bool) = Scan.iterate (blankRound rules) limit false := rfl

theorem skipTrivia_eq (limit : Nat) : (skipTrivia rules limit : Scan σ ε Unit) =
    Scan.iterate (triviaRound rules limit) limit () := rfl

theorem takeWhile_eq (p : Char → Bool) (limit : Nat) :
    (takeWhile p limit : Scan σ ε (List Char)) = Scan.iterate (takeRound p) limit [] := rfl

end

/-! ## scans -/

section
variable [Source σ ε] (rules : Rules) {limit more : Nat} (hle : limit ≤ more)
include hle

theorem withMore_skipLine :
    WithMore (skipLine rules limit : Scan σ ε Unit) (skipLine rules more) :=
  withMore_iterate (fun _ => WithMore.refl _) hle ()

theorem withMore_skipComment :
    WithMore (skipComment rules limit : Scan σ ε Bool) (skipComment rules more) := by
  refine WithMore.after _ fun found => ?_
  cases found with
  | false => exact WithMore.refl _
  | true => exact (withMore_skipLine rules hle).bind fun _ => WithMore.refl _

theorem withMore_skipBlanks :
    WithMore (skipBlanks rules limit : Scan σ ε Bool) (skipBlanks rules more) :=
  withMore_iterate (fun _ => WithMore.refl _) hle false

theorem withMore_triviaRound (u : Unit) :
    WithMore (triviaRound rules limit u : Scan σ ε (Scan.Round Unit Unit))
      (triviaRound rules more u) :=
  (withMore_skipBlanks rules hle).bind fun _ =>
    (withMore_skipComment rules hle).bind fun _ => WithMore.refl _

theorem withMore_skipTrivia :
    WithMore (skipTrivia rules limit : Scan σ ε Unit) (skipTrivia rules more) :=
  withMore_iterate (withMore_triviaRound rules hle) hle ()

omit rules in
theorem withMore_takeWhile (p : Char → Bool) :
    WithMore (takeWhile p limit : Scan σ ε (List Char)) (takeWhile p more) :=
  withMore_iterate (fun _ => WithMore.refl _) hle []

end

/-! ## one thing after another -/

theorem withMore_collectRound {next next' : Scan σ ε (Option α)} (h : WithMore next next')
    (taken : List α) : WithMore (collectRound next taken) (collectRound next' taken) :=
  h.attempt.bind fun _ => WithMore.refl _

theorem withMore_collect {next next' : Scan σ ε (Option α)} (h : WithMore next next')
    {limit more : Nat} (hle : limit ≤ more) :
    WithMore (collect next limit) (collect next' more) :=
  withMore_iterate (withMore_collectRound h) hle []

end Reader

end Lookahead
