import Lookahead.Proofs.Source.Alike
import Lookahead.Proofs.Reader.Steps

/-!
# What operations are composed of

The tests of a reader are composed of single looks ahead, and the scans of tests, of letting go of
what a test has found, and of single reads.  So a statement about two programs, on readers over two
types of sources, that goes through sequencing has to be shown for these few steps only, also where
the sources tell their failures in different ways.  A statement about one program is one about two of
which the other does not matter.

* `ForTests`, `ForScans`   what has to be shown of a statement;
* `ForTests.atText`, and the other tests;
* `ForScans.skipTrivia`, `ForScans.rest`, and the other scans;
* `Answer.mapError`, `Outcome.mapError`   the same with failures told in another way;
* `Op.Composed`, `ForScans.perform`       the operations that are so composed;
* `ForScans.agree`         agreement under a relation of readers is such a statement.
-/

namespace Lookahead

open Scan (step)

/-! ## failures told in another way -/

section
variable {ε δ : Type} (f : ε → δ)

def ReadError.map : ReadError ε → ReadError δ
  | lookahead requested capacity => lookahead requested capacity
  | buffer e => buffer e
  | source e => source (f e)

def Halt.map : Halt ε → Halt δ
  | error e => error (e.map f)
  | limit => limit

def Reader.Answer.mapError : Reader.Answer ε → Reader.Answer δ
  | done => done
  | char c => char c
  | flag b => flag b
  | count n => count n
  | bulk b => bulk (b.mapError (ReadError.map f))
  | items is => items (is.map (Except.mapError (ReadError.map f)))
  | text cs => text cs

def Reader.Outcome.mapError : Reader.Outcome ε → Reader.Outcome δ
  | answer a => answer (a.mapError f)
  | failed e => failed (e.map f)
  | unfinished => unfinished

end

section
variable {ε : Type}

theorem ReadError.map_id : ReadError.map (id : ε → ε) = id :=
  funext fun e => by cases e <;> rfl

theorem items_mapError_id (is : List (Except ε Char)) : is.map (Except.mapError id) = is := by
  have hid : Except.mapError (id : ε → ε) = (id : Except ε Char → _) :=
    funext fun i => by cases i <;> rfl
  rw [hid, List.map_id]

theorem Reader.Answer.mapError_id (a : Reader.Answer ε) : a.mapError id = a := by
  cases a with
  | bulk b => exact congrArg bulk (ReadError.map_id ▸ Bulk.mapError_id b)
  | items is => exact congrArg items (ReadError.map_id ▸ items_mapError_id is)
  | _ => rfl

theorem Reader.Outcome.mapError_id (o : Reader.Outcome ε) : o.mapError id = o := by
  cases o with
  | answer a => exact congrArg answer a.mapError_id
  | failed e => exact congrArg failed (congrFun ReadError.map_id e)
  | unfinished => rfl

end

namespace Reader

variable {σ τ ε δ α β : Type} [Source σ ε] [Source τ δ]

/-- what is shown of the looks ahead and goes through sequencing -/
structure ForTests (S : ∀ {α : Type}, Scan σ ε α → Scan τ δ α → Prop) : Prop where
  pure : ∀ {α : Type} (a : α), S (pure a) (pure a)
  bind : ∀ {α β : Type} {x : Scan σ ε α} {y : Scan τ δ α} {f : α → Scan σ ε β}
    {g : α → Scan τ δ β}, S x y → (∀ a, S (f a) (g a)) → S (x >>= f) (y >>= g)
  peekNth : ∀ n : Nat, S (step (peekNth n)) (step (peekNth n))

/-- what is shown of reads as well, and of loops that run out of rounds -/
structure ForScans (S : ∀ {α : Type}, Scan σ ε α → Scan τ δ α → Prop) : Prop
    extends ForTests S where
  unfinished : ∀ {α : Type}, S (throw .limit : Scan σ ε α) (throw .limit)
  advance : ∀ n : Nat, S (step (onBuffer (Buffer.advance n))) (step (onBuffer (Buffer.advance n)))
  read : S (step read) (step read)

variable {S : ∀ {α : Type}, Scan σ ε α → Scan τ δ α → Prop}

/-! ## tests -/

namespace ForTests

theorem step_pure (h : ForTests S) (a : α) :
    S (step (Pure.pure a : Step σ ε α)) (step (Pure.pure a)) := h.pure a

theorem step_bind (h : ForTests S) {x : Step σ ε α} {y : Step τ δ α} {f : α → Step σ ε β}
    {g : α → Step τ δ β} (hxy : S (step x) (step y)) (hfg : ∀ a, S (step (f a)) (step (g a))) :
    S (step (x >>= f)) (step (y >>= g)) := by
  rw [Scan.step_bind, Scan.step_bind]
  exact h.bind hxy hfg

theorem map (h : ForTests S) {x : Scan σ ε α} {y : Scan τ δ α} (f : α → β) (hxy : S x y) :
    S (f <$> x) (f <$> y) := h.bind hxy fun a => h.pure (f a)

theorem ite (_ : ForTests S) (p : Prop) [Decidable p] {x x' : Scan σ ε α} {y y' : Scan τ δ α}
    (hxy : S x y) (hxy' : S x' y') : S (if p then x else x') (if p then y else y') := by
  by_cases hp : p
  · rw [if_pos hp, if_pos hp]
    exact hxy
  · rw [if_neg hp, if_neg hp]
    exact hxy'

theorem map_told (h : ForTests S) {α' γ : Type} {x : Scan σ ε α} {y : Scan τ δ α'} {m : α → α'}
    {g : α → β} {g' : α' → γ} {f : β → γ} (hg : ∀ a, f (g a) = g' (m a)) (hxy : S (m <$> x) y) :
    S (f <$> (g <$> x)) (g' <$> y) := by
  have hmap : f <$> (g <$> x) = g' <$> (m <$> x) := by
    funext r
    rw [map_apply, map_apply, map_apply, map_apply]
    cases x r with
    | ok a r => exact congrArg (EStateM.Result.ok · r) (hg a)
    | error e r => rfl
  rw [hmap]
  exact h.map g' hxy

variable (h : ForTests S)
include h

theorem peek : S (step peek) (step peek) := h.peekNth 0

theorem atNth (n : Nat) (c : Char) : S (step (atNth n c)) (step (atNth n c)) :=
  h.step_bind (h.peekNth n) fun o => h.step_pure (o == some c)

theorem atEnd : S (step atEnd) (step atEnd) := h.step_bind h.peek fun o => h.step_pure o.isNone

theorem spells (n : Nat) (cs : List Char) : S (step (spells n cs)) (step (spells n cs)) := by
  induction cs generalizing n with
  | nil => exact h.step_pure true
  | cons c cs ih =>
    refine h.step_bind (h.atNth n c) fun b => ?_
    cases b with
    | true => exact ih (n + 1)
    | false => exact h.step_pure false

theorem atText (cs : List Char) : S (step (atText cs)) (step (atText cs)) := by
  unfold Reader.atText
  by_cases hcs : cs.isEmpty = true
  · rw [if_pos hcs, if_pos hcs]
    exact h.step_bind h.peek fun o => h.step_pure o.isSome
  · rw [if_neg hcs, if_neg hcs]
    exact h.spells 0 cs

variable (rules : Rules)

theorem atWord (w : List Char) : S (step (atWord rules w)) (step (atWord rules w)) := by
  refine h.step_bind (h.atText w) fun b => ?_
  cases b with
  | false => exact h.step_pure false
  | true =>
    refine h.step_bind (h.peekNth w.length) fun o => ?_
    cases o with
    | none => exact h.step_pure true
    | some c => exact h.step_pure (!rules.isNameChar c)

theorem atComment : S (step (atComment rules)) (step (atComment rules)) := by
  unfold Reader.atComment
  by_cases hc : rules.commentStart.isEmpty = true
  · rw [if_pos hc, if_pos hc]
    exact h.step_pure false
  · rw [if_neg hc, if_neg hc]
    exact h.atText rules.commentStart

theorem atLineEnd : S (step (atLineEnd rules)) (step (atLineEnd rules)) := by
  refine h.step_bind h.peek fun o => ?_
  cases o with
  | none => exact h.step_pure true
  | some c => exact h.step_pure (rules.isLineEnd c)

theorem atBlank : S (step (atBlank rules)) (step (atBlank rules)) := by
  refine h.step_bind h.peek fun o => ?_
  cases o with
  | none => exact h.step_pure false
  | some c => exact h.step_pure (rules.isBlank c)

end ForTests

/-! ## scans -/

namespace ForScans

theorem accepting (h : ForScans S) {x : Step σ ε Bool} {y : Step τ δ Bool}
    (hxy : S (step x) (step y)) (n : Nat) : S (step (accepting x n)) (step (accepting y n)) := by
  refine h.step_bind hxy fun b => ?_
  cases b with
  | false => exact h.step_pure false
  | true => exact h.step_bind (h.advance n) fun _ => h.step_pure true

theorem iterate (h : ForScans S) {x : α → Scan σ ε (Scan.Round α β)}
    {y : α → Scan τ δ (Scan.Round α β)} (hxy : ∀ a, S (x a) (y a)) (limit : Nat) (a : α) :
    S (Scan.iterate x limit a) (Scan.iterate y limit a) := by
  induction limit generalizing a with
  | zero => exact h.unfinished
  | succ limit ih =>
    refine h.bind (hxy a) fun o => ?_
    cases o with
    | again a => exact ih a
    | done b => exact h.pure b

variable (h : ForScans S) (rules : Rules) (limit : Nat)
include h

theorem skipLine : S (skipLine rules limit) (skipLine rules limit) := by
  refine h.iterate (fun _ => ?_) limit ()
  refine h.bind (h.atLineEnd rules) fun found => ?_
  cases found with
  | true => exact h.pure _
  | false => exact h.bind (h.advance 1) fun _ => h.pure _

theorem skipComment : S (skipComment rules limit) (skipComment rules limit) := by
  refine h.bind (h.accepting (h.atComment rules) _) fun found => ?_
  cases found with
  | false => exact h.pure false
  | true => exact h.bind (h.skipLine rules limit) fun _ => h.pure true

theorem skipBlanks : S (skipBlanks rules limit) (skipBlanks rules limit) := by
  refine h.iterate (fun found => ?_) limit false
  refine h.bind (h.accepting (h.atBlank rules) 1) fun blank => ?_
  cases blank with
  | true => exact h.pure _
  | false => exact h.pure _

theorem skipTrivia : S (skipTrivia rules limit) (skipTrivia rules limit) := by
  refine h.iterate (fun _ => ?_) limit ()
  refine h.bind (h.skipBlanks rules limit) fun blanks => ?_
  exact h.bind (h.skipComment rules limit) fun comment => h.pure _

omit rules in
theorem takeWhile (p : Char → Bool) : S (takeWhile p limit) (takeWhile p limit) := by
  refine h.iterate (fun taken => ?_) limit []
  refine h.bind h.peek fun o => ?_
  cases o with
  | none => exact h.pure _
  | some c => exact h.ite _ (h.bind h.read fun _ => h.pure _) (h.pure _)

theorem rest : S (rest limit) (rest limit) := by
  refine h.iterate (fun taken => ?_) limit []
  refine h.bind h.read fun o => ?_
  cases o with
  | none => exact h.pure _
  | some c => exact h.pure _

end ForScans

/-! ## operations -/

/-- the operations that are composed of looks ahead, single reads and letting go; the others are
steps of their own -/
def Op.Composed : Op → Prop
  | .fill _ => False
  | .readInto _ => False
  | .skip _ => False
  | .mark _ => False
  | .reset => False
  | .ready => False
  | .chars _ => False
  | .close => False
  | _ => True

/-- what is shown of the steps is shown of the operations that are composed of them -/
theorem ForScans.perform_told (h : ForScans S) (f : ε → δ) (rules : Rules) (limit : Nat) {op : Op}
    (hop : op.Composed) :
    S (Answer.mapError f <$> op.perform rules limit) (op.perform rules limit) := by
  have htold : ∀ {α : Type} {g : α → Answer ε} {g' : α → Answer δ} {x : Scan σ ε α}
      {y : Scan τ δ α}, (∀ a, (g a).mapError f = g' a) → S x y →
      S (Answer.mapError f <$> (g <$> x)) (g' <$> y) := fun hg hxy =>
    h.map_told (m := id) hg (by rwa [id_map])
  have hnone : ∀ _ : Unit, (Answer.done : Answer ε).mapError f = .done := fun _ => rfl
  have hchar : ∀ o, (Answer.char o : Answer ε).mapError f = .char o := fun _ => rfl
  have hflag : ∀ b, (Answer.flag b : Answer ε).mapError f = .flag b := fun _ => rfl
  have htext : ∀ cs, (Answer.text cs : Answer ε).mapError f = .text cs := fun _ => rfl
  cases op with
  | peek => exact htold hchar h.peek
  | peekNth n => exact htold hchar (h.peekNth n)
  | read => exact htold hchar h.read
  | atChar c => exact htold hflag (h.atNth 0 c)
  | atNth n c => exact htold hflag (h.atNth n c)
  | atText s => exact htold hflag (h.atText s)
  | atWord w => exact htold hflag (h.atWord rules w)
  | atComment => exact htold hflag (h.atComment rules)
  | atEnd => exact htold hflag h.atEnd
  | atLineEnd => exact htold hflag (h.atLineEnd rules)
  | atBlank => exact htold hflag (h.atBlank rules)
  | acceptChar c => exact htold hflag (h.accepting (h.atNth 0 c) 1)
  | acceptText s => exact htold hflag (h.accepting (h.atText s) s.length)
  | acceptWord w => exact htold hflag (h.accepting (h.atWord rules w) w.length)
  | acceptBlank => exact htold hflag (h.accepting (h.atBlank rules) 1)
  | skipComment => exact htold hflag (h.skipComment rules limit)
  | skipTrivia => exact htold hnone (h.skipTrivia rules limit)
  | rest => exact htold htext (h.rest limit)
  | _ => exact hop.elim

theorem ForScans.perform [Source τ ε] {S : ∀ {α : Type}, Scan σ ε α → Scan τ ε α → Prop}
    (h : ForScans S) (rules : Rules) (limit : Nat) {op : Op} (hop : op.Composed) :
    S (op.perform rules limit) (op.perform rules limit) := by
  have hid : Answer.mapError (id : ε → ε) = id := funext Answer.mapError_id
  have htold := h.perform_told id rules limit hop
  rwa [hid, id_map] at htold

/-! ## agreement -/

section
variable {R : Reader σ → Reader τ → Prop} {r : Reader σ} {q : Reader τ}

theorem chars_told {f : ε → δ}
    (hread : Agree R (translate (ReadError.map f) (read : Step σ ε (Option Char))) read) (n : Nat)
    (h : R r q) :
    Beside R ((chars n r).map (List.map (Except.mapError (ReadError.map f))) id) (chars n q) := by
  induction n generalizing r q with
  | zero => exact ⟨rfl, h⟩
  | succ n ih =>
    unfold chars
    obtain ⟨o, r', q', hr, hq, h'⟩ | ⟨e, r', q', hr, hq, h'⟩ := (hread r q h).told
    · rw [hr, hq]
      cases o with
      | none => exact ⟨rfl, h'⟩
      | some c =>
        obtain ⟨hcs, hend⟩ := ih h'
        exact ⟨congrArg (List.cons (Except.ok (ε := ReadError δ) c)) hcs, hend⟩
    · rw [hr, hq]
      obtain ⟨hcs, hend⟩ := ih h'
      exact ⟨congrArg (List.cons (Except.error (α := Char) (e.map f))) hcs, hend⟩

omit [Source σ ε] [Source τ δ] in
theorem collect_told {f : ε → δ} {next : Scan σ ε (Option α)} {next' : Scan τ δ (Option α)}
    (hnext : Agree R (translate (Halt.map f) next) next') (limit : Nat) :
    Agree R
      (translate (Halt.map f) (Prod.map id (Option.map (ReadError.map f)) <$> collect next limit))
      (collect next' limit) := by
  rw [collect_eq, collect_eq]
  generalize [] = taken
  induction limit generalizing taken with
  | zero => exact fun r q h => Same.error Halt.limit h
  | succ n ih =>
    intro r q h
    have hrest := fun a => ih (a :: taken)
    rw [translate_apply, map_apply, iterate_collectRound, iterate_collectRound]
    obtain ⟨o, r', q', hr, hq, h'⟩ | ⟨e, r', q', hr, hq, h'⟩ := (hnext r q h).told
    · rw [hr, hq]
      cases o with
      | none => exact Same.ok _ h'
      | some a => exact hrest a r' q' h'
    · rw [hr, hq]
      cases e with
      | error e => exact Same.ok _ h'
      | limit => exact Same.error _ h'

variable [Source τ ε]

omit [Source σ ε] [Source τ ε] in
theorem agree_step {x : Step σ ε α} {y : Step τ ε α} (hxy : Agree R x y) :
    Agree R (step x) (step y) := by
  intro r q h
  rw [Scan.step_apply, Scan.step_apply]
  obtain ⟨a, r', q', hr, hq, h'⟩ | ⟨e, r', q', hr, hq, h'⟩ := (hxy r q h).cases
  · rw [hr, hq]
    exact Same.ok a h'
  · rw [hr, hq]
    exact Same.error _ h'

omit [Source σ ε] [Source τ ε] in
theorem agree_always {f : Reader σ → α × Reader σ} {g : Reader τ → α × Reader τ}
    (hfg : ∀ r q, R r q → Beside R (f r) (g q)) :
    Agree R (always f : Step σ ε α) (always g) := by
  intro r q h
  obtain ⟨ha, h'⟩ := hfg r q h
  show Same R (.ok (f r).1 (f r).2) (.ok (g q).1 (g q).2)
  rw [ha]
  exact Same.ok _ h'

theorem agree_chars (hread : Agree R (read : Step σ ε (Option Char)) read) (n : Nat)
    (h : R r q) : Beside R (chars n r) (chars n q) := by
  have htold := chars_told (f := id) (by rwa [ReadError.map_id, translate_id]) n h
  rw [ReadError.map_id, show List.map (Except.mapError id) = id from funext items_mapError_id]
    at htold
  exact htold

/-- what agrees in looking ahead, letting go and reading agrees in all that is composed of them -/
theorem ForScans.agree
    (hpeek : ∀ n, Agree R (Reader.peekNth n : Step σ ε (Option Char)) (Reader.peekNth n))
    (hadvance : ∀ n, Agree R (onBuffer (Buffer.advance n) : Step σ ε Unit)
      (onBuffer (Buffer.advance n)))
    (hread : Agree R (Reader.read : Step σ ε (Option Char)) Reader.read) :
    ForScans (σ := σ) (τ := τ) (ε := ε) (δ := ε) (fun x y => Agree R x y) where
  pure := Agree.pure
  bind := Agree.bind
  peekNth n := agree_step (hpeek n)
  unfinished := Agree.throw Halt.limit
  advance n := agree_step (hadvance n)
  read := agree_step hread

theorem Op.beside {op : Op} {rules : Rules} {limit : Nat}
    (hop : Agree R (op.perform rules limit : Scan σ ε (Answer ε)) (op.perform rules limit))
    (h : R r q) : Beside R (op.run rules limit r) (op.run rules limit q) := by
  unfold Op.run
  obtain ⟨a, r', q', hr, hq, h'⟩ | ⟨e, r', q', hr, hq, h'⟩ := (hop r q h).cases
  · rw [hr, hq]
    exact ⟨rfl, h'⟩
  · rw [hr, hq]
    cases e with
    | error e => exact ⟨rfl, h'⟩
    | limit => exact ⟨rfl, h'⟩

end

end Reader

end Lookahead
