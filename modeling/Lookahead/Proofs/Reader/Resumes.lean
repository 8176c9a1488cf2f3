import Lookahead.Proofs.Reader.Alike
import Lookahead.Proofs.Source.Mended

/-!
# Operations that can be asked for again

Looking ahead pulls characters into the buffer, and what was pulled stays there when the source then
fails.  Asked again, the operation finds it there and goes on where it was broken off.  To say so, a
reader over a source that fails stands beside one over the source without its failures.  Where the
first one fails, the second one is moved on by what was pulled: from there its operation goes as it
went from where it was.

* `Awaits`       a reader, its failures to come, and the reader without them;
* `Further`      a reader that has looked further ahead;
* `Resumes`      a program that can be asked for again after a failure;
* `Settles`      a program that, having succeeded, changes nothing when asked again;
* `Resumes.bind`   a program that settles may come before one that resumes;
* `Recovers`     a test that does both, after which what it has found can be let go of.
-/

namespace Lookahead.Reader

variable {σ τ ε η α β : Type} {R : List ε → σ → τ → Prop} {f : η → Option ε} {reach : Nat}

/-! ## the two readers -/

/-- the readers differ in nothing but their sources; the first one is to meet these failures and is
otherwise as the second one -/
structure Awaits (R : List ε → σ → τ → Prop) (es : List ε) (r : Reader σ) (q : Reader τ) : Prop
    extends Alike (fun _ => R es) r q where
  valid : q.buffer.Valid

namespace Awaits
variable {es : List ε} {r : Reader σ} {q : Reader τ}

theorem withBuffer (h : Awaits R es r q) {b : Buffer} (hb : b.Valid) :
    Awaits R es { r with buffer := b } { q with buffer := b } := ⟨h.toAlike.withBuffer b, hb⟩

theorem withSource (h : Awaits R es r q) {fs : List ε} {s : σ} {t : τ} (hs : R fs s t) :
    Awaits R fs { r with source := s } { q with source := t } :=
  ⟨⟨hs, h.buffer, h.ended, h.closed⟩, h.valid⟩

theorem withEnded (h : Awaits R es r q) (e : Bool) :
    Awaits R es { r with ended := e } { q with ended := e } := ⟨h.toAlike.withEnded e, h.valid⟩

end Awaits

/-- `p` is `q` with more looked at, unless `q` was at its end or held as much as anything reaches -/
structure Further (reach : Nat) (q p : Reader τ) : Prop where
  capacity : p.capacity = q.capacity
  held : q.buffer.toList <+: p.buffer.toList
  full : reach ≤ q.buffered → p.buffer.toList = q.buffer.toList
  dry : q.isDry = true → p.isDry = true ∧ p.buffer.toList = q.buffer.toList

namespace Further
variable {q p o : Reader τ}

theorem refl (reach : Nat) (q : Reader τ) : Further reach q q :=
  ⟨rfl, List.prefix_rfl, fun _ => rfl, fun h => ⟨h, rfl⟩⟩

theorem buffered_le (h : Further reach q p) : q.buffered ≤ p.buffered := by
  have := h.held.length_le
  rwa [Buffer.length_toList, Buffer.length_toList] at this

theorem trans (h : Further reach q p) (k : Further reach p o) : Further reach q o where
  capacity := k.capacity.trans h.capacity
  held := h.held.trans k.held
  full hq := (k.full (Nat.le_trans hq h.buffered_le)).trans (h.full hq)
  dry hq := ⟨(k.dry (h.dry hq).1).1, (k.dry (h.dry hq).1).2.trans (h.dry hq).2⟩

theorem mono {more : Nat} (h : Further reach q p) (hle : reach ≤ more) : Further more q p :=
  ⟨h.capacity, h.held, fun hq => h.full (Nat.le_trans hle hq), h.dry⟩

end Further

/-! ## programs -/

/-- after a failure the program can be asked for again: the one without failures goes from further
on as it goes from here -/
def Resumes (f : η → Option ε) (R : List ε → σ → τ → Prop) (reach : Nat)
    (x : EStateM η (Reader σ) α) (y : EStateM η (Reader τ) α) : Prop :=
  ∀ es r q, Awaits R es r q →
    Resumed f (Awaits R) es (fun p => Further reach q p ∧ y p = y q) (y q) (x r)

/-- having succeeded, the program gives the same from further on and changes nothing -/
def Settles (reach : Nat) (y : EStateM η (Reader τ) α) : Prop :=
  ∀ q a p, q.buffer.Valid → y q = .ok a p →
    p.buffer.Valid ∧ Further reach q p ∧ ∀ o, Further reach p o → y o = .ok a o

theorem settles_pure (a : α) : Settles reach (pure a : EStateM η (Reader τ) α) := by
  intro q b p hv h
  cases h
  exact ⟨hv, Further.refl reach q, fun _ _ => rfl⟩

theorem Settles.bind {y : EStateM η (Reader τ) α} {k : α → EStateM η (Reader τ) β}
    (hy : Settles reach y) (hk : ∀ a, Settles reach (k a)) : Settles reach (y >>= k) := by
  intro q b o hv h
  rw [bind_apply] at h
  cases hyq : y q with
  | error e p =>
    rw [hyq] at h
    cases h
  | ok a p =>
    rw [hyq] at h
    obtain ⟨hv', hfar, hagain⟩ := hy q a p hv hyq
    obtain ⟨hv'', hfar', hagain'⟩ := hk a p b o hv' h
    refine ⟨hv'', hfar.trans hfar', fun i hi => ?_⟩
    rw [bind_apply, hagain i (hfar'.trans hi)]
    exact hagain' i hi

theorem Resumes.bind {x : EStateM η (Reader σ) α} {y : EStateM η (Reader τ) α}
    {g : α → EStateM η (Reader σ) β} {k : α → EStateM η (Reader τ) β}
    (hx : Resumes f R reach x y) (hy : Settles reach y) (hg : ∀ a, Resumes f R reach (g a) (k a)) :
    Resumes f R reach (x >>= g) (y >>= k) := by
  intro es r q h
  cases hx es r q h with
  | @ok a r' q' hxr hyq h' =>
    obtain ⟨hv, hfar, hagain⟩ := hy q a q' h.valid hyq
    have hbindx : (x >>= g) r = g a r' := by rw [bind_apply, hxr]
    have hbindy : (y >>= k) q = k a q' := by rw [bind_apply, hyq]
    rw [hbindx, hbindy]
    -- a failure in what follows: what came before stands, and changes nothing when asked again
    refine (hg a es r' q' h').imp fun p moved => ⟨hfar.trans moved.1, ?_⟩
    rw [bind_apply, hagain p moved.1]
    exact moved.2
  | refused hxr hyq hd h' =>
    refine .refused ?_ ?_ hd h'
    · rw [bind_apply, hxr]
    · rw [bind_apply, hyq]
  | failed hxr hd hes h' moved =>
    refine .failed ?_ hd hes h' ⟨moved.1, ?_⟩
    · rw [bind_apply, hxr]
    · rw [bind_apply, bind_apply, moved.2]

theorem Resumes.map {x : EStateM η (Reader σ) α} {y : EStateM η (Reader τ) α} (g : α → β)
    (h : Resumes f R reach x y) : Resumes f R reach (g <$> x) (g <$> y) := by
  intro es r q hrq
  cases h es r q hrq with
  | @ok a _ _ hx hy h' =>
    refine .ok (a := g a) ?_ ?_ h'
    · rw [map_apply, hx]
    · rw [map_apply, hy]
  | refused hx hy hd h' =>
    refine .refused ?_ ?_ hd h'
    · rw [map_apply, hx]
    · rw [map_apply, hy]
  | failed hx hd hes h' moved =>
    refine .failed ?_ hd hes h' ⟨moved.1, ?_⟩
    · rw [map_apply, hx]
    · rw [map_apply, map_apply, moved.2]

theorem resumes_pure (a : α) :
    Resumes f R reach (pure a : EStateM η (Reader σ) α) (pure a) := fun _ _ _ h => .ok rfl rfl h

theorem resumes_onBuffer {x : EStateM BufferError Buffer α} {w : Nat → EStateM BufferError Window α}
    (hx : ∀ n, Agree (Buffer.Stands n) x (w n)) :
    Resumes ReadError.failure? R reach (onBuffer x : Step σ ε α) (onBuffer x) := by
  intro es r q h
  unfold onBuffer
  rw [h.buffer]
  obtain ⟨a, b, _, hb, _, hst⟩ | ⟨e, b, _, hb, _, hst⟩ :=
    (hx _ q.buffer q.buffer.window h.valid.stands).cases
  · rw [hb]
    exact .ok rfl rfl (h.withBuffer hst.valid)
  · rw [hb]
    exact .refused rfl rfl rfl (h.withBuffer hst.valid)

/-! ## tests, and letting go of what they have found -/

theorem resumes_step {x : Step σ ε α} {y : Step τ ε α}
    (h : Resumes ReadError.failure? R reach x y) :
    Resumes Halt.failure? R reach (Scan.step x) (Scan.step y) := by
  intro es r q hrq
  cases h es r q hrq with
  | @ok a _ _ hx hy h' =>
    refine .ok (a := a) ?_ ?_ h'
    · rw [Scan.step_apply, hx]
    · rw [Scan.step_apply, hy]
  | @refused d _ _ hx hy hd h' =>
    refine .refused (d := .error d) ?_ ?_ hd h'
    · rw [Scan.step_apply, hx]
    · rw [Scan.step_apply, hy]
  | @failed d _ _ _ _ hx hd hes h' moved =>
    refine .failed (d := .error d) ?_ hd hes h' ⟨moved.1, ?_⟩
    · rw [Scan.step_apply, hx]
    · rw [Scan.step_apply, Scan.step_apply, moved.2]

theorem settles_step {y : Step τ ε α} (h : Settles reach y) : Settles reach (Scan.step y) := by
  intro q a p hv hq
  rw [Scan.step_apply] at hq
  cases hy : y q with
  | error e s =>
    rw [hy] at hq
    cases hq
  | ok b s =>
    rw [hy] at hq
    cases hq
    obtain ⟨hv', hfar, hagain⟩ := h q a p hv hy
    refine ⟨hv', hfar, fun o ho => ?_⟩
    rw [Scan.step_apply, hagain o ho]

/-- the program resumes after a failure and settles when it succeeds -/
structure Recovers (R : List ε → σ → τ → Prop) (x : Scan σ ε α) (y : Scan τ ε α) : Prop where
  resumes : Resumes Halt.failure? R maxCount x y
  settles : Settles maxCount y

theorem Recovers.accepting {x : Step σ ε Bool} {y : Step τ ε Bool}
    (h : Recovers R (Scan.step x) (Scan.step y)) (n : Nat) :
    Resumes Halt.failure? R maxCount (Scan.step (accepting x n)) (Scan.step (accepting y n)) := by
  unfold Reader.accepting
  rw [Scan.step_bind, Scan.step_bind]
  refine h.resumes.bind h.settles fun b => ?_
  cases b with
  | false => exact resumes_step (resumes_pure false)
  | true => exact resumes_step ((resumes_onBuffer fun _ => Buffer.agree_advance n).map fun _ => true)

end Lookahead.Reader
