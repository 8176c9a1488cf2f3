/-!
# Programs that agree

Two programs work on states of different types.  They agree under a relation of these states when,
started in related states, they give the same value or fail with the same error, and end in related
states either way.  Agreement goes through sequencing, so that it is shown for the smallest steps
and then holds of what is composed of them in the same way.

* `finalState`, `outcomeOf`   where a program ends, and what it comes to;
* `Same`         two results say the same and leave related states;
* `Beside`       so do two results of programs that cannot fail;
* `Agree`        two programs do so from all related states;
* `translate`    a program that tells its errors in another way;
* `Resumed`      two results say the same, or the first one tells a failure that the second one lacks.
-/

namespace Lookahead

/-- the state in which a program ends, whatever its outcome -/
def finalState {ε σ α : Type} : EStateM.Result ε σ α → σ
  | .ok _ s => s
  | .error _ s => s

/-- what a program comes to, whatever state it ends in -/
def outcomeOf {ε σ α : Type} : EStateM.Result ε σ α → Except ε α
  | .ok a _ => .ok a
  | .error e _ => .error e

theorem exists_of_outcome {ε σ α : Type} {x : EStateM.Result ε σ α} {a : α}
    (h : (outcomeOf x).toOption = some a) : ∃ s, x = .ok a s := by
  cases x with
  | ok b s =>
    cases h
    exact ⟨s, rfl⟩
  | error e s => cases h

variable {σ τ ε δ α β : Type} {R : σ → τ → Prop}

/-- both results have the same value, or the same error, and leave related states -/
def Same (R : σ → τ → Prop) : EStateM.Result ε σ α → EStateM.Result ε τ α → Prop
  | .ok a s, .ok b t => a = b ∧ R s t
  | .error e s, .error f t => e = f ∧ R s t
  | _, _ => False

/-- both results have the same value and leave related states -/
def Beside (R : σ → τ → Prop) (p : α × σ) (q : α × τ) : Prop := p.1 = q.1 ∧ R p.2 q.2

/-- from related states the programs have the same outcome and end in related states -/
def Agree (R : σ → τ → Prop) (x : EStateM ε σ α) (y : EStateM ε τ α) : Prop :=
  ∀ s t, R s t → Same R (x s) (y t)

/-! ## results -/

namespace Same

theorem ok (a : α) {s : σ} {t : τ} (h : R s t) :
    Same R (.ok a s : EStateM.Result ε σ α) (.ok a t) := ⟨rfl, h⟩

theorem error (e : ε) {s : σ} {t : τ} (h : R s t) :
    Same R (.error e s : EStateM.Result ε σ α) (.error e t) := ⟨rfl, h⟩

theorem cases {x : EStateM.Result ε σ α} {y : EStateM.Result ε τ α} (h : Same R x y) :
    (∃ a s t, x = .ok a s ∧ y = .ok a t ∧ R s t) ∨
      ∃ e s t, x = .error e s ∧ y = .error e t ∧ R s t := by
  match x, y with
  | .ok a s, .ok b t =>
    obtain ⟨rfl, hr⟩ := h
    exact .inl ⟨a, s, t, rfl, rfl, hr⟩
  | .error e s, .error f t =>
    obtain ⟨rfl, hr⟩ := h
    exact .inr ⟨e, s, t, rfl, rfl, hr⟩

theorem of_ok {x : EStateM.Result ε σ α} {y : EStateM.Result ε τ α} (h : Same R x y) {a : α}
    {s : σ} (hx : x = .ok a s) : ∃ t, y = .ok a t ∧ R s t := by
  subst hx
  match y with
  | .ok b t =>
    obtain ⟨rfl, hr⟩ := h
    exact ⟨t, rfl, hr⟩

theorem outcome {x : EStateM.Result ε σ α} {y : EStateM.Result ε τ α} (h : Same R x y) :
    outcomeOf x = outcomeOf y := by
  obtain ⟨a, s, t, rfl, rfl, -⟩ | ⟨e, s, t, rfl, rfl, -⟩ := h.cases <;> rfl

theorem mono {R' : σ → τ → Prop} {x : EStateM.Result ε σ α} {y : EStateM.Result ε τ α}
    (h : Same R x y) (hR : ∀ s t, R s t → R' s t) : Same R' x y := by
  obtain ⟨a, s, t, rfl, rfl, hr⟩ | ⟨e, s, t, rfl, rfl, hr⟩ := h.cases
  · exact ok a (hR s t hr)
  · exact error e (hR s t hr)

theorem symm {S : τ → σ → Prop} {x : EStateM.Result ε σ α} {y : EStateM.Result ε τ α}
    (h : Same R x y) (hR : ∀ s t, R s t → S t s) : Same S y x := by
  obtain ⟨a, s, t, rfl, rfl, hr⟩ | ⟨e, s, t, rfl, rfl, hr⟩ := h.cases
  · exact ok a (hR s t hr)
  · exact error e (hR s t hr)

theorem trans {R : σ → σ → Prop} {x y z : EStateM.Result ε σ α} (h : Same R x y)
    (k : Same R y z) (hR : ∀ s t u, R s t → R t u → R s u) : Same R x z := by
  obtain ⟨a, s, t, rfl, rfl, hr⟩ | ⟨e, s, t, rfl, rfl, hr⟩ := h.cases
  · obtain ⟨u, rfl, hu⟩ := k.of_ok rfl
    exact ok a (hR s t u hr hu)
  · obtain ⟨_, _, _, hno, _⟩ | ⟨f, t', u, hf, rfl, hu⟩ := k.cases
    · cases hno
    · cases hf
      exact error e (hR s t u hr hu)

end Same

/-! ## results of which one may have failed -/

/-- a result `x`, and `y` without the failures `es` that are to be met: both give the same or are
refused for the same reason, or the first of the failures is met, and then `Q` holds of the state
that stands beside the one reached; `f` tells failures from refusals -/
inductive Resumed (f : ε → Option δ) (A : List δ → σ → τ → Prop) (es : List δ) (Q : τ → Prop)
    (y : EStateM.Result ε τ α) (x : EStateM.Result ε σ α) : Prop where
  | ok {a : α} {s : σ} {t : τ} (gives : x = .ok a s) (also : y = .ok a t) (awaits : A es s t)
  | refused {d : ε} {s : σ} {t : τ} (refuses : x = .error d s) (also : y = .error d t)
      (other : f d = none) (awaits : A es s t)
  | failed {d : ε} {e : δ} {fs : List δ} {s : σ} {p : τ} (fails : x = .error d s)
      (failure : f d = some e) (first : es = e :: fs) (awaits : A fs s p) (moved : Q p)

theorem Resumed.imp {f : ε → Option δ} {A : List δ → σ → τ → Prop} {es : List δ} {Q Q' : τ → Prop}
    {y : EStateM.Result ε τ α} {x : EStateM.Result ε σ α} (h : Resumed f A es Q y x)
    (hQ : ∀ p, Q p → Q' p) : Resumed f A es Q' y x := by
  cases h with
  | ok hx hy h' => exact .ok hx hy h'
  | refused hx hy hd h' => exact .refused hx hy hd h'
  | failed hx hd hes h' moved => exact .failed hx hd hes h' (hQ _ moved)

/-! ## programs -/

namespace Agree

theorem pure (a : α) : Agree R (pure a : EStateM ε σ α) (pure a) := fun _ _ h => Same.ok a h

theorem throw (e : ε) : Agree R (throw e : EStateM ε σ α) (throw e) := fun _ _ h => Same.error e h

theorem bind {x : EStateM ε σ α} {y : EStateM ε τ α} {f : α → EStateM ε σ β}
    {g : α → EStateM ε τ β} (hxy : Agree R x y) (hfg : ∀ a, Agree R (f a) (g a)) :
    Agree R (x >>= f) (y >>= g) := by
  intro s t h
  show Same R (EStateM.bind x f s) (EStateM.bind y g t)
  unfold EStateM.bind
  obtain ⟨a, s', t', hx, hy, hr⟩ | ⟨e, s', t', hx, hy, hr⟩ := (hxy s t h).cases
  · rw [hx, hy]
    exact hfg a s' t' hr
  · rw [hx, hy]
    exact Same.error e hr

theorem map {x : EStateM ε σ α} {y : EStateM ε τ α} (f : α → β) (h : Agree R x y) :
    Agree R (f <$> x) (f <$> y) := by
  intro s t hst
  show Same R (EStateM.map f x s) (EStateM.map f y t)
  unfold EStateM.map
  obtain ⟨a, s', t', hx, hy, hr⟩ | ⟨e, s', t', hx, hy, hr⟩ := (h s t hst).cases
  · rw [hx, hy]
    exact Same.ok (f a) hr
  · rw [hx, hy]
    exact Same.error e hr

end Agree

/-! ## errors told in another way -/

/-- the same program with its errors told in another way -/
def translate (f : ε → δ) (x : EStateM ε σ α) : EStateM δ σ α := fun s =>
  match x s with
  | .ok a s => .ok a s
  | .error e s => .error (f e) s

section
variable {f : ε → δ} {x : EStateM ε σ α} {s : σ}

theorem translate_apply (f : ε → δ) (x : EStateM ε σ α) (s : σ) :
    translate f x s = match x s with
      | .ok a s => .ok a s
      | .error e s => .error (f e) s := rfl

theorem translate_bind (f : ε → δ) (x : EStateM ε σ α) (g : α → EStateM ε σ β) :
    translate f (x >>= g) = translate f x >>= fun a => translate f (g a) := by
  funext s
  show (match EStateM.bind x g s with | .ok a s => _ | .error e s => _) =
    EStateM.bind (translate f x) _ s
  unfold EStateM.bind translate
  cases x s <;> rfl

theorem translate_map (f : ε → δ) (g : α → β) (x : EStateM ε σ α) :
    translate f (g <$> x) = g <$> translate f x := by
  funext s
  show (match EStateM.map g x s with | .ok a s => _ | .error e s => _) =
    EStateM.map g (translate f x) s
  unfold EStateM.map translate
  cases x s <;> rfl

theorem translate_id (x : EStateM ε σ α) : translate id x = x := by
  funext s
  unfold translate
  cases x s <;> rfl

theorem outcomeOf_translate (f : ε → δ) (x : EStateM ε σ α) (s : σ) :
    outcomeOf (translate f x s) = (outcomeOf (x s)).mapError f := by
  rw [translate_apply]
  cases x s <;> rfl

theorem Same.told {y : EStateM.Result δ τ α} (h : Same R (translate f x s) y) :
    (∃ a s' t, x s = .ok a s' ∧ y = .ok a t ∧ R s' t) ∨
      ∃ e s' t, x s = .error e s' ∧ y = .error (f e) t ∧ R s' t := by
  unfold translate at h
  cases hx : x s with
  | ok a s' =>
    rw [hx] at h
    obtain ⟨t, hy, hr⟩ := h.of_ok rfl
    exact .inl ⟨a, s', t, rfl, hy, hr⟩
  | error e s' =>
    rw [hx] at h
    obtain ⟨_, _, _, hno, _⟩ | ⟨_, _, t, he, hy, hr⟩ := h.cases
    · cases hno
    · cases he
      exact .inr ⟨e, s', t, rfl, hy, hr⟩

end

end Lookahead
