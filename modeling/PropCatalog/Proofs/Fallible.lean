import Mathlib.Data.List.Forall2

/-!
# Computations that may fail — what a success says

A computation that succeeds has succeeded in each of its parts. Later proofs take computations apart
by these statements.

- `bind_eq_ok_iff`, `mapError_eq_ok_iff`, `mapM_eq_ok_iff`, `foldlM_cons_eq_ok_iff` : results
- `bind_eq_error_iff`, `bind_pure_eq_error_iff`, `exists_of_mapM_eq_error` : failures
- `exists_mapM_eq_ok_iff`, `exists_foldlM_eq_ok_iff` : when there is a result at all
- `error_or_ok` : computations that can fail in one way only
- `mapM_congr` : computations that agree, in success and in failure
- `run_bind_eq_ok_iff`, `run_bind_eq_error_iff`, `run_ofExcept_eq_ok_iff`,
  `run_ofExcept_eq_error_iff` : steps that also change a state
-/

namespace PropCatalog

/-! ## Results or errors -/

theorem bind_eq_ok_iff {ε α β : Type} {x : Except ε α} {f : α → Except ε β} {b : β} :
    x >>= f = .ok b ↔ ∃ a, x = .ok a ∧ f a = .ok b := by
  cases x with
  | error e =>
    constructor
    · intro h
      cases h
    · intro hcase
      rcases hcase with ⟨a, h, -⟩
      cases h
  | ok a =>
    constructor
    · exact fun h => ⟨a, rfl, h⟩
    · intro hcase
      rcases hcase with ⟨_, h, hf⟩
      cases h
      exact hf

theorem bind_eq_error_iff {ε α β : Type} {x : Except ε α} {f : α → Except ε β} {e : ε} :
    x >>= f = .error e ↔ x = .error e ∨ ∃ a, x = .ok a ∧ f a = .error e := by
  cases x with
  | error e' => simp [bind, Except.bind]
  | ok a => simp [bind, Except.bind]

/-- What is made of a result without a further check fails where the result fails. -/
theorem bind_pure_eq_error_iff {ε α β : Type} {x : Except ε α} {f : α → β} {e : ε} :
    (x >>= fun a => pure (f a)) = .error e ↔ x = .error e := by
  cases x with
  | error e' => simp [bind, Except.bind]
  | ok a => simp [bind, Except.bind, pure, Except.pure]

theorem exists_bind_pure_eq_ok_iff {ε α β : Type} {x : Except ε α} {f : α → β} :
    (∃ b, (x >>= fun a => pure (f a)) = .ok b) ↔ ∃ a, x = .ok a := by
  constructor
  · rintro ⟨b, hb⟩
    rcases bind_eq_ok_iff.1 hb with ⟨a, ha, -⟩
    exact ⟨a, ha⟩
  · rintro ⟨a, ha⟩
    exact ⟨f a, bind_eq_ok_iff.2 ⟨a, ha, rfl⟩⟩

theorem mapError_eq_ok_iff {ε ε' α : Type} {x : Except ε α} {f : ε → ε'} {a : α} :
    x.mapError f = .ok a ↔ x = .ok a := by
  cases x <;> simp [Except.mapError]

theorem mapError_eq_error_iff {ε ε' α : Type} {x : Except ε α} {f : ε → ε'} {e : ε'} :
    x.mapError f = .error e ↔ ∃ e', x = .error e' ∧ f e' = e := by
  cases x <;> simp [Except.mapError]

/-- A computation that fails exactly under a condition, and always in the same way, fails so or the
condition does not hold and there is a result. -/
theorem error_or_ok {ε α : Type} {x : Except ε α} {P : Prop} {failure : ε} {Q : α → Prop}
    (herror : ∀ e, x = .error e ↔ P ∧ e = failure) (hok : ∀ a, x = .ok a → Q a) :
    P ∧ x = .error failure ∨ ¬ P ∧ ∃ a, x = .ok a ∧ Q a := by
  cases x with
  | error e =>
    rcases (herror e).1 rfl with ⟨hP, rfl⟩
    exact Or.inl ⟨hP, rfl⟩
  | ok a =>
    refine Or.inr ⟨fun hP => ?_, a, rfl, hok a rfl⟩
    cases (herror failure).2 ⟨hP, rfl⟩

theorem mapM_eq_ok_iff {ε α β : Type} {f : α → Except ε β} {xs : List α} {ys : List β} :
    xs.mapM f = .ok ys ↔ List.Forall₂ (fun x y => f x = .ok y) xs ys := by
  induction xs generalizing ys with
  | nil =>
    constructor
    · intro h
      cases h
      exact List.Forall₂.nil
    · intro h
      cases h
      rfl
  | cons x xs ih =>
    simp only [List.mapM_cons, bind_eq_ok_iff, ih]
    constructor
    · intro hcase
      rcases hcase with ⟨y, hy, zs, hzs, heq⟩
      cases heq
      exact List.Forall₂.cons hy hzs
    · intro h
      cases h with
      | cons hy hzs => exact ⟨_, hy, _, hzs, rfl⟩

theorem exists_of_mem_mapM {ε α β : Type} {f : α → Except ε β} {xs : List α} {ys : List β}
    (h : xs.mapM f = .ok ys) {y : β} (hy : y ∈ ys) : ∃ x ∈ xs, f x = .ok y := by
  have hforall := mapM_eq_ok_iff.1 h
  clear h
  induction hforall with
  | nil => cases hy
  | @cons x y' xs ys hx _ ih =>
    rcases List.mem_cons.1 hy with rfl | hy
    · exact ⟨x, List.mem_cons_self, hx⟩
    · rcases ih hy with ⟨x', hx', hf⟩
      exact ⟨x', List.mem_cons_of_mem _ hx', hf⟩

theorem exists_result_of_mapM {ε α β : Type} {f : α → Except ε β} {xs : List α} {ys : List β}
    (h : xs.mapM f = .ok ys) {x : α} (hx : x ∈ xs) : ∃ y ∈ ys, f x = .ok y := by
  have hforall := mapM_eq_ok_iff.1 h
  clear h
  induction hforall with
  | nil => cases hx
  | @cons x' y xs ys hy _ ih =>
    rcases List.mem_cons.1 hx with rfl | hx
    · exact ⟨y, List.mem_cons_self, hy⟩
    · rcases ih hx with ⟨y', hy', hf⟩
      exact ⟨y', List.mem_cons_of_mem _ hy', hf⟩

theorem exists_of_mapM_eq_error {ε α β : Type} {f : α → Except ε β} {xs : List α} {e : ε}
    (h : xs.mapM f = .error e) : ∃ x ∈ xs, f x = .error e := by
  induction xs with
  | nil => cases h
  | cons x xs ih =>
    rw [List.mapM_cons] at h
    rcases bind_eq_error_iff.1 h with hfirst | ⟨y, -, h⟩
    · exact ⟨x, List.mem_cons_self, hfirst⟩
    · rcases ih (bind_pure_eq_error_iff.1 h) with ⟨x', hx', hfail⟩
      exact ⟨x', List.mem_cons_of_mem x hx', hfail⟩

/-- A list of computations succeeds if each of them does. -/
theorem exists_mapM_eq_ok_iff {ε α β : Type} {f : α → Except ε β} {xs : List α} :
    (∃ ys, xs.mapM f = .ok ys) ↔ ∀ x ∈ xs, ∃ y, f x = .ok y := by
  constructor
  · intro hcase x hx
    rcases hcase with ⟨ys, hys⟩
    rcases exists_result_of_mapM hys hx with ⟨y, -, hy⟩
    exact ⟨y, hy⟩
  · intro h
    induction xs with
    | nil => exact ⟨[], rfl⟩
    | cons x xs ih =>
      rcases h x List.mem_cons_self with ⟨y, hy⟩
      rcases ih fun x' hx' => h x' (List.mem_cons_of_mem x hx') with ⟨ys, hys⟩
      exact ⟨y :: ys, mapM_eq_ok_iff.2 (List.Forall₂.cons hy (mapM_eq_ok_iff.1 hys))⟩

theorem mapM_congr {ε α β : Type} {f g : α → Except ε β} {xs : List α} (h : ∀ x ∈ xs, f x = g x) :
    xs.mapM f = xs.mapM g := by
  induction xs with
  | nil => rfl
  | cons x xs ih =>
    have hrest := ih fun y hy => h y (List.mem_cons_of_mem _ hy)
    rw [List.mapM_cons, List.mapM_cons, h x List.mem_cons_self, hrest]

theorem foldlM_cons_eq_ok_iff {ε α β : Type} {f : β → α → Except ε β} {a : α} {as : List α}
    {b r : β} :
    (a :: as).foldlM f b = .ok r ↔ ∃ b', f b a = .ok b' ∧ as.foldlM f b' = .ok r := by
  rw [List.foldlM_cons]
  exact bind_eq_ok_iff

/-- A fold of steps succeeds with a good value if each of them does. What `Fits` says about a value
and the elements ahead of it is enough to tell, and it is kept by the steps. -/
theorem exists_foldlM_eq_ok_iff {ε α β : Type} {f : β → α → Except ε β} {P : α → Prop}
    {Good : β → Prop} (Fits : β → List α → Prop)
    (hstep : ∀ {b a as}, Fits b (a :: as) → ((∃ b', f b a = .ok b' ∧ Good b') ↔ Good b ∧ P a))
    (hkept : ∀ {b a as b'}, Fits b (a :: as) → f b a = .ok b' → Fits b' as)
    {as : List α} {b : β} (h : Fits b as) :
    (∃ r, as.foldlM f b = .ok r ∧ Good r) ↔ Good b ∧ ∀ a ∈ as, P a := by
  induction as generalizing b with
  | nil =>
    constructor
    · rintro ⟨r, hr, hgood⟩
      cases hr
      exact ⟨hgood, fun _ ha => absurd ha List.not_mem_nil⟩
    · rintro ⟨hgood, -⟩
      exact ⟨b, rfl, hgood⟩
  | cons a as ih =>
    simp only [foldlM_cons_eq_ok_iff, List.forall_mem_cons, ← and_assoc, ← hstep h]
    constructor
    · rintro ⟨r, ⟨b', hb', hr⟩, hgood⟩
      rcases (ih (hkept h hb')).1 ⟨r, hr, hgood⟩ with ⟨hgood', hrest⟩
      exact ⟨⟨b', hb', hgood'⟩, hrest⟩
    · rintro ⟨⟨b', hb', hgood'⟩, hrest⟩
      rcases (ih (hkept h hb')).2 ⟨hgood', hrest⟩ with ⟨r, hr, hgood⟩
      exact ⟨r, ⟨b', hb', hr⟩, hgood⟩

/-! ## Steps -/

/-- A result or error that is known before, as a step. -/
theorem run_ofExcept_eq_ok_iff {ε σ α : Type} {x : Except ε α} {s s' : σ} {a : α} :
    (ofExcept x : EStateM ε σ α) s = .ok a s' ↔ x = .ok a ∧ s = s' := by
  cases x with
  | error e =>
    have hthrow : (ofExcept (.error e) : EStateM ε σ α) s = .error e s := rfl
    simp [hthrow]
  | ok b =>
    have hpure : (ofExcept (.ok b) : EStateM ε σ α) s = .ok b s := rfl
    simp [hpure]

theorem run_ofExcept_eq_error_iff {ε σ α : Type} {x : Except ε α} {s s' : σ} {e : ε} :
    (ofExcept x : EStateM ε σ α) s = .error e s' ↔ x = .error e ∧ s = s' := by
  cases x with
  | error e' =>
    have hthrow : (ofExcept (.error e') : EStateM ε σ α) s = .error e' s := rfl
    simp [hthrow]
  | ok a =>
    have hpure : (ofExcept (.ok a) : EStateM ε σ α) s = .ok a s := rfl
    simp [hpure]

theorem run_bind_eq_ok_iff {ε σ α β : Type} {x : EStateM ε σ α} {f : α → EStateM ε σ β} {s s' : σ}
    {b : β} :
    (x >>= f) s = .ok b s' ↔ ∃ a s₁, x s = .ok a s₁ ∧ f a s₁ = .ok b s' := by
  have hbind : (x >>= f) s = EStateM.bind x f s := rfl
  rw [hbind, EStateM.bind]
  cases hx : x s with
  | error e s₁ => simp
  | ok a s₁ => simp

/-- A sequence of two steps fails in the first one, or in the second one after the first. -/
theorem run_bind_eq_error_iff {ε σ α β : Type} {x : EStateM ε σ α} {f : α → EStateM ε σ β}
    {s s' : σ} {e : ε} :
    (x >>= f) s = .error e s' ↔
      x s = .error e s' ∨ ∃ a s₁, x s = .ok a s₁ ∧ f a s₁ = .error e s' := by
  have hbind : (x >>= f) s = EStateM.bind x f s := rfl
  rw [hbind, EStateM.bind]
  cases hx : x s with
  | error e s₁ => simp
  | ok a s₁ => simp

end PropCatalog
