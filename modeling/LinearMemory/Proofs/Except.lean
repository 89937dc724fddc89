import Mathlib.Data.List.Forall2

/-!
# Computations that may fail

When such a computation ends well, and what it fails for, told by its parts. Two computations in a
row end well if both do (`bind_eq_ok_iff`), one over a list if it does for each element
(`mapM_eq_ok_iff`, `forM_eq_ok_iff`), and a list of checks fails for the first of them that does not
pass (`forM_eq_error_iff`). A computation whose result is of no interest is a check: `discard` keeps
whether it ends well, and its fault.

Nothing here is about memories or texts. The operations and the readers are taken apart with it.
-/

namespace LinearMemory

variable {ε ε' α β σ : Type}

/-! ### One computation, and two in a row -/

-- Not by `rfl`, so that a chain of computations is kept step by step and the kernel need not find
-- it again.
@[simp] theorem ok_bind (a : α) (f : α → Except ε β) : (Except.ok a >>= f) = f a := by
  simp only [bind, Except.bind]

@[simp] theorem error_bind (fault : ε) (f : α → Except ε β) :
    (Except.error fault >>= f) = .error fault := by
  simp only [bind, Except.bind]

@[simp] theorem pure_eq_ok_iff {a b : α} : (pure a : Except ε α) = .ok b ↔ a = b :=
  ⟨Except.ok.inj, congrArg Except.ok⟩

@[simp] theorem bind_eq_ok_iff {x : Except ε α} {f : α → Except ε β} {b : β} :
    (x >>= f) = .ok b ↔ ∃ a, x = .ok a ∧ f a = .ok b := by
  cases x with
  | error fault => exact ⟨by nofun, fun ⟨_, h, _⟩ => nomatch h⟩
  | ok a =>
    refine ⟨fun h => ⟨a, rfl, h⟩, ?_⟩
    rintro ⟨_, ⟨⟩, h⟩
    exact h

@[simp] theorem map_eq_ok_iff {f : α → β} {x : Except ε α} {b : β} :
    f <$> x = .ok b ↔ ∃ a, x = .ok a ∧ f a = b := by
  cases x with
  | error fault => exact ⟨by nofun, fun ⟨_, h, _⟩ => nomatch h⟩
  | ok a =>
    constructor
    · exact fun h => ⟨a, rfl, Except.ok.inj h⟩
    · rintro ⟨_, ⟨⟩, rfl⟩
      rfl

/-- Another account of a failure does not make a success of it. -/
@[simp] theorem mapError_eq_ok_iff {f : ε → ε'} {x : Except ε α} {a : α} :
    x.mapError f = .ok a ↔ x = .ok a := by
  cases x with
  | error fault => exact ⟨nofun, nofun⟩
  | ok a' => exact ⟨fun h => congrArg _ (Except.ok.inj h), fun h => congrArg _ (Except.ok.inj h)⟩

/-! ### One computation after the other -/

theorem mapM_eq_ok_iff {f : α → Except ε β} {xs : List α} {ys : List β} :
    xs.mapM f = .ok ys ↔ List.Forall₂ (fun x y => f x = .ok y) xs ys := by
  induction xs generalizing ys with
  | nil =>
    rw [List.mapM_nil, List.forall₂_nil_left_iff]
    exact ⟨fun h => (Except.ok.inj h).symm, fun h => by rw [h]; rfl⟩
  | cons x xs ih =>
    simp only [List.mapM_cons, bind_eq_ok_iff, List.forall₂_cons_left_iff, ih]
    constructor
    · rintro ⟨y, hy, rest, hrest, heq⟩
      exact ⟨y, rest, hy, hrest, (Except.ok.inj heq).symm⟩
    · rintro ⟨y, rest, hy, hrest, rfl⟩
      exact ⟨y, hy, rest, hrest, rfl⟩

/-- **A change that commutes with every step** commutes with all of them. -/
theorem foldlM_change {step : σ → α → Except ε σ} (change : σ → σ) (P : σ → Prop)
    (hstep : ∀ x, P x → ∀ a, step (change x) a = change <$> step x a)
    (hkeep : ∀ x a y, P x → step x a = .ok y → P y) {x : σ} (hx : P x) (parts : List α) :
    parts.foldlM step (change x) = change <$> parts.foldlM step x := by
  induction parts generalizing x with
  | nil => rfl
  | cons a parts ih =>
    rw [List.foldlM_cons, List.foldlM_cons, hstep x hx a]
    cases hy : step x a with
    | error fault => rfl
    | ok y => exact ih (hkeep x a y hx hy)

/-! ### Checks -/

@[simp] theorem discard_eq_ok_iff {x : Except ε α} : discard x = .ok () ↔ ∃ a, x = .ok a := by
  cases x with
  | error fault => exact ⟨nofun, nofun⟩
  | ok a => exact ⟨fun _ => ⟨a, rfl⟩, fun _ => rfl⟩

@[simp] theorem discard_eq_error_iff {x : Except ε α} {fault : ε} :
    discard x = .error fault ↔ x = .error fault := by
  cases x with
  | error fault' => exact ⟨fun h => congrArg _ (Except.error.inj h), fun h => by rw [h]; rfl⟩
  | ok a => exact ⟨nofun, nofun⟩

theorem discard_of_ok {x : Except ε α} {a : α} (h : x = .ok a) : discard x = .ok () :=
  discard_eq_ok_iff.2 ⟨a, h⟩

@[simp] theorem discard_map (f : α → β) (x : Except ε α) : discard (f <$> x) = discard x := by
  cases x <;> rfl

section Checks

variable {f : α → Except ε Unit} {xs : List α}

theorem forM_eq_ok_iff : xs.forM f = .ok () ↔ ∀ x ∈ xs, f x = .ok () := by
  induction xs with
  | nil => exact ⟨fun _ => List.forall_mem_nil _, fun _ => rfl⟩
  | cons x xs ih =>
    change (f x >>= fun _ => xs.forM f) = .ok () ↔ _
    rw [bind_eq_ok_iff, List.forall_mem_cons, ih]
    constructor
    · rintro ⟨_, hx, hxs⟩
      exact ⟨hx, hxs⟩
    · rintro ⟨hx, hxs⟩
      exact ⟨(), hx, hxs⟩

/-- **The first check that fails** is the one that all of them fail for. -/
theorem forM_eq_error_iff {fault : ε} :
    xs.forM f = .error fault ↔
      ∃ before x after, xs = before ++ x :: after ∧ (∀ y ∈ before, f y = .ok ()) ∧
        f x = .error fault := by
  induction xs with
  | nil =>
    constructor
    · intro h
      exact absurd h (by nofun)
    · rintro ⟨before, x, after, h, -⟩
      exact absurd h.symm (List.append_ne_nil_of_right_ne_nil _ (List.cons_ne_nil x after))
  | cons x xs ih =>
    change (f x >>= fun _ => xs.forM f) = .error fault ↔ _
    cases hx : f x with
    | error fault' =>
      constructor
      · intro h
        exact ⟨[], x, xs, rfl, List.forall_mem_nil _, hx.trans h⟩
      · rintro ⟨before, y, after, heq, hbefore, hy⟩
        -- no check can come before the one that fails first
        cases before with
        | nil =>
          obtain ⟨rfl, -⟩ := List.cons.inj heq
          exact hx.symm.trans hy
        | cons z before =>
          obtain ⟨rfl, -⟩ := List.cons.inj heq
          rw [hbefore x List.mem_cons_self] at hx
          cases hx
    | ok u =>
      change xs.forM f = .error fault ↔ _
      rw [ih]
      constructor
      · rintro ⟨before, y, after, rfl, hbefore, hy⟩
        exact ⟨x :: before, y, after, rfl, List.forall_mem_cons.2 ⟨hx, hbefore⟩, hy⟩
      · rintro ⟨before, y, after, heq, hbefore, hy⟩
        cases before with
        | nil =>
          obtain ⟨rfl, -⟩ := List.cons.inj heq
          rw [hy] at hx
          cases hx
        | cons z before =>
          obtain ⟨rfl, rfl⟩ := List.cons.inj heq
          exact ⟨before, y, after, rfl, (List.forall_mem_cons.1 hbefore).2, hy⟩

end Checks

end LinearMemory
