import Mathlib.Data.List.Basic

/-!
# Computations that may fail

How a sequence of fallible computations, and a traversal of a list, succeed.
-/

namespace MinCpuForth.Lib.Fallible

variable {ε α β : Type}

/-- A sequence succeeds when both its parts do. -/
lemma bind_eq_ok {x : Except ε α} {f : α → Except ε β} {b : β} :
    x >>= f = .ok b ↔ ∃ a, x = .ok a ∧ f a = .ok b := by
  cases x with
  | error e => simp [bind, Except.bind]
  | ok a => simp [bind, Except.bind]

/-- What follows needs to agree only where the computation succeeds. -/
lemma bind_congr {x : Except ε α} {f g : α → Except ε β} (h : ∀ a, x = .ok a → f a = g a) :
    x >>= f = x >>= g := by
  cases x with
  | error e => rfl
  | ok a => exact h a rfl

/-- A result with both its error and its value mapped. -/
def both {α' : Type} (f : ε → ε) (g : α → α') : Except ε α → Except ε α'
  | .error e => .error (f e)
  | .ok a => .ok (g a)

/-- Sequences whose parts are mapped. -/
lemma both_bind {α' β' : Type} {f : ε → ε} {g : α → α'} {h : β → β'} {x : Except ε α}
    {x' : Except ε α'} {k : α → Except ε β} {k' : α' → Except ε β'} (first : x' = both f g x)
    (rest : ∀ a, x = .ok a → k' (g a) = both f h (k a)) : x' >>= k' = both f h (x >>= k) := by
  cases x with
  | error e =>
    rw [first]
    rfl
  | ok a =>
    rw [first]
    exact rest a rfl

section Traversal

variable {f : α → Except ε β}

/-- A traversal succeeds item by item. -/
lemma mapM_cons_eq_ok {x : α} {xs : List α} {zs : List β} : (x :: xs).mapM f = .ok zs ↔
    ∃ y ys, f x = .ok y ∧ xs.mapM f = .ok ys ∧ zs = y :: ys := by
  rw [List.mapM_cons, bind_eq_ok]
  constructor
  · rintro ⟨y, hy, h⟩
    obtain ⟨ys, hys, e⟩ := bind_eq_ok.mp h
    cases e
    exact ⟨y, ys, hy, hys, rfl⟩
  · rintro ⟨y, ys, hy, hys, rfl⟩
    exact ⟨y, hy, bind_eq_ok.mpr ⟨ys, hys, rfl⟩⟩

/-- A traversal yields one result for each item. -/
lemma length_of_mapM {xs : List α} {ys : List β} (h : xs.mapM f = .ok ys) :
    ys.length = xs.length := by
  induction xs generalizing ys with
  | nil =>
    cases h
    rfl
  | cons x xs ih =>
    obtain ⟨y, ys, -, hys, rfl⟩ := mapM_cons_eq_ok.mp h
    simp [ih hys]

/-- A traversal succeeds position by position. -/
lemma mapM_getElem? {xs : List α} {ys : List β} (h : xs.mapM f = .ok ys) {k : ℕ} {x : α}
    (hx : xs[k]? = some x) : ∃ y, ys[k]? = some y ∧ f x = .ok y := by
  induction xs generalizing ys k with
  | nil => cases hx
  | cons x' xs ih =>
    obtain ⟨y, ys, hy, hys, rfl⟩ := mapM_cons_eq_ok.mp h
    cases k with
    | zero =>
      cases hx
      exact ⟨y, rfl, hy⟩
    | succ k => exact ih hys hx

/-- A traversal succeeds exactly when every item does. -/
lemma mapM_succeeds {xs : List α} :
    (∃ ys, xs.mapM f = .ok ys) ↔ ∀ x ∈ xs, ∃ y, f x = .ok y := by
  induction xs with
  | nil =>
    refine ⟨fun _ _ mem => ?_, fun _ => ⟨[], rfl⟩⟩
    cases mem
  | cons x xs ih =>
    rw [List.forall_mem_cons, ← ih]
    constructor
    · rintro ⟨zs, h⟩
      obtain ⟨y, ys, hy, hys, -⟩ := mapM_cons_eq_ok.mp h
      exact ⟨⟨y, hy⟩, ys, hys⟩
    · rintro ⟨⟨y, hy⟩, ys, hys⟩
      exact ⟨y :: ys, mapM_cons_eq_ok.mpr ⟨y, ys, hy, hys, rfl⟩⟩

/-- A traversal fails where one of its items does. -/
lemma mapM_eq_error {xs : List α} {e : ε} (h : xs.mapM f = .error e) : ∃ x ∈ xs, f x = .error e := by
  induction xs with
  | nil => cases h
  | cons x xs ih =>
    rw [List.mapM_cons] at h
    cases first : f x with
    | error e' =>
      rw [first] at h
      cases h
      exact ⟨x, List.mem_cons_self .., first⟩
    | ok y =>
      cases rest : xs.mapM f with
      | error e' =>
        simp only [first, rest, bind, Except.bind] at h
        cases h
        obtain ⟨x', mem, e⟩ := ih rest
        exact ⟨x', List.mem_cons_of_mem _ mem, e⟩
      | ok ys =>
        simp only [first, rest, bind, Except.bind, pure, Except.pure] at h
        cases h

end Traversal

end MinCpuForth.Lib.Fallible
