import Mathlib.Data.Int.Notation
import Mathlib.Data.List.Basic
import Mathlib.Data.List.Induction
import Mathlib.Logic.Function.Basic

/-!
# Runs of cells

A store is read as a function from addresses to values. `CellsAt cell a xs` says that the cells
from address `a` on hold `xs`.
-/

namespace MinCpuForth.Lib

variable {α : Type*} {cell cell' : ℤ → α} {a : ℤ} {xs ys : List α}

/-- The cells from address `a` on hold the list, in order. -/
def CellsAt (cell : ℤ → α) (a : ℤ) : List α → Prop
  | [] => True
  | x :: xs => cell a = x ∧ CellsAt cell (a + 1) xs

instance CellsAt.decidable [DecidableEq α] :
    ∀ (a : ℤ) (xs : List α), Decidable (CellsAt cell a xs)
  | _, [] => isTrue trivial
  | a, x :: xs =>
    have := CellsAt.decidable (a + 1) xs
    inferInstanceAs (Decidable (cell a = x ∧ CellsAt cell (a + 1) xs))

namespace CellsAt

@[simp] lemma nil : CellsAt cell a [] := trivial

@[simp] lemma cons {x : α} : CellsAt cell a (x :: xs) ↔ cell a = x ∧ CellsAt cell (a + 1) xs :=
  Iff.rfl

/-- Two adjacent runs. -/
lemma append : CellsAt cell a (xs ++ ys) ↔ CellsAt cell a xs ∧ CellsAt cell (a + xs.length) ys := by
  induction xs generalizing a with
  | nil => simp
  | cons x xs ih =>
    have e : a + 1 + (xs.length : ℤ) = a + ((x :: xs).length : ℤ) := by
      simp only [List.length_cons]
      omega
    simp only [List.cons_append, cons, ih, e, and_assoc]

/-- Each cell of a run. -/
lemma get (h : CellsAt cell a xs) {i : ℕ} (hi : i < xs.length) : cell (a + i) = xs[i] := by
  induction xs generalizing a i with
  | nil => simp at hi
  | cons x xs ih =>
    cases i with
    | zero => simpa using h.1
    | succ i =>
      have e : a + ((i + 1 : ℕ) : ℤ) = a + 1 + i := by omega
      rw [e, List.getElem_cons_succ]
      exact ih h.2 (Nat.lt_of_succ_lt_succ hi)

/-- A run is known once each of its cells is. -/
lemma of_get (h : ∀ i (hi : i < xs.length), cell (a + i) = xs[i]) : CellsAt cell a xs := by
  induction xs generalizing a with
  | nil => trivial
  | cons x xs ih =>
    refine ⟨by simpa using h 0 (Nat.succ_pos _), ih fun i hi => ?_⟩
    have e : a + 1 + (i : ℤ) = a + ((i + 1 : ℕ) : ℤ) := by omega
    rw [e, h (i + 1) (Nat.succ_lt_succ hi), List.getElem_cons_succ]

/-- A run survives every change outside it. -/
lemma congr (h : CellsAt cell a xs)
    (same : ∀ i, a ≤ i → i < a + xs.length → cell' i = cell i) : CellsAt cell' a xs := by
  refine of_get fun i hi => ?_
  rw [same (a + i) (by omega) (by omega), h.get hi]

end CellsAt

/-- The store after writing a list from address `a` on. -/
def writeCells (cell : ℤ → α) (a : ℤ) : List α → ℤ → α
  | [] => cell
  | x :: xs => writeCells (Function.update cell a x) (a + 1) xs

@[simp] lemma writeCells_nil : writeCells cell a [] = cell := rfl

/-- One more. -/
lemma writeCells_append_singleton (x : α) :
    writeCells cell a (xs ++ [x]) = Function.update (writeCells cell a xs) (a + xs.length) x := by
  induction xs generalizing cell a with
  | nil => simp [writeCells]
  | cons y xs ih =>
    rw [List.cons_append, writeCells, writeCells, ih, List.length_cons]
    have e : a + 1 + (xs.length : ℤ) = a + ((xs.length + 1 : ℕ) : ℤ) := by omega
    rw [e]

/-- What is written. -/
lemma writeCells_get {i : ℕ} (h : i < xs.length) : writeCells cell a xs (a + i) = xs[i] := by
  induction xs using List.reverseRecOn with
  | nil => simp at h
  | append_singleton xs x ih =>
    rw [writeCells_append_singleton]
    by_cases last : i = xs.length
    · subst last
      simp
    · have lt : i < xs.length := by
        simp only [List.length_append, List.length_singleton] at h
        omega
      rw [Function.update_of_ne (by omega), ih lt, List.getElem_append_left lt]

/-- What is not. -/
lemma writeCells_of_not {b : ℤ} (h : b < a ∨ a + xs.length ≤ b) :
    writeCells cell a xs b = cell b := by
  induction xs generalizing cell a with
  | nil => rfl
  | cons x xs ih =>
    simp only [List.length_cons] at h
    rw [writeCells, ih (by omega), Function.update_of_ne (by omega)]

end MinCpuForth.Lib
