import Mathlib.Data.List.Basic

/-!
# Bounded stacks

A last-in-first-out list of at most `cap` values. The bound is part of the type, so that a stack
that holds too much cannot be built. An operation that the stack cannot perform answers `none`.
-/

namespace MinCpuForth.Lib

/-- A stack of capacity `cap`, top first. -/
structure BoundedStack (α : Type*) (cap : ℕ) where
  items : List α
  length_le : items.length ≤ cap

namespace BoundedStack

variable {α : Type*} {cap : ℕ}

@[ext] lemma ext {s t : BoundedStack α cap} (e : s.items = t.items) : s = t := by
  cases s; cases t; cases e; rfl

/-- The empty stack. -/
def empty : BoundedStack α cap := ⟨[], Nat.zero_le _⟩

/-- Pushes a value, unless the stack is full. -/
def push? (s : BoundedStack α cap) (v : α) : Option (BoundedStack α cap) :=
  if h : s.items.length < cap then some ⟨v :: s.items, h⟩ else none

/-- Removes and returns the top value, unless the stack is empty. -/
def pop? (s : BoundedStack α cap) : Option (α × BoundedStack α cap) :=
  match s with
  | ⟨[], _⟩ => none
  | ⟨v :: vs, h⟩ => some (v, ⟨vs, Nat.le_of_succ_le h⟩)

/-- Returns the top value, unless the stack is empty. -/
def peek? (s : BoundedStack α cap) : Option α := s.items.head?

@[simp] lemma empty_items : (empty : BoundedStack α cap).items = [] := rfl

/-- A push fails exactly on a full stack. -/
lemma push?_eq_none {s : BoundedStack α cap} {v : α} : s.push? v = none ↔ s.items.length = cap := by
  have le := s.length_le
  simp only [push?, dite_eq_right_iff, reduceCtorEq, imp_false]
  omega

/-- A pop fails exactly on an empty stack. -/
lemma pop?_eq_none {s : BoundedStack α cap} : s.pop? = none ↔ s.items = [] := by
  obtain ⟨_ | ⟨v, vs⟩, h⟩ := s <;> simp [pop?]

/-- A peek fails exactly on an empty stack. -/
lemma peek?_eq_none {s : BoundedStack α cap} : s.peek? = none ↔ s.items = [] := by
  simp [peek?]

end BoundedStack

end MinCpuForth.Lib
