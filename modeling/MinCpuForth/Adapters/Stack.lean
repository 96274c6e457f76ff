import MinCpuForth.Adapters.Memory
import MinCpuForth.Domain.Layout

/-!
# Downward-growing stacks

`adapters/stack.py`: a stack in the cells `[base - size, base)` of a shared memory. The pointer
never leaves the region, which the adapter carries as fields. An operation acts on the adapter
together with the memory that it is bound to, and keeps what it has done when it raises.
-/

namespace MinCpuForth.Adapters
open Domain Layout

/-- A stack occupying `memory[base - size : base]`. -/
structure DownwardStackAdapter (base : ℤ) (size : ℕ) where
  pointer : ℤ
  floor_le : base - size ≤ pointer
  le_base : pointer ≤ base

namespace DownwardStackAdapter

variable {base : ℤ} {size n : ℕ}

/-- A freshly bound stack, empty at `base`. -/
def init (base : ℤ) (size : ℕ) : DownwardStackAdapter base size :=
  ⟨base, by omega, by omega⟩

/-- What an operation of the stack acts on. -/
abbrev Bound (base : ℤ) (size n : ℕ) := DownwardStackAdapter base size × ListMemoryAdapter n

/-- Pushes `value`, growing toward lower addresses. -/
def push (value : ℤ) : EStateM PyError (Bound base size n) Unit := fun (s, m) =>
  if h : s.pointer ≤ base - size then .error .stackOverflow (s, m)
  else
    let s' : DownwardStackAdapter base size :=
      ⟨s.pointer - CELL_SIZE, by have := s.floor_le; unfold CELL_SIZE; omega,
        by have := s.le_base; unfold CELL_SIZE; omega⟩
    match m.write s'.pointer value with
    | .error e => .error e (s', m)
    | .ok m' => .ok () (s', m')

/-- Pops and returns the top value. -/
def pop : EStateM PyError (Bound base size n) ℤ := fun (s, m) =>
  if h : base ≤ s.pointer then .error .stackUnderflow (s, m)
  else
    match m.read s.pointer with
    | .error e => .error e (s, m)
    | .ok value =>
      .ok value (⟨s.pointer + CELL_SIZE, by have := s.floor_le; unfold CELL_SIZE; omega,
        by unfold CELL_SIZE; omega⟩, m)

/-- Returns the top value without removing it. -/
def peek : EStateM PyError (Bound base size n) ℤ := fun (s, m) =>
  if base ≤ s.pointer then .error .stackUnderflow (s, m)
  else
    match m.read s.pointer with
    | .error e => .error e (s, m)
    | .ok value => .ok value (s, m)

/-- The number of values held. -/
def depth (s : DownwardStackAdapter base size) : ℕ := (base - s.pointer).toNat

/-- The values held, top first. -/
def contents (s : DownwardStackAdapter base size) (m : ListMemoryAdapter n) : List ℤ :=
  (List.range s.depth).map fun i : ℕ => m.cell (s.pointer + i)

@[simp] lemma length_contents (s : DownwardStackAdapter base size) (m : ListMemoryAdapter n) :
    (s.contents m).length = s.depth := by
  simp [contents]

/-- The stack never holds more than `size` values. -/
lemma depth_le (s : DownwardStackAdapter base size) : s.depth ≤ size := by
  have := s.floor_le
  unfold depth
  omega

/-- The pointer is the base minus the number of values held. -/
lemma pointer_eq (s : DownwardStackAdapter base size) : s.pointer = base - s.depth := by
  have := s.le_base
  unfold depth
  omega

@[simp] lemma contents_init (m : ListMemoryAdapter n) : (init base size).contents m = [] := by
  simp [contents, depth, init]

/-- The contents depend on the cells of the region only. -/
lemma contents_congr (s : DownwardStackAdapter base size) {m m' : ListMemoryAdapter n}
    (h : ∀ i, base - size ≤ i → i < base → m'.cell i = m.cell i) :
    s.contents m' = s.contents m := by
  have lo := s.floor_le
  unfold contents
  refine List.map_congr_left fun i hi => h _ (by omega) ?_
  have hi' : i < s.depth := List.mem_range.mp hi
  have e := s.pointer_eq
  omega

/-- The contents depend on the pointer and the cells from there on only. -/
lemma contents_congr_above {s s' : DownwardStackAdapter base size} {m m' : ListMemoryAdapter n}
    (e : s'.pointer = s.pointer) (h : ∀ i, s.pointer ≤ i → m'.cell i = m.cell i) :
    s'.contents m' = s.contents m := by
  have depth : s'.depth = s.depth := congrArg (fun p => (base - p).toNat) e
  unfold contents
  rw [depth, e]
  exact List.map_congr_left fun i _ => h _ (by omega)

/-- The region of the stack lies inside the memory. -/
def Inside (base : ℤ) (size n : ℕ) : Prop := ∀ i, base - size ≤ i → i < base → 0 ≤ i ∧ i < n

/-- Pushing onto a full stack. -/
lemma push_overflow {s : DownwardStackAdapter base size} {m : ListMemoryAdapter n} {v : ℤ}
    (full : s.depth = size) : push v (s, m) = .error .stackOverflow (s, m) := by
  have h : s.pointer ≤ base - size := by have := s.pointer_eq; omega
  simp [push, h]

/-- Pushing onto a stack with room. -/
lemma push_ok {s : DownwardStackAdapter base size} {m : ListMemoryAdapter n} {v : ℤ}
    (inside : Inside base size n) (room : s.depth < size) :
    ∃ s' : DownwardStackAdapter base size, s'.pointer = s.pointer - 1 ∧
      push v (s, m) = .ok () (s', m.set (s.pointer - 1) v) := by
  have e := s.pointer_eq
  have h : ¬s.pointer ≤ base - size := by omega
  obtain ⟨h0, h1⟩ := inside (s.pointer - 1) (by omega) (by omega)
  refine ⟨⟨s.pointer - 1, by omega, by omega⟩, rfl, ?_⟩
  simp [push, h, m.write_of_lt v h0 h1]

/-- Popping off an empty stack. -/
lemma pop_underflow {s : DownwardStackAdapter base size} {m : ListMemoryAdapter n}
    (nil : s.depth = 0) : pop (s, m) = .error .stackUnderflow (s, m) := by
  have h : base ≤ s.pointer := by have := s.pointer_eq; omega
  simp [pop, h]

/-- Popping off a stack that holds something. -/
lemma pop_ok {s : DownwardStackAdapter base size} {m : ListMemoryAdapter n}
    (inside : Inside base size n) (pos : 0 < s.depth) :
    ∃ s' : DownwardStackAdapter base size, s'.pointer = s.pointer + 1 ∧
      pop (s, m) = .ok (m.cell s.pointer) (s', m) := by
  have e := s.pointer_eq
  have lo := s.floor_le
  have h : ¬base ≤ s.pointer := by omega
  obtain ⟨h0, h1⟩ := inside s.pointer (by omega) (by omega)
  refine ⟨⟨s.pointer + 1, by omega, by omega⟩, rfl, ?_⟩
  simp [pop, h, m.read_of_lt h0 h1]

/-- Peeking at an empty stack. -/
lemma peek_underflow {s : DownwardStackAdapter base size} {m : ListMemoryAdapter n}
    (nil : s.depth = 0) : peek (s, m) = .error .stackUnderflow (s, m) := by
  have h : base ≤ s.pointer := by have := s.pointer_eq; omega
  simp [peek, h]

/-- Peeking at a stack that holds something. -/
lemma peek_ok {s : DownwardStackAdapter base size} {m : ListMemoryAdapter n}
    (inside : Inside base size n) (pos : 0 < s.depth) :
    peek (s, m) = .ok (m.cell s.pointer) (s, m) := by
  have e := s.pointer_eq
  have lo := s.floor_le
  have h : ¬base ≤ s.pointer := by omega
  obtain ⟨h0, h1⟩ := inside s.pointer (by omega) (by omega)
  simp [peek, h, m.read_of_lt h0 h1]

/-- The contents of a stack that holds something. -/
lemma contents_cons {s s' : DownwardStackAdapter base size} (m : ListMemoryAdapter n)
    (e : s'.pointer = s.pointer - 1) :
    s'.contents m = m.cell s'.pointer :: s.contents m := by
  have hd : s'.depth = s.depth + 1 := by
    have h1 := s.pointer_eq
    have h2 := s'.pointer_eq
    omega
  simp only [contents, hd, List.range_succ_eq_map, List.map_cons, List.map_map]
  congr 1
  · simp
  · refine List.map_congr_left fun i _ => ?_
    have shift : s'.pointer + ((i + 1 : ℕ) : ℤ) = s.pointer + i := by omega
    simp only [Function.comp_apply, Nat.succ_eq_add_one, shift]

/-- What a stack holds after a push. -/
lemma contents_push {s s' : DownwardStackAdapter base size} {m : ListMemoryAdapter n} (v : ℤ)
    (inside : Inside base size n) (e : s'.pointer = s.pointer - 1) :
    s'.contents (m.set (s.pointer - 1) v) = v :: s.contents m := by
  have lo := s'.floor_le
  have hi := s.le_base
  have depth := s.pointer_eq
  obtain ⟨h0, h1⟩ := inside (s.pointer - 1) (by omega) (by omega)
  rw [contents_cons _ e, e, m.cell_set_self v h0 h1]
  congr 1
  unfold contents
  refine List.map_congr_left fun i _ => ?_
  exact m.cell_set_of_ne v (by omega)

/-- What a stack holds before a pop. -/
lemma contents_pop {s s' : DownwardStackAdapter base size} (m : ListMemoryAdapter n)
    (e : s'.pointer = s.pointer + 1) :
    s.contents m = m.cell s.pointer :: s'.contents m :=
  contents_cons m (by omega)

end DownwardStackAdapter

end MinCpuForth.Adapters
