import MinCpuForth.Adapters.DataPath
import Mathlib.Logic.Function.Basic

/-!
# The data path cell by cell

What the operations of the data path do to the cells of the memory and to the two stack pointers,
for every address and every pointer. An address from `-MEMORY_SIZE` up to -1 is that of a cell
counted from the end, as the list behind the memory has it.
-/

namespace MinCpuForth.Adapters
open Domain Layout Python

/-- The addresses of the cells. -/
abbrev Inside (address : ℤ) : Prop := 0 ≤ address ∧ address < MEMORY_SIZE

/-- The negative addresses that denote a cell. -/
abbrev Wraps (address : ℤ) : Prop := -MEMORY_SIZE ≤ address ∧ address < 0

/-- The cell that an address denotes; a negative address counts from the end. -/
def cellOf (address : ℤ) : Option ℤ :=
  if Inside address then some address
  else if Wraps address then some (address + MEMORY_SIZE)
  else none

namespace ListMemoryAdapter

/-- Replacing a cell. -/
lemma cell_set (m : MachineMemory) {a : ℤ} (v : ℤ) (h : Inside a) :
    (m.set a v).cell = Function.update m.cell a v := by
  have lay := Layout.values
  exact m.cell_set_of_lt v h.1 (by omega)

/-- The index that a negative address denotes. -/
lemma index?_wraps {a : ℤ} (h : Wraps a) :
    ∃ k : Fin MEMORY_SIZE.toNat, index? MEMORY_SIZE.toNat a = some k ∧ (k : ℤ) = a + MEMORY_SIZE := by
  have lay := Layout.values
  refine ⟨⟨(a + MEMORY_SIZE).toNat, by omega⟩, index?_eq_some.mpr (.inr ?_), ?_⟩
  · simp only
    omega
  · simp only
    omega

/-- The other addresses denote no cell. -/
lemma index?_outside {a : ℤ} (h : ¬Inside a) (h' : ¬Wraps a) :
    index? MEMORY_SIZE.toNat a = none := by
  have lay := Layout.values
  refine index?_eq_none.mpr ?_
  omega

end ListMemoryAdapter

namespace DataPath
open ListMemoryAdapter

section Memory

variable (p : DataPath) {a : ℤ} (v : ℤ)

/-- Reading a cell. -/
lemma read_inside (h : Inside a) : read a p = .ok (p.memory.cell a) p := by
  have lay := Layout.values
  have e : load a p.memory = .ok (p.memory.cell a) p.memory := load_of_lt h.1 (by omega)
  simp only [read, onMemory, e]

/-- Reading at a negative address. -/
lemma read_wraps (h : Wraps a) : read a p = .ok (p.memory.cell (a + MEMORY_SIZE)) p := by
  obtain ⟨k, e, at_k⟩ := index?_wraps h
  have r : load a p.memory = .ok (p.memory.cell (a + MEMORY_SIZE)) p.memory := by
    simp only [load, p.memory.read_of_index e, at_k]
  simp only [read, onMemory, r]

/-- Reading outside the memory. -/
lemma read_outside (h : ¬Inside a) (h' : ¬Wraps a) : read a p = .error .indexError p := by
  have r : load a p.memory = .error .indexError p.memory := by
    simp only [load, ListMemoryAdapter.read, index?_outside h h']
  simp only [read, onMemory, r]

/-- Writing a cell. -/
lemma write_inside (h : Inside a) : write a v p = .ok () { p with memory := p.memory.set a v } := by
  have lay := Layout.values
  have e : store a v p.memory = .ok () (p.memory.set a v) := store_of_lt h.1 (by omega)
  simp only [write, onMemory, e]

/-- Writing at a negative address. -/
lemma write_wraps (h : Wraps a) :
    write a v p = .ok () { p with memory := p.memory.set (a + MEMORY_SIZE) v } := by
  obtain ⟨k, e, at_k⟩ := index?_wraps h
  have r : store a v p.memory = .ok () (p.memory.set (a + MEMORY_SIZE) v) := by
    simp only [store, p.memory.write_of_index v e, at_k]
  simp only [write, onMemory, r]

/-- Writing outside the memory. -/
lemma write_outside (h : ¬Inside a) (h' : ¬Wraps a) : write a v p = .error .indexError p := by
  have r : store a v p.memory = .error .indexError p.memory := by
    simp only [store, ListMemoryAdapter.write, index?_outside h h']
  simp only [write, onMemory, r]

/-- Reading, for every address. -/
lemma read_cellOf : read a p = match cellOf a with
    | some i => .ok (p.memory.cell i) p
    | none => .error .indexError p := by
  unfold cellOf
  by_cases inside : Inside a
  · rw [if_pos inside, p.read_inside inside]
  · by_cases wraps : Wraps a
    · rw [if_neg inside, if_pos wraps, p.read_wraps wraps]
    · rw [if_neg inside, if_neg wraps, p.read_outside inside wraps]

/-- Writing, for every address. -/
lemma write_cellOf : write a v p = match cellOf a with
    | some i => .ok () { p with memory := p.memory.set i v }
    | none => .error .indexError p := by
  unfold cellOf
  by_cases inside : Inside a
  · rw [if_pos inside, p.write_inside v inside]
  · by_cases wraps : Wraps a
    · rw [if_neg inside, if_pos wraps, p.write_wraps v wraps]
    · rw [if_neg inside, if_neg wraps, p.write_outside v inside wraps]

end Memory

section Stacks

variable (p : DataPath) (v : ℤ)

/-- Pushing onto the data stack. -/
lemma pushData_cells : (DICTIONARY_TOP < p.data_stack.pointer →
      ∃ s : DataStack, s.pointer = p.data_stack.pointer - 1 ∧ pushData v p =
        .ok () { p with data_stack := s, memory := p.memory.set (p.data_stack.pointer - 1) v }) ∧
    (¬DICTIONARY_TOP < p.data_stack.pointer → pushData v p = .error .stackOverflow p) := by
  have lay := Layout.values
  have depth := p.data_stack.pointer_eq
  have size := p.data_stack.depth_le
  constructor
  · intro room
    obtain ⟨s, e, run⟩ := DownwardStackAdapter.push_ok (v := v) (m := p.memory) data_inside
      (by omega : p.data_stack.depth < DATA_STACK_SIZE.toNat)
    exact ⟨s, e, by simp only [pushData, onData, run]⟩
  · intro full
    have run := DownwardStackAdapter.push_overflow (v := v) (m := p.memory)
      (by omega : p.data_stack.depth = DATA_STACK_SIZE.toNat)
    simp only [pushData, onData, run]

/-- Popping off the data stack. -/
lemma popData_cells : (p.data_stack.pointer < DATA_STACK_BASE →
      ∃ s : DataStack, s.pointer = p.data_stack.pointer + 1 ∧ popData p =
        .ok (p.memory.cell p.data_stack.pointer) { p with data_stack := s }) ∧
    (¬p.data_stack.pointer < DATA_STACK_BASE → popData p = .error .stackUnderflow p) := by
  have lay := Layout.values
  have depth := p.data_stack.pointer_eq
  constructor
  · intro pos
    obtain ⟨s, e, run⟩ := DownwardStackAdapter.pop_ok (m := p.memory) data_inside
      (by omega : 0 < p.data_stack.depth)
    exact ⟨s, e, by simp only [popData, onData, run]⟩
  · intro empty
    have run := DownwardStackAdapter.pop_underflow (m := p.memory)
      (by omega : p.data_stack.depth = 0)
    simp only [popData, onData, run]

/-- Pushing onto the return stack. -/
lemma pushReturn_cells : (DATA_STACK_BASE < p.return_stack.pointer →
      ∃ s : ReturnStack, s.pointer = p.return_stack.pointer - 1 ∧ pushReturn v p =
        .ok () { p with return_stack := s, memory := p.memory.set (p.return_stack.pointer - 1) v }) ∧
    (¬DATA_STACK_BASE < p.return_stack.pointer → pushReturn v p = .error .stackOverflow p) := by
  have lay := Layout.values
  have depth := p.return_stack.pointer_eq
  have size := p.return_stack.depth_le
  constructor
  · intro room
    obtain ⟨s, e, run⟩ := DownwardStackAdapter.push_ok (v := v) (m := p.memory) return_inside
      (by omega : p.return_stack.depth < RETURN_STACK_SIZE.toNat)
    exact ⟨s, e, by simp only [pushReturn, onReturn, run]⟩
  · intro full
    have run := DownwardStackAdapter.push_overflow (v := v) (m := p.memory)
      (by omega : p.return_stack.depth = RETURN_STACK_SIZE.toNat)
    simp only [pushReturn, onReturn, run]

/-- Popping off the return stack. -/
lemma popReturn_cells : (p.return_stack.pointer < RETURN_STACK_BASE →
      ∃ s : ReturnStack, s.pointer = p.return_stack.pointer + 1 ∧ popReturn p =
        .ok (p.memory.cell p.return_stack.pointer) { p with return_stack := s }) ∧
    (¬p.return_stack.pointer < RETURN_STACK_BASE → popReturn p = .error .stackUnderflow p) := by
  have lay := Layout.values
  have depth := p.return_stack.pointer_eq
  constructor
  · intro pos
    obtain ⟨s, e, run⟩ := DownwardStackAdapter.pop_ok (m := p.memory) return_inside
      (by omega : 0 < p.return_stack.depth)
    exact ⟨s, e, by simp only [popReturn, onReturn, run]⟩
  · intro empty
    have run := DownwardStackAdapter.pop_underflow (m := p.memory)
      (by omega : p.return_stack.depth = 0)
    simp only [popReturn, onReturn, run]

end Stacks

/-- A data path is known by its cells and its pointers. -/
lemma ext_cells {p q : DataPath} (cell : p.memory.cell = q.memory.cell)
    (data : p.data_stack.pointer = q.data_stack.pointer)
    (return_stack : p.return_stack.pointer = q.return_stack.pointer) : p = q := by
  obtain ⟨m, ⟨sp, _, _⟩, ⟨rp, _, _⟩⟩ := p
  obtain ⟨m', ⟨sp', _, _⟩, ⟨rp', _, _⟩⟩ := q
  obtain rfl : m = m' := ListMemoryAdapter.ext_cell fun i _ _ => congrFun cell i
  obtain rfl : sp = sp' := data
  obtain rfl : rp = rp' := return_stack
  rfl

section Contents

variable {p q : DataPath} {a : ℤ} {ds : List ℤ}

/-- Where the stack holds something, there is the stack without its top. -/
lemma below_top (h : p.contents.ds = a :: ds) : ∃ s : DataStack,
    s.pointer = p.data_stack.pointer + 1 ∧ a = p.memory.cell p.data_stack.pointer ∧
      ds = s.contents p.memory := by
  have floor := p.data_stack.floor_le
  have some : p.data_stack.pointer < DATA_STACK_BASE := by
    have depth : p.data_stack.depth = ds.length + 1 := by
      rw [← DownwardStackAdapter.length_contents _ p.memory]
      exact congrArg List.length h
    have place := p.data_stack.pointer_eq
    omega
  let s : DataStack := ⟨p.data_stack.pointer + 1, by omega, by omega⟩
  have next : s.pointer = p.data_stack.pointer + 1 := rfl
  have popped := DownwardStackAdapter.contents_pop p.memory next
  obtain ⟨top, rest⟩ := List.cons.inj (h.symm.trans popped)
  exact ⟨s, rfl, top, rest⟩

/-- The top of the data stack has been replaced. -/
lemma ds_replaced (h : p.contents.ds = a :: ds)
    (pointer : q.data_stack.pointer = p.data_stack.pointer)
    (above : ∀ i, p.data_stack.pointer < i → q.memory.cell i = p.memory.cell i) :
    q.contents.ds = q.memory.cell q.data_stack.pointer :: ds := by
  obtain ⟨s, e, -, rest⟩ := below_top h
  have popped := DownwardStackAdapter.contents_pop q.memory (e.trans (congrArg (· + 1) pointer.symm))
  have same : s.contents q.memory = s.contents p.memory :=
    DownwardStackAdapter.contents_congr_above rfl fun i le => above i (by omega)
  rw [same, ← rest] at popped
  exact popped

/-- The top of the data stack has been replaced, and a value pushed. -/
lemma ds_pushed (h : p.contents.ds = a :: ds)
    (pointer : q.data_stack.pointer = p.data_stack.pointer - 1)
    (above : ∀ i, p.data_stack.pointer < i → q.memory.cell i = p.memory.cell i) :
    q.contents.ds =
      q.memory.cell q.data_stack.pointer :: q.memory.cell p.data_stack.pointer :: ds := by
  have grown := DownwardStackAdapter.contents_cons q.memory pointer
  have replaced := @ds_replaced p { q with data_stack := p.data_stack } a ds h rfl above
  exact grown.trans (congrArg (_ :: ·) replaced)

/-- The return stack, where its cells are as they were. -/
lemma rs_kept (pointer : q.return_stack.pointer = p.return_stack.pointer)
    (above : ∀ i, p.return_stack.pointer ≤ i → q.memory.cell i = p.memory.cell i) :
    q.contents.rs = p.contents.rs :=
  DownwardStackAdapter.contents_congr_above pointer above

/-- The memory below the stacks, where its cells are as they were. -/
lemma mem_kept (same : ∀ i, 0 ≤ i → i < DICTIONARY_TOP → q.memory.cell i = p.memory.cell i) :
    q.contents.mem = p.contents.mem := by
  funext i
  simp only [contents]
  split
  · rename_i inside
    exact same i inside.1 inside.2
  · rfl

end Contents

end DataPath

/-- An address denotes one of the cells. -/
lemma inside_of_cellOf {a i : ℤ} (h : cellOf a = some i) : Inside i := by
  have lay := Layout.values
  unfold cellOf at h
  split at h
  · cases h
    assumption
  · split at h
    · cases h
      omega
    · cases h

end MinCpuForth.Adapters
