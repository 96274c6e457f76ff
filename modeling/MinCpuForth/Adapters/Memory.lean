import MinCpuForth.Domain.Errors
import MinCpuForth.Python.Index

/-!
# Cell storage

`adapters/memory.py`: a fixed-size array of cells behind a Python list. The size is part of the
type, so that no operation can change it. `cell` and `set` are the total accessors that statements
about memory are written with; reads and writes at an address inside the memory are exactly these.
-/

namespace MinCpuForth.Adapters
open Python Domain

/-- A flat array of `size` cells. -/
structure ListMemoryAdapter (size : ℕ) where
  cells : Vector ℤ size

namespace ListMemoryAdapter

variable {size : ℕ}

/-- `size` zeroed cells. -/
def zeroed (size : ℕ) : ListMemoryAdapter size := ⟨Vector.replicate size 0⟩

/-- `self._cells[address]`. -/
def read (m : ListMemoryAdapter size) (address : ℤ) : Except PyError ℤ :=
  match index? size address with
  | some i => .ok m.cells[i]
  | none => .error .indexError

/-- `self._cells[address] = value`. -/
def write (m : ListMemoryAdapter size) (address value : ℤ) :
    Except PyError (ListMemoryAdapter size) :=
  match index? size address with
  | some i => .ok ⟨m.cells.set i value⟩
  | none => .error .indexError

/-- The cell at position `i`, zero outside the memory. -/
def cell (m : ListMemoryAdapter size) (i : ℤ) : ℤ :=
  if h : 0 ≤ i ∧ i < size then m.cells[i.toNat] else 0

/-- The memory with the cell at position `i` replaced, unchanged outside the memory. -/
def set (m : ListMemoryAdapter size) (i value : ℤ) : ListMemoryAdapter size :=
  if h : 0 ≤ i ∧ i < size then ⟨m.cells.set i.toNat value⟩ else m

/-- Two memories with equal cells are equal. -/
lemma ext_cell {m m' : ListMemoryAdapter size}
    (h : ∀ i : ℤ, 0 ≤ i → i < size → m.cell i = m'.cell i) : m = m' := by
  obtain ⟨v⟩ := m
  obtain ⟨v'⟩ := m'
  congr 1
  refine Vector.ext fun i hi => ?_
  have e := h i (by omega) (by omega)
  have hi' : 0 ≤ (i : ℤ) ∧ (i : ℤ) < size := by omega
  simpa [cell, hi'] using e

/-- Outside the memory there are no cells. -/
lemma cell_of_not {m : ListMemoryAdapter size} {i : ℤ} (h : ¬(0 ≤ i ∧ i < size)) : m.cell i = 0 :=
  dif_neg h

@[simp] lemma cell_zeroed : (zeroed size).cell = fun _ => 0 := by
  funext i
  unfold cell zeroed
  split <;> simp

@[simp] lemma cell_set_self (m : ListMemoryAdapter size) {i : ℤ} (v : ℤ) (h0 : 0 ≤ i)
    (h1 : i < size) : (m.set i v).cell i = v := by
  simp [cell, set, h0, h1]

/-- A replaced cell leaves the others alone. -/
lemma cell_set_of_ne (m : ListMemoryAdapter size) {i j : ℤ} (v : ℤ) (ne : j ≠ i) :
    (m.set i v).cell j = m.cell j := by
  unfold set
  split
  · rename_i h
    unfold cell
    split
    · rename_i hj
      have ne' : i.toNat ≠ j.toNat := by omega
      simp [ne']
    · rfl
  · rfl

/-- Replacing a cell by its own value. -/
lemma set_cell {m : ListMemoryAdapter size} {i v : ℤ} (h : m.cell i = v) : m.set i v = m := by
  refine ext_cell fun j h0 h1 => ?_
  by_cases e : j = i
  · subst e
    rw [m.cell_set_self v h0 h1, h]
  · exact m.cell_set_of_ne v e

/-- Replacing a cell inside the memory. -/
lemma cell_set_of_lt (m : ListMemoryAdapter size) {i : ℤ} (v : ℤ) (h0 : 0 ≤ i) (h1 : i < size) :
    (m.set i v).cell = Function.update m.cell i v := by
  funext j
  by_cases e : j = i
  · rw [e, Function.update_self, m.cell_set_self v h0 h1]
  · rw [Function.update_of_ne e, m.cell_set_of_ne v e]

/-- Reading inside the memory. -/
lemma read_of_lt (m : ListMemoryAdapter size) {a : ℤ} (h0 : 0 ≤ a) (h1 : a < size) :
    m.read a = .ok (m.cell a) := by
  simp [read, cell, index?_of_lt h0 h1, h0, h1]

/-- Writing inside the memory. -/
lemma write_of_lt (m : ListMemoryAdapter size) {a : ℤ} (v : ℤ) (h0 : 0 ≤ a) (h1 : a < size) :
    m.write a v = .ok (m.set a v) := by
  simp [write, set, index?_of_lt h0 h1, h0, h1]

/-- Writing at any index that denotes a position. -/
lemma write_of_index (m : ListMemoryAdapter size) {a : ℤ} {k : Fin size} (v : ℤ)
    (e : index? size a = some k) : m.write a v = .ok (m.set k v) := by
  have h : (0 : ℤ) ≤ k ∧ (k : ℤ) < size := by omega
  simp [write, set, e, h]

/-- Reading at any index that denotes a position. -/
lemma read_of_index (m : ListMemoryAdapter size) {a : ℤ} {k : Fin size}
    (e : index? size a = some k) : m.read a = .ok (m.cell k) := by
  have h : (0 : ℤ) ≤ k ∧ (k : ℤ) < size := by omega
  simp [read, cell, e]

/-- What a write can do. -/
lemma write_cases {m : ListMemoryAdapter size} {a v : ℤ} :
    (index? size a = none ∧ m.write a v = .error .indexError) ∨
      ∃ k : Fin size, index? size a = some k ∧ m.write a v = .ok (m.set k v) := by
  cases e : index? size a with
  | none => exact .inl ⟨rfl, by simp [write, e]⟩
  | some k => exact .inr ⟨k, rfl, m.write_of_index v e⟩

/-- `read` as an action on the memory. -/
def load (address : ℤ) : EStateM PyError (ListMemoryAdapter size) ℤ := fun m =>
  match m.read address with
  | .ok value => .ok value m
  | .error e => .error e m

/-- `write` as an action on the memory. -/
def store (address value : ℤ) : EStateM PyError (ListMemoryAdapter size) Unit := fun m =>
  match m.write address value with
  | .ok m' => .ok () m'
  | .error e => .error e m

/-- Loading at any index that denotes a position. -/
lemma load_ok {m : ListMemoryAdapter size} {a v : ℤ} (h : m.read a = .ok v) :
    load a m = .ok v m := by
  simp [load, h]

/-- Loading at an index that denotes nothing. -/
lemma load_none {m : ListMemoryAdapter size} {a : ℤ} (e : index? size a = none) :
    load a m = .error .indexError m := by
  simp [load, read, e]

/-- Storing at any index that denotes a position. -/
lemma store_of_index {m : ListMemoryAdapter size} {a v : ℤ} {k : Fin size}
    (e : index? size a = some k) : store a v m = .ok () (m.set k v) := by
  simp [store, m.write_of_index v e]

/-- Storing what is there already. -/
lemma store_same {m : ListMemoryAdapter size} {a v : ℤ} (h : m.read a = .ok v) :
    store a v m = .ok () m := by
  cases e : index? size a with
  | none => simp [read, e] at h
  | some k =>
    rw [m.read_of_index e] at h
    rw [store_of_index e, set_cell (Except.ok.inj h)]

/-- Loading inside the memory. -/
lemma load_of_lt {m : ListMemoryAdapter size} {a : ℤ} (h0 : 0 ≤ a) (h1 : a < size) :
    load a m = .ok (m.cell a) m := by
  simp [load, m.read_of_lt h0 h1]

/-- Storing inside the memory. -/
lemma store_of_lt {m : ListMemoryAdapter size} {a v : ℤ} (h0 : 0 ≤ a) (h1 : a < size) :
    store a v m = .ok () (m.set a v) := by
  simp [store, m.write_of_lt v h0 h1]

/-- Storing above the memory. -/
lemma store_of_ge {m : ListMemoryAdapter size} {a v : ℤ} (h : size ≤ a) :
    store a v m = .error .indexError m := by
  have e : index? size a = none := index?_eq_none.mpr (.inr h)
  simp [store, write, e]

end ListMemoryAdapter

end MinCpuForth.Adapters
