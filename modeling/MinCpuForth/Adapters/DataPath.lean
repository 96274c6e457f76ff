import MinCpuForth.Adapters.Stack
import MinCpuForth.Lib.Action

/-!
# The data path

The memory and the two stacks in it, as `MachineContainer` of `containers.py` wires them for the
emulator and for the Forth interpreter alike.
-/

namespace MinCpuForth.Adapters
open Domain Layout

/-- The memory of the machine. -/
abbrev MachineMemory := ListMemoryAdapter MEMORY_SIZE.toNat

/-- Where the data stack lies. -/
abbrev DataStack := DownwardStackAdapter DATA_STACK_BASE DATA_STACK_SIZE.toNat

/-- Where the return stack lies. -/
abbrev ReturnStack := DownwardStackAdapter RETURN_STACK_BASE RETURN_STACK_SIZE.toNat

/-- The memory and the stacks bound to it. -/
structure DataPath where
  memory : MachineMemory
  data_stack : DataStack
  return_stack : ReturnStack

namespace DataPath

/-- An operation of the data stack. -/
def onData {α : Type} (op : EStateM PyError (DataStack × MachineMemory) α) :
    EStateM PyError DataPath α := fun p =>
  match op (p.data_stack, p.memory) with
  | .ok a (s, m) => .ok a { p with data_stack := s, memory := m }
  | .error e (s, m) => .error e { p with data_stack := s, memory := m }

/-- An operation of the return stack. -/
def onReturn {α : Type} (op : EStateM PyError (ReturnStack × MachineMemory) α) :
    EStateM PyError DataPath α := fun p =>
  match op (p.return_stack, p.memory) with
  | .ok a (s, m) => .ok a { p with return_stack := s, memory := m }
  | .error e (s, m) => .error e { p with return_stack := s, memory := m }

/-- An access to the memory. -/
def onMemory {α : Type} (op : EStateM PyError MachineMemory α) : EStateM PyError DataPath α :=
  fun p =>
    match op p.memory with
    | .ok a m => .ok a { p with memory := m }
    | .error e m => .error e { p with memory := m }

/-- `memory.read(address)`. -/
def read (address : ℤ) : EStateM PyError DataPath ℤ := onMemory (ListMemoryAdapter.load address)

/-- `memory.write(address, value)`. -/
def write (address value : ℤ) : EStateM PyError DataPath Unit :=
  onMemory (ListMemoryAdapter.store address value)

/-- `data_stack.push(value)`. -/
def pushData (value : ℤ) : EStateM PyError DataPath Unit := onData (DownwardStackAdapter.push value)

/-- `data_stack.pop()`. -/
def popData : EStateM PyError DataPath ℤ := onData DownwardStackAdapter.pop

/-- `data_stack.peek()`. -/
def peekData : EStateM PyError DataPath ℤ := onData DownwardStackAdapter.peek

/-- `return_stack.push(value)`. -/
def pushReturn (value : ℤ) : EStateM PyError DataPath Unit := onReturn (DownwardStackAdapter.push value)

/-- `return_stack.pop()`. -/
def popReturn : EStateM PyError DataPath ℤ := onReturn DownwardStackAdapter.pop

/-- `return_stack.peek()`. -/
def peekReturn : EStateM PyError DataPath ℤ := onReturn DownwardStackAdapter.peek

/-- What the data path holds: the two stacks, top first, and the memory below the stacks. -/
@[ext] structure Contents where
  ds : List ℤ
  rs : List ℤ
  mem : ℤ → ℤ

/-- What the data path holds. Cells of the stacks that are not in use do not count. -/
def contents (p : DataPath) : Contents where
  ds := p.data_stack.contents p.memory
  rs := p.return_stack.contents p.memory
  mem i := if 0 ≤ i ∧ i < DICTIONARY_TOP then p.memory.cell i else 0

namespace Contents

/-- `data_stack.push(value)` on what the stack holds. -/
def pushData (value : ℤ) : EStateM PyError Contents Unit := fun c =>
  if c.ds.length < 1024 then .ok () { c with ds := value :: c.ds } else .error .stackOverflow c

/-- `data_stack.pop()` on what the stack holds. -/
def popData : EStateM PyError Contents ℤ := fun c =>
  match c.ds with
  | [] => .error .stackUnderflow c
  | v :: vs => .ok v { c with ds := vs }

/-- `data_stack.peek()` on what the stack holds. -/
def peekData : EStateM PyError Contents ℤ := fun c =>
  match c.ds with
  | [] => .error .stackUnderflow c
  | v :: _ => .ok v c

/-- `return_stack.push(value)` on what the stack holds. -/
def pushReturn (value : ℤ) : EStateM PyError Contents Unit := fun c =>
  if c.rs.length < 1024 then .ok () { c with rs := value :: c.rs } else .error .stackOverflow c

/-- `return_stack.pop()` on what the stack holds. -/
def popReturn : EStateM PyError Contents ℤ := fun c =>
  match c.rs with
  | [] => .error .stackUnderflow c
  | v :: vs => .ok v { c with rs := vs }

/-- `return_stack.peek()` on what the stack holds. -/
def peekReturn : EStateM PyError Contents ℤ := fun c =>
  match c.rs with
  | [] => .error .stackUnderflow c
  | v :: _ => .ok v c

end Contents

/-- The action does to the data path what `abs` does to its contents. -/
def Refines {α : Type} (act : EStateM PyError DataPath α) (abs : EStateM PyError Contents α) :
    Prop :=
  ∀ p, match abs p.contents with
    | .ok a c => ∃ p', act p = .ok a p' ∧ p'.contents = c
    | .error e _ => ∃ p', act p = .error e p'

namespace Refines

variable {α β : Type}

lemma pure (a : α) : Refines (Pure.pure a) (Pure.pure a) := fun p => ⟨p, rfl, rfl⟩

/-- Refinements compose. -/
lemma bind {act : EStateM PyError DataPath α} {abs : EStateM PyError Contents α}
    {f : α → EStateM PyError DataPath β} {g : α → EStateM PyError Contents β}
    (h : Refines act abs) (h' : ∀ a, Refines (f a) (g a)) : Refines (act >>= f) (abs >>= g) := by
  intro p
  have hp := h p
  cases e : abs p.contents with
  | ok a c =>
    rw [e] at hp
    obtain ⟨p', e', rfl⟩ := hp
    rw [Lib.bind_ok e, Lib.bind_ok e']
    exact h' a p'
  | error err c =>
    rw [e] at hp
    obtain ⟨p', e'⟩ := hp
    rw [Lib.bind_error e]
    exact ⟨p', Lib.bind_error e'⟩

/-- What the action does when `abs` succeeds. -/
lemma ok {act : EStateM PyError DataPath α} {abs : EStateM PyError Contents α} {p : DataPath}
    {a : α} {c : Contents} (h : Refines act abs) (e : abs p.contents = .ok a c) :
    ∃ p', act p = .ok a p' ∧ p'.contents = c := by
  have hp := h p
  rwa [e] at hp

/-- What the action does when `abs` fails. -/
lemma error {act : EStateM PyError DataPath α} {abs : EStateM PyError Contents α} {p : DataPath}
    {err : PyError} {c : Contents} (h : Refines act abs) (e : abs p.contents = .error err c) :
    ∃ p', act p = .error err p' := by
  have hp := h p
  rwa [e] at hp

/-- When the action succeeds, so does `abs`, on the contents. -/
lemma of_ok {act : EStateM PyError DataPath α} {abs : EStateM PyError Contents α} {p p' : DataPath}
    {a : α} (h : Refines act abs) (e : act p = .ok a p') :
    abs p.contents = .ok a p'.contents := by
  have hp := h p
  cases e' : abs p.contents with
  | ok b c =>
    rw [e'] at hp
    obtain ⟨q, eq, rfl⟩ := hp
    cases e.symm.trans eq
    rfl
  | error err c =>
    rw [e'] at hp
    obtain ⟨q, eq⟩ := hp
    cases e.symm.trans eq

end Refines

/-- The data stack lies inside the memory. -/
lemma data_inside : DownwardStackAdapter.Inside DATA_STACK_BASE DATA_STACK_SIZE.toNat
    MEMORY_SIZE.toNat := by
  have lay := Layout.values
  intro i lo hi
  omega

/-- The return stack lies inside the memory. -/
lemma return_inside : DownwardStackAdapter.Inside RETURN_STACK_BASE RETURN_STACK_SIZE.toNat
    MEMORY_SIZE.toNat := by
  have lay := Layout.values
  intro i lo hi
  omega

/-- A change of one cell of the data stack is seen nowhere else. -/
lemma contents_set_data (p : DataPath) (s : DataStack) {i : ℤ} (v : ℤ)
    (lo : DATA_STACK_BASE - DATA_STACK_SIZE ≤ i) (hi : i < DATA_STACK_BASE) :
    contents { p with data_stack := s, memory := p.memory.set i v } =
      { p.contents with ds := s.contents (p.memory.set i v) } := by
  have lay := Layout.values
  refine Contents.ext rfl ?_ ?_
  · refine DownwardStackAdapter.contents_congr _ fun j lo' _ => p.memory.cell_set_of_ne v ?_
    omega
  · funext j
    simp only [contents]
    split
    · exact p.memory.cell_set_of_ne v (by omega)
    · rfl

/-- A change of one cell of the return stack is seen nowhere else. -/
lemma contents_set_return (p : DataPath) (s : ReturnStack) {i : ℤ} (v : ℤ)
    (lo : RETURN_STACK_BASE - RETURN_STACK_SIZE ≤ i) :
    contents { p with return_stack := s, memory := p.memory.set i v } =
      { p.contents with rs := s.contents (p.memory.set i v) } := by
  have lay := Layout.values
  refine Contents.ext ?_ rfl ?_
  · refine DownwardStackAdapter.contents_congr _ fun j _ hi' => p.memory.cell_set_of_ne v ?_
    omega
  · funext j
    simp only [contents]
    split
    · exact p.memory.cell_set_of_ne v (by omega)
    · rfl

/-- Pushing onto the data stack. -/
lemma pushData_refines (v : ℤ) : Refines (pushData v) (Contents.pushData v) := by
  intro p
  have depth : p.contents.ds.length = p.data_stack.depth := DownwardStackAdapter.length_contents ..
  by_cases room : p.data_stack.depth < 1024
  · obtain ⟨s', e, run⟩ := DownwardStackAdapter.push_ok (v := v) (m := p.memory) data_inside room
    have lo := s'.floor_le
    have hi := p.data_stack.le_base
    simp only [Contents.pushData, depth, room, if_true]
    refine ⟨{ p with data_stack := s', memory := p.memory.set (p.data_stack.pointer - 1) v },
      by simp only [pushData, onData, run], ?_⟩
    rw [contents_set_data p s' v (e ▸ lo) (by omega),
      DownwardStackAdapter.contents_push v data_inside e]
    rfl
  · have full : p.data_stack.depth = DATA_STACK_SIZE.toNat :=
      Nat.le_antisymm p.data_stack.depth_le (Nat.le_of_not_lt room)
    simp only [Contents.pushData, depth, room, if_false]
    exact ⟨p, by simp only [pushData, onData, DownwardStackAdapter.push_overflow full]⟩

/-- Popping off the data stack. -/
lemma popData_refines : Refines popData Contents.popData := by
  intro p
  have depth : p.contents.ds.length = p.data_stack.depth := DownwardStackAdapter.length_contents ..
  by_cases pos : 0 < p.data_stack.depth
  · obtain ⟨s', e, run⟩ := DownwardStackAdapter.pop_ok (m := p.memory) data_inside pos
    have shape : p.contents.ds = p.memory.cell p.data_stack.pointer :: s'.contents p.memory :=
      DownwardStackAdapter.contents_pop _ e
    simp only [Contents.popData, shape]
    exact ⟨{ p with data_stack := s' }, by simp only [popData, onData, run], rfl⟩
  · have nil : p.contents.ds = [] := List.eq_nil_of_length_eq_zero (by omega)
    simp only [Contents.popData, nil]
    exact ⟨p, by
      simp only [popData, onData,
        DownwardStackAdapter.pop_underflow (Nat.eq_zero_of_not_pos pos)]⟩

/-- Peeking at the data stack. -/
lemma peekData_refines : Refines peekData Contents.peekData := by
  intro p
  have depth : p.contents.ds.length = p.data_stack.depth := DownwardStackAdapter.length_contents ..
  by_cases pos : 0 < p.data_stack.depth
  · obtain ⟨s', e, -⟩ := DownwardStackAdapter.pop_ok (m := p.memory) data_inside pos
    have shape : p.contents.ds = p.memory.cell p.data_stack.pointer :: s'.contents p.memory :=
      DownwardStackAdapter.contents_pop _ e
    simp only [Contents.peekData, shape]
    exact ⟨p, by simp only [peekData, onData, DownwardStackAdapter.peek_ok data_inside pos], rfl⟩
  · have nil : p.contents.ds = [] := List.eq_nil_of_length_eq_zero (by omega)
    simp only [Contents.peekData, nil]
    exact ⟨p, by
      simp only [peekData, onData,
        DownwardStackAdapter.peek_underflow (Nat.eq_zero_of_not_pos pos)]⟩

/-- Pushing onto the return stack. -/
lemma pushReturn_refines (v : ℤ) : Refines (pushReturn v) (Contents.pushReturn v) := by
  intro p
  have depth : p.contents.rs.length = p.return_stack.depth :=
    DownwardStackAdapter.length_contents ..
  by_cases room : p.return_stack.depth < 1024
  · obtain ⟨s', e, run⟩ := DownwardStackAdapter.push_ok (v := v) (m := p.memory) return_inside room
    have lo := s'.floor_le
    simp only [Contents.pushReturn, depth, room, if_true]
    refine ⟨{ p with return_stack := s', memory := p.memory.set (p.return_stack.pointer - 1) v },
      by simp only [pushReturn, onReturn, run], ?_⟩
    rw [contents_set_return p s' v (e ▸ lo), DownwardStackAdapter.contents_push v return_inside e]
    rfl
  · have full : p.return_stack.depth = RETURN_STACK_SIZE.toNat :=
      Nat.le_antisymm p.return_stack.depth_le (Nat.le_of_not_lt room)
    simp only [Contents.pushReturn, depth, room, if_false]
    exact ⟨p, by simp only [pushReturn, onReturn, DownwardStackAdapter.push_overflow full]⟩

/-- Popping off the return stack. -/
lemma popReturn_refines : Refines popReturn Contents.popReturn := by
  intro p
  have depth : p.contents.rs.length = p.return_stack.depth :=
    DownwardStackAdapter.length_contents ..
  by_cases pos : 0 < p.return_stack.depth
  · obtain ⟨s', e, run⟩ := DownwardStackAdapter.pop_ok (m := p.memory) return_inside pos
    have shape : p.contents.rs = p.memory.cell p.return_stack.pointer :: s'.contents p.memory :=
      DownwardStackAdapter.contents_pop _ e
    simp only [Contents.popReturn, shape]
    exact ⟨{ p with return_stack := s' }, by simp only [popReturn, onReturn, run], rfl⟩
  · have nil : p.contents.rs = [] := List.eq_nil_of_length_eq_zero (by omega)
    simp only [Contents.popReturn, nil]
    exact ⟨p, by
      simp only [popReturn, onReturn,
        DownwardStackAdapter.pop_underflow (Nat.eq_zero_of_not_pos pos)]⟩

/-- Peeking at the return stack. -/
lemma peekReturn_refines : Refines peekReturn Contents.peekReturn := by
  intro p
  have depth : p.contents.rs.length = p.return_stack.depth :=
    DownwardStackAdapter.length_contents ..
  by_cases pos : 0 < p.return_stack.depth
  · obtain ⟨s', e, -⟩ := DownwardStackAdapter.pop_ok (m := p.memory) return_inside pos
    have shape : p.contents.rs = p.memory.cell p.return_stack.pointer :: s'.contents p.memory :=
      DownwardStackAdapter.contents_pop _ e
    simp only [Contents.peekReturn, shape]
    exact ⟨p, by simp only [peekReturn, onReturn, DownwardStackAdapter.peek_ok return_inside pos],
      rfl⟩
  · have nil : p.contents.rs = [] := List.eq_nil_of_length_eq_zero (by omega)
    simp only [Contents.peekReturn, nil]
    exact ⟨p, by
      simp only [peekReturn, onReturn,
        DownwardStackAdapter.peek_underflow (Nat.eq_zero_of_not_pos pos)]⟩

/-- Reading a cell below the stacks. -/
lemma read_run (p : DataPath) {a : ℤ} (h0 : 0 ≤ a) (h1 : a < DICTIONARY_TOP) :
    read a p = .ok (p.contents.mem a) p := by
  have lay := Layout.values
  have e : ListMemoryAdapter.load a p.memory = .ok (p.memory.cell a) p.memory :=
    ListMemoryAdapter.load_of_lt h0 (by omega)
  simp only [read, onMemory, e, contents, h0, h1, and_self, if_true]

/-- Writing a cell below the stacks. -/
lemma write_run (p : DataPath) {a : ℤ} (v : ℤ) (h0 : 0 ≤ a) (h1 : a < DICTIONARY_TOP) :
    ∃ p', write a v p = .ok () p' ∧
      p'.contents = { p.contents with mem := fun i => if i = a then v else p.contents.mem i } := by
  have lay := Layout.values
  have e : ListMemoryAdapter.store a v p.memory = .ok () (p.memory.set a v) :=
    ListMemoryAdapter.store_of_lt h0 (by omega)
  refine ⟨{ p with memory := p.memory.set a v }, by simp only [write, onMemory, e], ?_⟩
  refine Contents.ext ?_ ?_ ?_
  · refine DownwardStackAdapter.contents_congr _ fun j lo _ => p.memory.cell_set_of_ne v ?_
    omega
  · refine DownwardStackAdapter.contents_congr _ fun j lo _ => p.memory.cell_set_of_ne v ?_
    omega
  · funext j
    by_cases same : j = a
    · subst same
      simp only [contents, h0, h1, and_self, if_true]
      exact p.memory.cell_set_self v h0 (by omega)
    · simp only [contents, same, if_false]
      split
      · exact p.memory.cell_set_of_ne v same
      · rfl

end DataPath

end MinCpuForth.Adapters
