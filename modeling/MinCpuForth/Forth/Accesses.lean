import MinCpuForth.Forth.Service
import MinCpuForth.Kernel.Accesses

/-!
# Accesses to the memory, from every layer

The interpreter's `@` and `!` access the cells that the kernel's words access.
-/

namespace MinCpuForth.Forth
open Python Domain Adapters Emulator Kernel Lib Layout EmulatorService

/-- What `@` finds. -/
lemma fetch_target (p : DataPath) : match target 1 p with
    | .ok i => ∃ q, fetch p = .ok () q ∧ Fetched p q i
    | .error e => ∃ q, fetch p = .error e q ∧ q.memory = p.memory := by
  have floor := p.data_stack.floor_le
  have top := p.data_stack.le_base
  have lay := Layout.values
  have shape : fetch = DataPath.popData >>= fun a => DataPath.read a >>= DataPath.pushData := rfl
  by_cases one : p.data_stack.pointer + (1 : ℕ) ≤ DATA_STACK_BASE
  · obtain ⟨d, below, pop⟩ := p.popData_cells.1 (by omega)
    have read := DataPath.read_cellOf { p with data_stack := d }
      (a := p.memory.cell p.data_stack.pointer)
    rw [target, if_pos one, shape, bind_ok pop]
    cases e : cellOf (p.memory.cell p.data_stack.pointer) with
    | some i =>
      rw [e] at read
      have room : DICTIONARY_TOP < d.pointer := by omega
      obtain ⟨d', at_d', push⟩ :=
        (DataPath.pushData_cells { p with data_stack := d } (p.memory.cell i)).1 room
      have back : d.pointer - 1 = p.data_stack.pointer := by omega
      refine ⟨_, (bind_ok read).trans push, ?_, at_d'.trans back, rfl⟩
      simp only [back]
      exact ListMemoryAdapter.cell_set p.memory _ (by omega)
    | none =>
      rw [e] at read
      exact ⟨_, bind_error read, rfl⟩
  · rw [target, if_neg one, shape]
    exact ⟨p, bind_error (p.popData_cells.2 (by omega)), rfl⟩

/-- What `!` finds. -/
lemma store_target (p : DataPath) : match target 2 p with
    | .ok i => ∃ q, store p = .ok () q ∧ Stored p q i
    | .error e => ∃ q, store p = .error e q ∧ q.memory = p.memory := by
  have shape : store = DataPath.popData >>= fun addr => DataPath.popData >>= fun value =>
    DataPath.write addr value := rfl
  by_cases one : p.data_stack.pointer < DATA_STACK_BASE
  · obtain ⟨d, below, pop⟩ := p.popData_cells.1 one
    rw [shape, bind_ok pop]
    by_cases two : p.data_stack.pointer + (2 : ℕ) ≤ DATA_STACK_BASE
    · obtain ⟨d', below', pop'⟩ := (DataPath.popData_cells { p with data_stack := d }).1
        (by simp only; omega)
      have write := DataPath.write_cellOf { p with data_stack := d' }
        (a := p.memory.cell p.data_stack.pointer) (p.memory.cell d.pointer)
      rw [target, if_pos two, bind_ok pop']
      cases e : cellOf (p.memory.cell p.data_stack.pointer) with
      | some i =>
        rw [e] at write
        refine ⟨_, write, ?_, ?_, rfl⟩
        · rw [← below]
          exact ListMemoryAdapter.cell_set p.memory _ (inside_of_cellOf e)
        · simp only at below' ⊢
          omega
      | none =>
        rw [e] at write
        exact ⟨_, write, rfl⟩
    · rw [target, if_neg two]
      have empty := (DataPath.popData_cells { p with data_stack := d }).2 (by simp only; omega)
      exact ⟨_, bind_error empty, rfl⟩
  · rw [target, if_neg (by omega), shape]
    exact ⟨p, bind_error (p.popData_cells.2 one), rfl⟩

/-- A word of the interpreter that needs no argument and works on the data path. -/
lemma call_body {p : Primitive} {op : EStateM PyError DataPath Unit} (h : p.body = some op)
    (f : ForthService) : p.call [] f = ForthService.onData op f := by
  cases p <;> first | (cases h; rfl) | cases h

/-- Every access goes to the cell that the address denotes. An address that denotes none is an
    `IndexError`, which leaves the memory as it was. -/
theorem data_accesses (s : EmulatorService) (dst addr_reg value_reg label : PyStr)
    (f : ForthService) :
    (execute (.LOAD dst addr_reg) s = match cellOf (s.registers addr_reg) with
      | some i =>
        .ok () { s with registers := Function.update s.registers dst (s.data.memory.cell i) }
      | none => .error .indexError s) ∧
    (execute (.STORE addr_reg value_reg) s = match cellOf (s.registers addr_reg) with
      | some i => .ok () { s with data :=
          { s.data with memory := s.data.memory.set i (s.registers value_reg) } }
      | none => .error .indexError s) ∧
    (label ∈ [py "FETCH", py "CFETCH"] → Enters label s → match target 1 s.data with
      | .ok i => ∃ t, Reaches routine s t ∧ Returns s t ∧ Fetched s.data t.data i
      | .error e => RaisesClean s e) ∧
    (label ∈ [py "STOREW", py "CSTOREW"] → Enters label s → match target 2 s.data with
      | .ok i => ∃ t, Reaches routine s t ∧ Returns s t ∧ Stored s.data t.data i
      | .error e => RaisesClean s e) ∧
    (match target 1 f.data with
      | .ok i => ∃ f', Primitive.FETCH.call [] f = .ok () f' ∧ Fetched f.data f'.data i
      | .error e => ∃ f', Primitive.FETCH.call [] f = .error e f' ∧
        f'.data.memory = f.data.memory) ∧
    (match target 2 f.data with
      | .ok i => ∃ f', Primitive.STORE.call [] f = .ok () f' ∧ Stored f.data f'.data i
      | .error e => ∃ f', Primitive.STORE.call [] f = .error e f' ∧
        f'.data.memory = f.data.memory) := by
  refine ⟨load_cellOf dst addr_reg, store_cellOf addr_reg value_reg, fetch_words, store_words,
    ?_, ?_⟩
  · have found := fetch_target f.data
    rw [call_body rfl]
    cases e : target 1 f.data with
    | ok i =>
      rw [e] at found
      obtain ⟨q, run, fetched⟩ := found
      exact ⟨{ f with data := q }, by rw [ForthService.onData, run], fetched⟩
    | error err =>
      rw [e] at found
      obtain ⟨q, run, same⟩ := found
      exact ⟨{ f with data := q }, by rw [ForthService.onData, run], same⟩
  · have found := store_target f.data
    rw [call_body rfl]
    cases e : target 2 f.data with
    | ok i =>
      rw [e] at found
      obtain ⟨q, run, stored⟩ := found
      exact ⟨{ f with data := q }, by rw [ForthService.onData, run], stored⟩
    | error err =>
      rw [e] at found
      obtain ⟨q, run, same⟩ := found
      exact ⟨{ f with data := q }, by rw [ForthService.onData, run], same⟩

/-- The kernel's `@` at -1 reads the last cell. -/
theorem data_accesses_last :
    let s := poised 102 (storing [(3071, -1), (4095, 7)]) ⟨3071, by decide, by decide⟩ []
    ∃ t, Reaches routine s t ∧ t.data.memory.cell 3071 = 7 := by
  intro s
  have cell : s.data.memory.cell = _ := cell_storing (by decide)
  have denotes : target 1 s.data = .ok 4095 := by
    have address : s.data.memory.cell s.data.data_stack.pointer = -1 := by
      rw [cell]
      rfl
    have one : s.data.data_stack.pointer + (1 : ℕ) ≤ DATA_STACK_BASE :=
      (by decide : (3071 : ℤ) + (1 : ℕ) ≤ 3072)
    rw [target, if_pos one, address]
    rfl
  have enters : Enters "FETCH" s := poised_enters 19 rfl (.head _)
  have last : s.data.memory.cell 4095 = 7 := by
    rw [cell]
    decide
  have on_top : s.data.data_stack.pointer = 3071 := rfl
  clear_value s
  obtain ⟨-, -, found, -⟩ := data_accesses s "X" "X" "X" "FETCH" (.init s.data s.registers)
  have fetches := found (.head _) enters
  rw [denotes] at fetches
  obtain ⟨t, r, -, fetched⟩ := fetches
  refine ⟨t, r, ?_⟩
  rw [fetched.cell, last, on_top, Function.update_self]

/-- `STORE` at -1 writes the last cell, and raises nothing. -/
theorem store_at_minus_one : ∃ s t : EmulatorService, s.registers "X" = -1 ∧
    execute (.STORE "X" "Y") s = .ok () t ∧
    t.data.memory.cell 4095 ≠ s.data.memory.cell 4095 := by
  let s : EmulatorService :=
    { poised 0 (.zeroed _) (.init ..) [] with
      registers := fun r => if r = py "X" then -1 else 1 }
  have address : s.registers "X" = -1 := by simp [s]
  have value : s.registers "Y" = 1 := by simp [s]
  have run := @store_cellOf s "X" "Y"
  rw [address, value] at run
  refine ⟨s, _, address, run, ?_⟩
  have after : (s.data.memory.set 4095 1).cell 4095 = 1 :=
    ListMemoryAdapter.cell_set_self _ _ (by decide) (by decide)
  have before : s.data.memory.cell 4095 = 0 := congrFun ListMemoryAdapter.cell_zeroed 4095
  rw [before]
  exact after.trans_ne one_ne_zero

end MinCpuForth.Forth
