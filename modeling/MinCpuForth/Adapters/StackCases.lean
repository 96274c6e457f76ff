import MinCpuForth.Adapters.DataPathCells

/-!
# How the operations of the stacks end

An operation of a stack succeeds or leaves the whole data path as it was. A value that has been
popped can be pushed back, which undoes the pop.
-/

namespace MinCpuForth.Adapters.DataPath
open Domain Layout Python

variable (p : DataPath) (v : ℤ)

lemma length_ds : p.contents.ds.length = p.data_stack.depth :=
  DownwardStackAdapter.length_contents ..

lemma length_rs : p.contents.rs.length = p.return_stack.depth :=
  DownwardStackAdapter.length_contents ..

/-- Popping off the data stack. -/
lemma popData_cases :
    (∃ a q, popData p = .ok a q ∧ p.contents.ds = a :: q.contents.ds ∧
      q.contents.rs = p.contents.rs ∧ pushData a q = .ok () p) ∨
    (p.contents.ds = [] ∧ popData p = .error .stackUnderflow p) := by
  have lay := Layout.values
  have place := p.data_stack.pointer_eq
  have floor := p.data_stack.floor_le
  have depth := p.length_ds
  by_cases pos : p.data_stack.pointer < DATA_STACK_BASE
  · obtain ⟨s, e, run⟩ := p.popData_cells.1 pos
    refine .inl ⟨_, _, run, DownwardStackAdapter.contents_pop p.memory e, rfl, ?_⟩
    obtain ⟨s', e', back⟩ := (pushData_cells { p with data_stack := s }
      (p.memory.cell p.data_stack.pointer)).1 (by simp only; omega)
    have here : s.pointer - 1 = p.data_stack.pointer := by omega
    refine back.trans (congrArg _ (ext_cells ?_ (e'.trans here) rfl))
    rw [here, ListMemoryAdapter.cell_set _ _ (by omega)]
    exact Function.update_eq_self _ _
  · refine .inr ⟨List.eq_nil_of_length_eq_zero ?_, p.popData_cells.2 pos⟩
    omega

/-- Pushing onto the data stack. -/
lemma pushData_cases :
    (p.contents.ds.length < 1024 ∧ ∃ q, pushData v p = .ok () q ∧
      q.contents = { p.contents with ds := v :: p.contents.ds }) ∨
    (p.contents.ds.length = 1024 ∧ pushData v p = .error .stackOverflow p) := by
  have lay := Layout.values
  have place := p.data_stack.pointer_eq
  have depth := p.length_ds
  have size : p.data_stack.depth ≤ 1024 := p.data_stack.depth_le
  by_cases room : p.contents.ds.length < 1024
  · refine .inl ⟨room, (pushData_refines v).ok ?_⟩
    exact if_pos room
  · refine .inr ⟨by omega, (p.pushData_cells v).2 ?_⟩
    omega

/-- Peeking at the data stack. -/
lemma peekData_cases :
    (∃ a ds, p.contents.ds = a :: ds ∧ peekData p = .ok a p) ∨
    (p.contents.ds = [] ∧ peekData p = .error .stackUnderflow p) := by
  have depth := p.length_ds
  by_cases pos : 0 < p.data_stack.depth
  · obtain ⟨s, e, -⟩ := DownwardStackAdapter.pop_ok (m := p.memory) data_inside pos
    refine .inl ⟨_, _, DownwardStackAdapter.contents_pop p.memory e, ?_⟩
    simp only [peekData, onData, DownwardStackAdapter.peek_ok data_inside pos]
  · refine .inr ⟨List.eq_nil_of_length_eq_zero (by omega), ?_⟩
    simp only [peekData, onData, DownwardStackAdapter.peek_underflow (Nat.eq_zero_of_not_pos pos)]

/-- Popping off the return stack. -/
lemma popReturn_cases :
    (∃ a q, popReturn p = .ok a q ∧ p.contents.rs = a :: q.contents.rs ∧
      q.contents.ds = p.contents.ds) ∨
    (p.contents.rs = [] ∧ popReturn p = .error .stackUnderflow p) := by
  have lay := Layout.values
  have place := p.return_stack.pointer_eq
  have depth := p.length_rs
  by_cases pos : p.return_stack.pointer < RETURN_STACK_BASE
  · obtain ⟨s, e, run⟩ := p.popReturn_cells.1 pos
    exact .inl ⟨_, _, run, DownwardStackAdapter.contents_pop p.memory e, rfl⟩
  · refine .inr ⟨List.eq_nil_of_length_eq_zero ?_, p.popReturn_cells.2 pos⟩
    omega

/-- Pushing onto the return stack. -/
lemma pushReturn_cases :
    (p.contents.rs.length < 1024 ∧ ∃ q, pushReturn v p = .ok () q ∧
      q.contents = { p.contents with rs := v :: p.contents.rs }) ∨
    (p.contents.rs.length = 1024 ∧ pushReturn v p = .error .stackOverflow p) := by
  have lay := Layout.values
  have place := p.return_stack.pointer_eq
  have depth := p.length_rs
  have size : p.return_stack.depth ≤ 1024 := p.return_stack.depth_le
  by_cases room : p.contents.rs.length < 1024
  · refine .inl ⟨room, (pushReturn_refines v).ok ?_⟩
    exact if_pos room
  · refine .inr ⟨by omega, (p.pushReturn_cells v).2 ?_⟩
    omega

/-- Peeking at the return stack. -/
lemma peekReturn_cases :
    (∃ a rs, p.contents.rs = a :: rs ∧ peekReturn p = .ok a p) ∨
    (p.contents.rs = [] ∧ peekReturn p = .error .stackUnderflow p) := by
  have depth := p.length_rs
  by_cases pos : 0 < p.return_stack.depth
  · obtain ⟨s, e, -⟩ := DownwardStackAdapter.pop_ok (m := p.memory) return_inside pos
    refine .inl ⟨_, _, DownwardStackAdapter.contents_pop p.memory e, ?_⟩
    simp only [peekReturn, onReturn, DownwardStackAdapter.peek_ok return_inside pos]
  · refine .inr ⟨List.eq_nil_of_length_eq_zero (by omega), ?_⟩
    simp only [peekReturn, onReturn,
      DownwardStackAdapter.peek_underflow (Nat.eq_zero_of_not_pos pos)]

/-- The stacks never exceed their regions. -/
lemma contents_le : p.contents.ds.length ≤ 1024 ∧ p.contents.rs.length ≤ 1024 := by
  rw [length_ds, length_rs]
  exact ⟨p.data_stack.depth_le, p.return_stack.depth_le⟩

section Contents

/-! What an operation that succeeds tells about the contents. -/

variable {p q : DataPath} {a v : ℤ}

lemma popData_contents (h : popData p = .ok a q) :
    p.contents = { q.contents with ds := a :: q.contents.ds } := by
  have run := popData_refines.of_ok h
  unfold Contents.popData at run
  split at run
  · cases run
  · rename_i x xs e
    obtain ⟨rfl, c⟩ := EStateM.Result.ok.inj run
    rw [← c]
    exact Contents.ext e rfl rfl

lemma pushData_contents (h : pushData v p = .ok () q) :
    q.contents = { p.contents with ds := v :: p.contents.ds } := by
  have run := (pushData_refines v).of_ok h
  unfold Contents.pushData at run
  split at run
  · exact (EStateM.Result.ok.inj run).2.symm
  · cases run

lemma peekData_contents (h : peekData p = .ok a q) :
    q.contents = p.contents ∧ ∃ s, p.contents.ds = a :: s := by
  have run := peekData_refines.of_ok h
  unfold Contents.peekData at run
  split at run
  · cases run
  · rename_i x xs e
    obtain ⟨rfl, c⟩ := EStateM.Result.ok.inj run
    exact ⟨c.symm, xs, e⟩

lemma popReturn_contents (h : popReturn p = .ok a q) :
    p.contents = { q.contents with rs := a :: q.contents.rs } := by
  have run := popReturn_refines.of_ok h
  unfold Contents.popReturn at run
  split at run
  · cases run
  · rename_i x xs e
    obtain ⟨rfl, c⟩ := EStateM.Result.ok.inj run
    rw [← c]
    exact Contents.ext rfl e rfl

lemma pushReturn_contents (h : pushReturn v p = .ok () q) :
    q.contents = { p.contents with rs := v :: p.contents.rs } := by
  have run := (pushReturn_refines v).of_ok h
  unfold Contents.pushReturn at run
  split at run
  · exact (EStateM.Result.ok.inj run).2.symm
  · cases run

lemma peekReturn_contents (h : peekReturn p = .ok a q) :
    q.contents = p.contents ∧ ∃ s, p.contents.rs = a :: s := by
  have run := peekReturn_refines.of_ok h
  unfold Contents.peekReturn at run
  split at run
  · cases run
  · rename_i x xs e
    obtain ⟨rfl, c⟩ := EStateM.Result.ok.inj run
    exact ⟨c.symm, xs, e⟩

end Contents

end MinCpuForth.Adapters.DataPath
