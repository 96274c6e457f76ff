import MinCpuForth.Emulator.Service

/-!
# What a step fetches

The program is a list that the program counter indexes, unchecked. A negative program counter
counts from the end of the program.
-/

namespace MinCpuForth.Emulator
open Python Domain Adapters Lib EmulatorService

/-- The step executes the instruction at the program counter, which lies inside the program, or it
    raises one of the program's own errors and does nothing. -/
def FetchesInside (s : EmulatorService) : Prop :=
  (∃ k instruction, s.pc = (k : ℕ) ∧ s.program[k]? = some instruction ∧
    step s = execute instruction { s with pc := s.pc + 1 }) ∨
  ∃ e, e.isMachineError = true ∧ step s = .error e s

/-- A step at an index of the program list. -/
lemma step_index {s : EmulatorService} {k : ℕ} (lt : k < s.program.length)
    (h : (k : ℤ) = s.pc ∨ (k : ℤ) = s.pc + s.program.length) :
    ∃ instruction, s.program[k]? = some instruction ∧
      step s = execute instruction { s with pc := s.pc + 1 } :=
  ⟨s.program[k], List.getElem?_eq_getElem lt,
    step_eq (i := ⟨k, lt⟩) (index?_eq_some.mpr h)⟩

/-- A step executes the instruction at the program counter, or the one that a negative program
    counter denotes from the end of the program; any other program counter is an `IndexError`, which
    changes nothing. -/
theorem step_fetches (s : EmulatorService) :
    (0 ≤ s.pc ∧ s.pc < s.program.length → ∃ instruction,
      s.program[s.pc.toNat]? = some instruction ∧
        step s = execute instruction { s with pc := s.pc + 1 }) ∧
    (-s.program.length ≤ s.pc ∧ s.pc < 0 → ∃ instruction,
      s.program[(s.pc + s.program.length).toNat]? = some instruction ∧
        step s = execute instruction { s with pc := s.pc + 1 }) ∧
    (s.pc < -s.program.length ∨ s.program.length ≤ s.pc → step s = .error .indexError s) := by
  refine ⟨?_, ?_, ?_⟩
  · rintro ⟨low, high⟩
    exact step_index (by omega) (.inl (by omega))
  · rintro ⟨low, high⟩
    exact step_index (by omega) (.inr (by omega))
  · intro outside
    have e : fetch s = .error .indexError s := by
      simp only [fetch, index?_eq_none.mpr outside]
    exact bind_error e

/-- A jump to -1 executes the last instruction of the program. -/
theorem step_fetches_from_the_end : ∃ (s t : EmulatorService) (program : List InstructionDto),
    Reaches advance (s.load program) t ∧ ¬FetchesInside t := by
  let program : List InstructionDto := [.SUB "R" (.imm 1), .JMP "R", .HALT]
  let s : EmulatorService :=
    ⟨fun _ => 0, ⟨.zeroed _, .init .., .init ..⟩, [], [], program, 0, false⟩
  let first : EmulatorService :=
    { s with registers := Function.update (fun _ => 0) (py "R") (-1), pc := 1 }
  let t : EmulatorService := { first with pc := -1 }
  have sub : advance (s.load program) = .next first := rfl
  have jump : advance first = .next t := rfl
  refine ⟨s, t, program, .head sub (.one jump), ?_⟩
  rintro (⟨k, instruction, pc, -⟩ | ⟨e, -, run⟩)
  · have lt : (-1 : ℤ) = k := pc
    omega
  · have ok : step t = .ok () { t with pc := 0, halted := true } := rfl
    cases ok.symm.trans run

end MinCpuForth.Emulator
