import Mathlib.Data.Set.Function
import MinCpuForth.Emulator.Symmetry

/-!
# Register names are immaterial

A program whose registers are renamed, so that no two of those that it names fall together, runs as
it did before. The registers that it does not name keep their values, and play no part in the run.
-/

namespace MinCpuForth.Emulator
open Python Domain Adapters Lib EmulatorService

/-- The second emulator runs the program of the first with the registers `names` renamed. Its other
    registers hold `others`. -/
structure Renamed (names : Set PyStr) (ρ : PyStr → PyStr) (others : PyStr → ℤ)
    (s t : EmulatorService) : Prop where
  program : t.program = s.program.map (InstructionDto.rename ρ)
  named : ∀ i ∈ s.program, ∀ r, i.Names r → r ∈ names
  registers : ∀ r ∈ names, t.registers (ρ r) = s.registers r
  unnamed : ∀ r, r ∉ ρ '' names → t.registers r = others r
  data : t.data = s.data
  char_input : t.char_input = s.char_input
  char_output : t.char_output = s.char_output
  pc : t.pc = s.pc
  halted : t.halted = s.halted

namespace Renamed

variable {names : Set PyStr} {ρ : PyStr → PyStr} {others : PyStr → ℤ} {s t : EmulatorService}

/-- Writing a register and its renamed counterpart. -/
lemma write (h : Renamed names ρ others s t) (inj : Set.InjOn ρ names) {r : PyStr} (mem : r ∈ names)
    (v : ℤ) : Renamed names ρ others { s with registers := Function.update s.registers r v }
      { t with registers := Function.update t.registers (ρ r) v } := by
  refine { h with registers := ?_, unnamed := ?_ }
  · intro x x_mem
    show Function.update t.registers (ρ r) v (ρ x) = Function.update s.registers r v x
    by_cases same : x = r
    · rw [same, Function.update_self, Function.update_self]
    · have apart : ρ x ≠ ρ r := fun e => same (inj x_mem mem e)
      rw [Function.update_of_ne apart, Function.update_of_ne same]
      exact h.registers x x_mem
  · intro x out
    have apart : x ≠ ρ r := by
      rintro rfl
      exact out ⟨r, mem, rfl⟩
    show Function.update t.registers (ρ r) v x = others x
    rw [Function.update_of_ne apart]
    exact h.unnamed x out

/-- All that the handlers do keeps the relation. -/
lemma symmetric (inj : Set.InjOn ρ names) : Symmetric (fun _ => False) (Renamed names ρ others)
    (· ∈ names) ρ (Renamed names ρ others) where
  stopped _ _ h := h
  read r mem _ _ h := h.registers r mem
  write r mem v := by
    intro s t h
    exact .ok ⟨rfl, h.write inj mem v⟩
  data op := by
    intro s t h
    simp only [onData, h.data]
    cases op s.data with
    | ok a d => exact .ok ⟨rfl, { h with data := rfl }⟩
    | error e d => exact .error { h with data := rfl }
  input := by
    intro s t h
    simp only [readInput, h.char_input]
    cases s.char_input with
    | nil => exact .error h
    | cons c cs => exact .ok ⟨rfl, { h with char_input := rfl }⟩
  output v := by
    intro s t h
    have same := congrArg (· ++ [v]) h.char_output
    exact .ok ⟨rfl, { h with char_output := same }⟩
  halt _ _ h := { h with halted := rfl }

/-- One step. -/
lemma step (inj : Set.InjOn ρ names) : Coupled (fun _ => False) (Renamed names ρ others)
    (Renamed names ρ others) step step (Equally (Renamed names ρ others)) := by
  intro s t h
  have length : t.program.length = s.program.length := by rw [h.program, List.length_map]
  cases i : index? s.program.length s.pc with
  | none =>
    have i' : index? t.program.length t.pc = none := by rw [length, h.pc, i]
    have fetched : fetch s = .error .indexError s := by simp only [fetch, i]
    have fetched' : fetch t = .error .indexError t := by simp only [fetch, i']
    have run : EmulatorService.step s = .error .indexError s := bind_error fetched
    have run' : EmulatorService.step t = .error .indexError t := bind_error fetched'
    rw [run, run']
    exact .error h
  | some k =>
    have lt : k < t.program.length := length.symm ▸ k.isLt
    have i' : index? t.program.length t.pc = some ⟨k, lt⟩ := by
      rw [h.pc]
      cases index?_eq_some.mp i with
      | inl front => exact index?_eq_some.mpr (.inl front)
      | inr back =>
        have back' : (k : ℤ) = s.pc + t.program.length := by rw [length, back]
        exact index?_eq_some.mpr (.inr back')
    have instr : t.program[(⟨k, lt⟩ : Fin t.program.length)] = s.program[k].rename ρ := by
      simp [h.program]
    have here : Renamed names ρ others { s with pc := s.pc + 1 } { t with pc := t.pc + 1 } :=
      { h with pc := congrArg (· + 1) h.pc }
    rw [step_eq i, step_eq i', instr]
    refine (symmetric inj).execute ?_ (fun _ _ kept => kept) ?_ ?_ _ _ here
    · exact h.named _ (List.getElem_mem k.isLt)
    · intro _ v s t kept
      exact .ok ⟨rfl, { kept with pc := rfl }⟩
    · intro o _ s t kept
      exact .ok ⟨rfl, { kept with pc := congrArg (· + o) kept.pc }⟩

end Renamed

variable {names : Set PyStr} {ρ : PyStr → PyStr} {others : PyStr → ℤ} {s t : EmulatorService}

/-- With its registers renamed, a program returns or raises within the same bounds as before, with
    the same exceptions. What it leaves differs in the names of its registers only, and the
    registers that it does not name are as they were. -/
theorem renamed_run (inj : Set.InjOn ρ names) (h : Renamed names ρ others s t) (max_steps : ℤ) :
    (∀ s', run max_steps s = .ok () s' →
      ∃ t', run max_steps t = .ok () t' ∧ Renamed names ρ others s' t') ∧
    ∀ e s', run max_steps s = .error e s' →
      ∃ t', run max_steps t = .error e t' ∧ Renamed names ρ others s' t' := by
  have going := Renamed.step inj |>.mono
    (fun s t (h : Renamed names ρ others s t ∧ s.halted = false) => h.1) fun _ _ _ _ ends => ends
  have ends := runLoop_coupled going (fun s t h => h.halted.symm) max_steps 0 s t h
  constructor
  · intro s' returns
    obtain ⟨_, t', returns', -, h'⟩ := ends.returns returns
    exact ⟨t', returns', h'⟩
  · intro e s' raised
    exact ends.raises raised id

/-- A program that writes two registers and halts, with the registers renamed. -/
theorem renamed_run_out : ∃ s t t' : EmulatorService,
    s.program = [.OUT "A", .OUT "B", .HALT] ∧ t.program = [.OUT "B", .OUT "C", .HALT] ∧
      s.registers (py "A") = 7 ∧ s.registers (py "B") = 9 ∧
      run 3 t = .ok () t' ∧ t'.char_output = [7, 9] := by
  let ρ : PyStr → PyStr := fun r => if r = py "A" then py "B" else py "C"
  let s : EmulatorService :=
    ⟨fun r => if r = py "A" then 7 else 9, ⟨.zeroed _, .init .., .init ..⟩, [], [],
      [.OUT "A", .OUT "B", .HALT], 0, false⟩
  let t : EmulatorService :=
    { s with
      registers := fun r => if r = py "B" then 7 else 9
      program := [.OUT "B", .OUT "C", .HALT] }
  let s' : EmulatorService := { s with char_output := [7, 9], pc := 3, halted := true }
  have run_s : run 3 s = .ok () s' := (congrFun (run_eq 3) s).trans rfl
  have renamed : Renamed {py "A", py "B"} ρ (fun _ => 9) s t :=
    { program := rfl
      named := by
        intro i mem r named
        simp only [s, List.mem_cons, List.not_mem_nil, or_false] at mem
        rcases mem with rfl | rfl | rfl
        · rcases named with e | e
          · exact .inl (Option.some.inj e).symm
          · cases e
        · rcases named with e | e
          · exact .inr (Option.some.inj e).symm
          · cases e
        · rcases named with e | e <;> cases e
      registers := by
        rintro r (rfl | rfl)
        · rfl
        · rfl
      unnamed := by
        intro r out
        refine if_neg fun same => out ⟨py "A", .inl rfl, ?_⟩
        exact same.symm
      data := rfl
      char_input := rfl
      char_output := rfl
      pc := rfl
      halted := rfl }
  have inj : Set.InjOn ρ {py "A", py "B"} := by
    rintro x (rfl | rfl) y (rfl | rfl) same
    · rfl
    · exact absurd same (by decide)
    · exact absurd same (by decide)
    · rfl
  obtain ⟨t', run_t, after⟩ := (renamed_run inj renamed 3).1 s' run_s
  exact ⟨s, t, t', rfl, rfl, rfl, rfl, run_t, after.char_output⟩

end MinCpuForth.Emulator
