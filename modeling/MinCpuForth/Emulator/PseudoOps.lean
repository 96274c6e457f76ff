import MinCpuForth.Assembler.TwoPass

/-!
# The pseudo-ops at run time

`SET r, c` and `MOV dst, src` are two instructions each, of which the first clears the destination.
`SET` loads its constant; `MOV` copies its source unless that is the destination itself, which is
left cleared.
-/

namespace MinCpuForth.Emulator
open Python Domain Lib Assembler EmulatorService

/-- Two steps load `value` into `reg` and do nothing else but move past two instructions. -/
def Loads (t : EmulatorService) (reg : PyStr) (value : ℤ) : Prop :=
  ∃ t₁, step t = .ok () t₁ ∧ step t₁ = .ok ()
    { t with registers := Function.update t.registers reg value, pc := t.pc + 2 }

/-- What a constant stands for: an integer literal for itself, a label for its program index. -/
def Denotes [UnicodeData] (labels : Labels) (token : PyStr) (value : ℤ) : Prop :=
  int0 token = some value ∨ labels.lookup token = some value

variable {t : EmulatorService} {k : ℕ} {reg src : PyStr} {value : ℤ}

/-- Clearing a register. -/
lemma clear_runs (pc : t.pc = k) (h : t.program[k]? = some (.SUB reg (.reg reg))) :
    step t = .ok () { t with registers := Function.update t.registers reg 0, pc := k + 1 } := by
  rw [step_at pc h]
  have run : execute (.SUB reg (.reg reg)) { t with pc := k + 1 } = .ok ()
      { t with
        registers := Function.update t.registers reg (t.registers reg - t.registers reg)
        pc := k + 1 } := rfl
  rw [run, Int.sub_self]

/-- The value of an operand. -/
def valueOf (t : EmulatorService) : Operand → ℤ
  | .imm value => value
  | .reg name => t.registers name

/-- Adding to a register. -/
lemma add_runs {operand : Operand} (pc : t.pc = k) (h : t.program[k]? = some (.ADD reg operand)) :
    step t = .ok ()
      { t with
        registers := Function.update t.registers reg (t.registers reg + valueOf t operand)
        pc := k + 1 } := by
  rw [step_at pc h]
  cases operand <;> rfl

/-- Clearing a register, and then adding to it. -/
lemma load_runs {operand : Operand} (pc : t.pc = k)
    (first : t.program[k]? = some (.SUB reg (.reg reg)))
    (second : t.program[k + 1]? = some (.ADD reg operand)) :
    Loads t reg
      (valueOf { t with registers := Function.update t.registers reg 0 } operand) := by
  let t₁ : EmulatorService :=
    { t with registers := Function.update t.registers reg 0, pc := k + 1 }
  have add := add_runs (t := t₁) (k := k + 1) (by simp [t₁]) second
  have here : t₁.registers reg = 0 := Function.update_self ..
  have next : ((k + 1 : ℕ) : ℤ) + 1 = t.pc + 2 := by omega
  have idem : ∀ v, Function.update t₁.registers reg v = Function.update t.registers reg v :=
    fun v => Function.update_idem ..
  rw [here, Int.zero_add, idem, next] at add
  refine ⟨t₁, clear_runs pc first, add.trans ?_⟩
  cases operand <;> rfl

/-- Clearing a register and adding a constant to it. -/
lemma set_runs (pc : t.pc = k) (first : t.program[k]? = some (.SUB reg (.reg reg)))
    (second : t.program[k + 1]? = some (.ADD reg (.imm value))) : Loads t reg value :=
  load_runs pc first second

/-- Clearing a register and adding another, or itself. -/
lemma mov_runs (pc : t.pc = k) (first : t.program[k]? = some (.SUB reg (.reg reg)))
    (second : t.program[k + 1]? = some (.ADD reg (.reg src))) :
    Loads t reg (if reg = src then 0 else t.registers src) := by
  have cleared : Function.update t.registers reg 0 src =
      if reg = src then 0 else t.registers src := by
    split
    · rename_i same
      rw [same, Function.update_self]
    · rename_i ne
      exact Function.update_of_ne (Ne.symm ne) ..
  exact cleared ▸ load_runs pc first second

/-- Two steps load one value. -/
lemma Loads.unique {value' : ℤ} (h : Loads t reg value) (h' : Loads t reg value') :
    value = value' := by
  obtain ⟨t₁, e₁, e₂⟩ := h
  obtain ⟨t₁', e₁', e₂'⟩ := h'
  cases e₁.symm.trans e₁'
  have same := congrArg EmulatorService.registers (EStateM.Result.ok.inj (e₂.symm.trans e₂')).2
  simpa using congrFun same reg

/-- A `MOV` copies its source just when that is another register, or holds zero. -/
lemma mov_copies (pc : t.pc = k) (first : t.program[k]? = some (.SUB reg (.reg reg)))
    (second : t.program[k + 1]? = some (.ADD reg (.reg src))) :
    Loads t reg (t.registers src) ↔ reg ≠ src ∨ t.registers src = 0 := by
  have runs := mov_runs pc first second
  constructor
  · intro copies
    by_cases same : reg = src
    · rw [if_pos same] at runs
      exact .inr (copies.unique runs)
    · exact .inl same
  · rintro (ne | zero)
    · rwa [if_neg ne] at runs
    · rwa [zero, ite_self, ← zero] at runs

/-- In every text that assembles, wherever it stands and whatever labels there are: a `SET` loads
    its constant, and a `MOV` copies its source just when that is not the destination itself, or
    holds zero. -/
theorem pseudo_ops_load [UnicodeData] {source : PyStr} {assembly : AssemblyDto}
    (h : assemble source = .ok assembly) :
    ∃ lines resolved, parse source = .ok lines ∧ resolve lines = .ok resolved ∧
      assembly.labels = resolved.labels ∧
      ∀ line ∈ resolved.lines,
        (line.mnemonic = some MOV_MNEMONIC → ∃ d s, line.operands = [d, s] ∧
          ∀ t : EmulatorService, t.program = assembly.program → t.pc = line.address →
            (Loads t d (t.registers s) ↔ d ≠ s ∨ t.registers s = 0)) ∧
        (line.mnemonic = some SET_MNEMONIC → ∃ d c value, line.operands = [d, c] ∧
          Denotes assembly.labels c value ∧
          ∀ value', Denotes assembly.labels c value' →
            ∀ t : EmulatorService, t.program = assembly.program → t.pc = line.address →
              Loads t d value') := by
  obtain ⟨lines, resolved, parsed, res, emitted, labels⟩ := assemble_ok h
  refine ⟨lines, resolved, parsed, res, labels, fun line mem => ?_⟩
  obtain ⟨before, after, split⟩ := List.append_of_mem mem
  obtain ⟨pre, here, post, -, emits, -, -, address, instr⟩ := emitted_at res emitted split
  constructor
  · intro mov
    obtain ⟨d, s, dest, src, operands, r, r', rfl⟩ := emitMov_ok (emitLine_of_mov mov ▸ emits)
    cases resolveRegister_ok r
    cases resolveRegister_ok r'
    refine ⟨_, _, operands, fun t loaded pc => ?_⟩
    refine mov_copies (pc.trans address) ?_ ?_
    · rw [loaded]
      exact instr 0 (by simp)
    · rw [loaded]
      exact instr 1 (by simp)
  · intro set
    obtain ⟨d, c, register, value, operands, r, constant, rfl⟩ :=
      emitSet_ok (emitLine_of_set set ▸ emits)
    cases resolveRegister_ok r
    have denotes : Denotes assembly.labels c value ∧
        ∀ value', Denotes assembly.labels c value' → value' = value := by
      unfold resolveConstant at constant
      split at constant
      · rename_i number
        cases constant
        refine ⟨.inl number, ?_⟩
        rintro value' (number' | found)
        · exact Option.some.inj (number'.symm.trans number)
        · rw [label_not_int parsed res (labels ▸ found)] at number
          cases number
      · rename_i none
        split at constant
        · rename_i found
          cases constant
          rw [← labels] at found
          refine ⟨.inr found, ?_⟩
          rintro value' (number | found')
          · cases none.symm.trans number
          · exact Option.some.inj (found'.symm.trans found)
        · cases constant
    refine ⟨_, _, value, operands, denotes.1, fun value' d t loaded pc => ?_⟩
    rw [denotes.2 value' d]
    refine set_runs (pc.trans address) ?_ ?_
    · rw [loaded]
      exact instr 0 (by simp)
    · rw [loaded]
      exact instr 1 (by simp)

/-- A `SET` of a label and two `MOV`s, the second of them onto its own source. -/
theorem pseudo_ops_load_labels : ∃ assembly : AssemblyDto,
    @assemble .ascii "SET X, END
MOV Y, X
END: MOV X, X" = .ok assembly ∧ assembly.labels = [(py "END", 4)] ∧
    ∀ t : EmulatorService, t.program = assembly.program →
      (t.pc = 0 → Loads t (py "X") 4) ∧
      (t.pc = 2 → Loads t (py "Y") (t.registers (py "X"))) ∧
      (t.pc = 4 → (Loads t (py "X") (t.registers (py "X")) ↔ t.registers (py "X") = 0)) := by
  let set : LineDto := ⟨1, [], some "SET", ["X", "END"], -1⟩
  let copy : LineDto := ⟨2, [], some "MOV", ["Y", "X"], -1⟩
  let itself : LineDto := ⟨3, ["END"], some "MOV", ["X", "X"], -1⟩
  obtain ⟨lines, resolved, parsed, res, labels, loads⟩ := @pseudo_ops_load .ascii "SET X, END
MOV Y, X
END: MOV X, X" ⟨[.SUB "X" (.reg "X"), .ADD "X" (.imm 4), .SUB "Y" (.reg "Y"), .ADD "Y" (.reg "X"),
      .SUB "X" (.reg "X"), .ADD "X" (.reg "X")], [("END", 4)]⟩ (by decide +kernel)
  have read : @parse .ascii "SET X, END
MOV Y, X
END: MOV X, X" = .ok [set, copy, itself] := by decide +kernel
  obtain rfl := Except.ok.inj (read.symm.trans parsed)
  have placed : resolve [set, copy, itself] =
      .ok ⟨[set.with_address 0, copy.with_address 2, itself.with_address 4], [("END", 4)]⟩ := by
    decide +kernel
  obtain rfl := Except.ok.inj (placed.symm.trans res)
  refine ⟨_, by decide +kernel, labels, fun t program => ⟨fun pc => ?_, fun pc => ?_, fun pc => ?_⟩⟩
  · obtain ⟨d, c, value, operands, -, load⟩ := (loads (set.with_address 0) (.head _)).2 rfl
    cases operands
    exact load 4 (.inr rfl) t program pc
  · obtain ⟨d, s, operands, load⟩ := (loads (copy.with_address 2) (.tail _ (.head _))).1 rfl
    cases operands
    exact (load t program pc).mpr (.inl (by decide))
  · obtain ⟨d, s, operands, load⟩ :=
      (loads (itself.with_address 4) (.tail _ (.tail _ (.head _)))).1 rfl
    cases operands
    exact (load t program pc).trans (or_iff_right fun ne => ne rfl)

/-- `MOV X, X` clears `X`. -/
theorem mov_to_itself_clears : ∃ (assembly : AssemblyDto) (t t₁ t₂ : EmulatorService),
    @assemble .ascii "MOV X, X" = .ok assembly ∧ t.program = assembly.program ∧ t.pc = 0 ∧
      t.registers (py "X") = 5 ∧ step t = .ok () t₁ ∧ step t₁ = .ok () t₂ ∧
      t₂.registers (py "X") ≠ t.registers (py "X") := by
  let t : EmulatorService :=
    ⟨fun _ => 5, ⟨.zeroed _, .init .., .init ..⟩, [], [],
      [.SUB "X" (.reg "X"), .ADD "X" (.reg "X")], 0, false⟩
  obtain ⟨t₁, first, second⟩ := mov_runs (t := t) (k := 0) rfl rfl rfl
  refine ⟨⟨t.program, []⟩, t, t₁, _, by decide +kernel, rfl, rfl, rfl, first, second, ?_⟩
  have cleared : Function.update t.registers (py "X") 0 (py "X") = 0 := Function.update_self ..
  simp only [if_true, cleared]
  decide

end MinCpuForth.Emulator
