import MinCpuForth.Assembler.Emission
import MinCpuForth.Emulator.Service
import MinCpuForth.Python.Literal

/-!
# The two passes agree

The resolver sizes a line by its mnemonic alone, the emitter decides what to emit from the operands.
They agree on every line, so that the addresses and labels of the first pass are positions in the
program of the second, and branches and jumps to a label arrive there.
-/

namespace MinCpuForth.Assembler
open Python Domain Emulator EmulatorService Lib

/-! ## Labels are not numbers -/

/-- How a label begins. -/
def LabelStart (c : PyChar) : Prop := (isAsciiLetter c || isUnderscore c) = true

/-- What the first character of a label is not. -/
lemma LabelStart.facts {c : PyChar} (h : LabelStart c) :
    c.val < 128 ∧ isCSpace c = false ∧ ¬(c = 43 ∨ c = 45) ∧ isAsciiDigit c = false := by
  have sign : ¬(c = 43 ∨ c = 45) := by
    rintro (rfl | rfl) <;> cases h
  simp only [LabelStart, isAsciiLetter, isUnderscore, Bool.or_eq_true, Bool.and_eq_true,
    decide_eq_true_eq, beq_iff_eq] at h
  simp only [isCSpace, isAsciiDigit, Bool.or_eq_false_iff, Bool.and_eq_false_iff,
    decide_eq_false_iff_not, beq_eq_false_iff_ne]
  refine ⟨?_, ?_, sign, ?_⟩ <;> omega

/-- A label is no integer literal. -/
lemma LabelStart.not_literal [UnicodeData] {c : PyChar} (h : LabelStart c) (cs : PyStr) :
    ¬IntegerLiteral (c :: cs) := by
  obtain ⟨low, space, sign, digit⟩ := h.facts
  -- The rewriting to ASCII does not touch the first character.
  have ascii : ∃ ds, toAsciiDecimal (c :: cs) = c :: ds := by
    unfold toAsciiDecimal
    split
    · exact ⟨cs, rfl⟩
    · exact ⟨_, by rw [List.map_cons, if_pos low]⟩
  exact Python.not_literal ascii space sign digit

lemma LabelStart.int0 [UnicodeData] {c : PyChar} (h : LabelStart c) (cs : PyStr) :
    int0 (c :: cs) = none :=
  int0_eq_none (h.not_literal cs)

/-- The label that a prefix defines begins like a label. -/
lemma labelPrefix_start [UnicodeData] {work label rest : PyStr}
    (h : labelPrefix work = some (label, rest)) : ∃ c cs, label = c :: cs ∧ LabelStart c := by
  unfold labelPrefix at h
  split at h
  · cases h
  · rename_i c cs _
    split at h
    · rename_i start
      split at h
      · cases h
      · split at h
        · cases h
          exact ⟨c, _, rfl, start⟩
        · cases h
    · cases h

/-- Every peeled label begins like a label. -/
lemma peelLabels_start [UnicodeData] {fuel : ℕ} {work label : PyStr}
    (mem : label ∈ (peelLabels fuel work).1) : ∃ c cs, label = c :: cs ∧ LabelStart c := by
  induction fuel generalizing work with
  | zero => cases mem
  | succ fuel ih =>
    unfold peelLabels at mem
    split at mem
    · cases mem
    · rename_i found
      cases mem with
      | head => exact labelPrefix_start found
      | tail _ mem => exact ih mem

/-- Every label of a parsed line begins like a label. -/
lemma parseLine_start [UnicodeData] {lineno : ℕ} {raw label : PyStr} {line : LineDto}
    (h : parseLine lineno raw = .ok line) (mem : label ∈ line.labels) :
    ∃ c cs, label = c :: cs ∧ LabelStart c := by
  unfold parseLine at h
  dsimp only at h
  split at h
  · cases h
    exact peelLabels_start mem
  · obtain ⟨p, -, h⟩ := Fallible.bind_eq_ok.mp h
    cases h
    exact peelLabels_start mem

/-- Every label of a parsed text begins like a label. -/
lemma parseLines_start [UnicodeData] {lineno : ℕ} {raws : List PyStr} {lines : List LineDto}
    (h : parseLines lineno raws = .ok lines) :
    ∀ line ∈ lines, ∀ label ∈ line.labels, ∃ c cs, label = c :: cs ∧ LabelStart c := by
  induction raws generalizing lineno lines with
  | nil =>
    cases h
    simp
  | cons raw raws ih =>
    obtain ⟨line, r, h⟩ := Fallible.bind_eq_ok.mp h
    obtain ⟨rest, r', h⟩ := Fallible.bind_eq_ok.mp h
    cases h
    intro l mem label
    cases mem with
    | head => exact parseLine_start r
    | tail _ mem => exact ih r' l mem label

/-! ## The resolver -/

/-- How many instructions some lines are sized at. -/
def sizes (lines : List LineDto) : ℕ := (lines.map size).sum

@[simp] lemma sizes_nil : sizes [] = 0 := rfl

@[simp] lemma sizes_cons (line : LineDto) (lines : List LineDto) :
    sizes (line :: lines) = size line + sizes lines := by
  simp [sizes]

@[simp] lemma size_with_address (line : LineDto) (address : ℤ) :
    size (line.with_address address) = size line := rfl

/-- Entering the labels of a line keeps the earlier ones, adds the line's own at its address, and
    adds no other. -/
lemma defineLabels_ok {lineno : ℕ} {address : ℤ} {labels labels' : Labels} {names : List PyStr}
    (h : defineLabels lineno address labels names = .ok labels') :
    (∀ l a, labels.lookup l = some a → labels'.lookup l = some a) ∧
      (∀ l ∈ names, labels'.lookup l = some address) ∧
      ∀ l a, labels'.lookup l = some a → labels.lookup l = some a ∨ l ∈ names := by
  induction names generalizing labels with
  | nil =>
    cases h
    exact ⟨fun _ _ e => e, by simp, fun _ _ e => .inl e⟩
  | cons name names ih =>
    unfold defineLabels at h
    split at h
    · cases h
    · rename_i fresh
      have none : labels.lookup name = none := Option.not_isSome_iff_eq_none.mp fresh
      obtain ⟨old, new, only⟩ := ih h
      refine ⟨fun l a e => old l a ?_, ?_, fun l a e => ?_⟩
      · rw [List.lookup_append, e]
        rfl
      · intro l mem
        cases mem with
        | head =>
          refine old _ _ ?_
          rw [List.lookup_append, none]
          simp
        | tail _ mem => exact new l mem
      · rcases only l a e with e | mem
        · rw [List.lookup_append] at e
          cases found : labels.lookup l with
          | some b =>
            rw [found] at e
            exact .inl e
          | none =>
            rw [found] at e
            by_cases same : l = name
            · exact .inr (same ▸ List.mem_cons_self ..)
            · have ne : (l == name) = false := by simpa using same
              simp [List.lookup_cons, ne] at e
        · exact .inr (List.mem_cons_of_mem _ mem)

/-- What the resolver's loop returns. -/
structure Resolved (labels : Labels) (address : ℤ) (lines : List LineDto)
    (resolved : ResolvedProgramDto) : Prop where
  /-- the lines keep their contents -/
  contents : resolved.lines.map (·.with_address 0) = lines.map (·.with_address 0)
  /-- each address counts the instructions before the line -/
  addresses : ∀ before line after, resolved.lines = before ++ line :: after →
    line.address = address + sizes before
  /-- each label of a line is in the table, at the line's address -/
  defined : ∀ line ∈ resolved.lines, ∀ l ∈ line.labels, resolved.labels.lookup l = some line.address
  /-- the table keeps what it held -/
  kept : ∀ l a, labels.lookup l = some a → resolved.labels.lookup l = some a
  /-- and holds nothing else -/
  only : ∀ l a, resolved.labels.lookup l = some a →
    labels.lookup l = some a ∨ ∃ line ∈ resolved.lines, l ∈ line.labels

/-- The resolver's loop. -/
lemma resolveLoop_ok {labels : Labels} {address : ℤ} {lines : List LineDto}
    {resolved : ResolvedProgramDto} (h : resolveLoop labels address lines = .ok resolved) :
    Resolved labels address lines resolved := by
  induction lines generalizing labels address resolved with
  | nil =>
    cases h
    refine ⟨rfl, fun before line after e => ?_, by simp, fun _ _ e => e, fun _ _ e => .inl e⟩
    simp at e
  | cons line lines ih =>
    obtain ⟨labels', d, h⟩ := Fallible.bind_eq_ok.mp h
    obtain ⟨rest, r, h⟩ := Fallible.bind_eq_ok.mp h
    cases h
    obtain ⟨old, new, fresh⟩ := defineLabels_ok d
    have res := ih r
    refine ⟨?_, fun before l after e => ?_, ?_, fun l a e => res.kept l a (old l a e), ?_⟩
    · simp only [List.map_cons, res.contents]
      rfl
    · cases before with
      | nil =>
        simp only [List.nil_append, List.cons.injEq] at e
        rw [← e.1]
        simp [LineDto.with_address]
      | cons first before =>
        simp only [List.cons_append, List.cons.injEq] at e
        rw [res.addresses before l after e.2, ← e.1, sizes_cons, size_with_address]
        push_cast
        omega
    · intro l mem name named
      cases mem with
      | head => exact res.kept _ _ (new name named)
      | tail _ mem => exact res.defined l mem name named
    · intro l a e
      rcases res.only l a e with e | ⟨line', mem, named⟩
      · rcases fresh l a e with e | named
        · exact .inl e
        · exact .inr ⟨_, List.mem_cons_self .., named⟩
      · exact .inr ⟨line', List.mem_cons_of_mem _ mem, named⟩

/-! ## The emitter -/

section Emitter

variable [UnicodeData] {labels : Labels} {line : LineDto}

/-- A line emits as many instructions as it was sized at. -/
lemma emitLine_size {program : List InstructionDto} (h : emitLine line labels = .ok program) :
    program.length = size line := by
  rcases emitLine_cases h with ⟨none, rfl⟩ | ⟨set, h⟩ | ⟨mov, h⟩ |
    ⟨mnemonic, _, instr, some, notSet, notMov, -, -, -, rfl⟩
  · simp [size, none]
  · obtain ⟨_, _, _, _, -, -, -, rfl⟩ := emitSet_ok h
    simp [size, set, PSEUDO_OP_SIZES]
  · obtain ⟨_, _, _, _, -, -, -, rfl⟩ := emitMov_ok h
    have ne : (MOV_MNEMONIC == SET_MNEMONIC) = false := by
      simp [MOV_MNEMONIC, SET_MNEMONIC]
    simp [size, mov, PSEUDO_OP_SIZES, List.lookup_cons, ne]
  · have ne : (mnemonic == SET_MNEMONIC) = false := by simpa using notSet
    have ne' : (mnemonic == MOV_MNEMONIC) = false := by simpa using notMov
    simp [size, some, PSEUDO_OP_SIZES, List.lookup_cons, ne, ne']

/-- Some lines emit as many instructions as they were sized at. -/
lemma emitLines_size {lines : List LineDto} {program : List InstructionDto}
    (h : emitLines labels lines = .ok program) : program.length = sizes lines := by
  induction lines generalizing program with
  | nil =>
    cases h
    rfl
  | cons line lines ih =>
    obtain ⟨head, rest, h₁, h₂, rfl⟩ := emitLines_cons h
    rw [List.length_append, emitLine_size h₁, ih h₂, sizes_cons]

/-- The lines before a line, the line, and the lines after it are emitted one after another. -/
lemma emitLines_append {before after : List LineDto} {program : List InstructionDto}
    (h : emitLines labels (before ++ after) = .ok program) :
    ∃ pre post, emitLines labels before = .ok pre ∧ emitLines labels after = .ok post ∧
      program = pre ++ post := by
  induction before generalizing program with
  | nil => exact ⟨[], program, rfl, h, rfl⟩
  | cons line before ih =>
    obtain ⟨head, rest, h₁, h₂, rfl⟩ := emitLines_cons h
    obtain ⟨pre, post, e, e', rfl⟩ := ih h₂
    refine ⟨head ++ pre, post, ?_, e', by rw [List.append_assoc]⟩
    simp only [emitLines, h₁, e]
    rfl

end Emitter

/-! ## Branches and jumps to labels -/

/-- When a branch is taken. -/
def Taken (opcode : Opcode) (tested : ℤ) : Prop :=
  (opcode = .JZ ∧ tested = 0) ∨ (opcode = .JS ∧ tested < 0)

/-- Every mnemonic names its opcode. -/
lemma lookup_value (opcode : Opcode) : MNEMONICS.lookup opcode.value = some opcode := by
  cases opcode <;> decide +kernel

/-- A mnemonic in the table is the name of its opcode. -/
lemma lookup_mnemonic {mnemonic : PyStr} {opcode : Opcode}
    (h : MNEMONICS.lookup mnemonic = some opcode) : mnemonic = opcode.value := by
  obtain ⟨before, after, e, -⟩ := List.lookup_eq_some_iff.mp h
  have mem : (mnemonic, opcode) ∈ MNEMONICS := by simp [e]
  obtain ⟨opcode', -, same⟩ := List.mem_map.mp mem
  cases same
  rfl

/-- No opcode is named like a pseudo-op. -/
lemma value_ne_pseudo (opcode : Opcode) :
    opcode.value ≠ SET_MNEMONIC ∧ opcode.value ≠ MOV_MNEMONIC := by
  cases opcode <;> simp [Opcode.value, SET_MNEMONIC, MOV_MNEMONIC]

/-- What a line of an opcode emits. -/
lemma emitLine_opcode [UnicodeData] {labels : Labels} {line : LineDto} {opcode : Opcode}
    {instr : InstructionDto} (named : line.mnemonic = some opcode.value)
    (len : line.operands.length = (OPERAND_SPECS opcode).length)
    (fill : fillOperands labels line { opcode := opcode } ((OPERAND_SPECS opcode).zip line.operands) =
      .ok instr) : emitLine line labels = .ok [instr] := by
  obtain ⟨notSet, notMov⟩ := value_ne_pseudo opcode
  have len' : ¬line.operands.length ≠ (OPERAND_SPECS opcode).length := not_not.mpr len
  unfold emitLine
  simp only [named, if_neg notSet, if_neg notMov, lookup_value, if_neg len']
  exact Fallible.bind_eq_ok.mpr ⟨instr, fill, rfl⟩

/-- What a `SET` line emits is decided by `emitSet`. -/
lemma emitLine_of_set [UnicodeData] {labels : Labels} {line : LineDto}
    (set : line.mnemonic = some SET_MNEMONIC) : emitLine line labels = emitSet line labels := by
  rw [emitLine, set]
  exact if_pos rfl

/-- What a `MOV` line emits is decided by `emitMov`. -/
lemma emitLine_of_mov [UnicodeData] {labels : Labels} {line : LineDto}
    (mov : line.mnemonic = some MOV_MNEMONIC) : emitLine line labels = emitMov line := by
  have ne : MOV_MNEMONIC ≠ SET_MNEMONIC := by simp [MOV_MNEMONIC, SET_MNEMONIC]
  rw [emitLine, mov]
  exact (if_neg ne).trans (if_pos rfl)

/-- A register operand keeps its name. -/
lemma resolveRegister_ok [UnicodeData] {line : LineDto} {token name : PyStr}
    (h : resolveRegister token line = .ok name) : name = token := by
  unfold resolveRegister at h
  split at h <;> cases h
  rfl

/-- What a branch to a label emits: the distance from the next instruction. -/
lemma emitLine_branch [UnicodeData] {labels : Labels} {line : LineDto} {opcode : Opcode}
    {reg l : PyStr} {target : ℤ} {program : List InstructionDto}
    (branch : opcode = .JZ ∨ opcode = .JS) (mnemonic : line.mnemonic = some opcode.value)
    (operands : line.operands = [reg, l]) (number : int0 l = none)
    (found : labels.lookup l = some target) (h : emitLine line labels = .ok program) :
    program = [{ opcode := opcode, a := some reg, offset := some (target - (line.address + 1)) }] := by
  have offset : resolveOffset l labels line = .ok (target - (line.address + 1)) := by
    simp only [resolveOffset, number, found]
  have other := value_ne_pseudo opcode
  rcases emitLine_cases h with ⟨none, -⟩ | ⟨set, -⟩ | ⟨mov, -⟩ |
    ⟨_, opcode', instr, some, -, -, look, -, fill, rfl⟩
  · rw [mnemonic] at none
    cases none
  · rw [mnemonic] at set
    exact absurd (Option.some.inj set) other.1
  · rw [mnemonic] at mov
    exact absurd (Option.some.inj mov) other.2
  · cases mnemonic.symm.trans some
    cases (lookup_value opcode).symm.trans look
    have specs : OPERAND_SPECS opcode = [⟨.A, .REGISTER⟩, ⟨.OFFSET, .OFFSET⟩] := by
      rcases branch with rfl | rfl <;> rfl
    rw [specs, operands] at fill
    simp only [List.zip_cons_cons, List.zip_nil_left, fillOperands, fillOperand, offset] at fill
    obtain ⟨mid, filled, fill⟩ := Fallible.bind_eq_ok.mp fill
    obtain ⟨name, r, filled⟩ := Fallible.bind_eq_ok.mp filled
    cases filled
    cases fill
    rw [resolveRegister_ok r]

/-- What a `SET` of a label emits. -/
lemma emitLine_set [UnicodeData] {labels : Labels} {line : LineDto} {reg l : PyStr} {target : ℤ}
    {program : List InstructionDto} (mnemonic : line.mnemonic = some SET_MNEMONIC)
    (operands : line.operands = [reg, l]) (number : int0 l = none)
    (found : labels.lookup l = some target) (h : emitLine line labels = .ok program) :
    program = [.SUB reg (.reg reg), .ADD reg (.imm target)] := by
  obtain ⟨reg', const, register, value, ops, r, c, rfl⟩ := emitSet_ok (emitLine_of_set mnemonic ▸ h)
  cases operands.symm.trans ops
  simp only [resolveConstant, number, found] at c
  cases c
  rw [resolveRegister_ok r]

/-- A taken branch moves `pc` by its offset. -/
lemma execute_taken {s : EmulatorService} {opcode : Opcode} {reg : PyStr} {o : ℤ}
    (taken : Taken opcode (s.registers reg)) :
    execute { opcode := opcode, a := some reg, offset := some o } s =
      .ok () { s with pc := s.pc + o } := by
  rcases taken with ⟨rfl, zero⟩ | ⟨rfl, neg⟩
  · have test : (s.registers reg == 0) = true := by simpa using zero
    have run : execute { opcode := .JZ, a := some reg, offset := some o } s =
        (if s.registers reg == 0 then branch o else pure ()) s := rfl
    rw [run, if_pos test]
    rfl
  · have test : decide (s.registers reg < 0) = true := by simpa using neg
    have run : execute { opcode := .JS, a := some reg, offset := some o } s =
        (if decide (s.registers reg < 0) then branch o else pure ()) s := rfl
    rw [run, if_pos test]
    rfl

/-- Loading a constant into a register and jumping there, in three steps. -/
lemma set_jmp_run {s : EmulatorService} {k : ℕ} {reg : PyStr} {target : ℤ} (pc : s.pc = k)
    (h₀ : s.program[k]? = some (.SUB reg (.reg reg)))
    (h₁ : s.program[k + 1]? = some (.ADD reg (.imm target)))
    (h₂ : s.program[k + 2]? = some (.JMP reg)) :
    ∃ s₁ s₂ s₃, step s = .ok () s₁ ∧ step s₁ = .ok () s₂ ∧ step s₂ = .ok () s₃ ∧
      s₃.pc = target := by
  let s₁ : EmulatorService := { s with
    registers := Function.update s.registers reg (s.registers reg - s.registers reg),
    pc := (k : ℤ) + 1 }
  let s₂ : EmulatorService := { s₁ with
    registers := Function.update s₁.registers reg (s₁.registers reg + target),
    pc := ((k + 1 : ℕ) : ℤ) + 1 }
  let s₃ : EmulatorService := { s₂ with pc := s₂.registers reg }
  have e₀ : step s = .ok () s₁ := step_at pc h₀
  have e₁ : step s₁ = .ok () s₂ := step_at (s := s₁) (k := k + 1) (by simp [s₁]) h₁
  have e₂ : step s₂ = .ok () s₃ :=
    step_at (s := s₂) (k := k + 2) (by simp only [s₂]; omega) h₂
  refine ⟨s₁, s₂, s₃, e₀, e₁, e₂, ?_⟩
  simp [s₃, s₂, s₁]

/-- Where the instructions of a line lie in the program. -/
lemma emitted_at [UnicodeData] {lines before after : List LineDto} {line : LineDto}
    {resolved : ResolvedProgramDto} {program : List InstructionDto}
    (res : resolve lines = .ok resolved)
    (emitted : emitLines resolved.labels resolved.lines = .ok program)
    (split : resolved.lines = before ++ line :: after) :
    ∃ pre here post, emitLines resolved.labels before = .ok pre ∧
      emitLine line resolved.labels = .ok here ∧ emitLines resolved.labels after = .ok post ∧
      program = pre ++ here ++ post ∧ line.address = pre.length ∧
      ∀ i (lt : i < here.length), program[pre.length + i]? = some here[i] := by
  rw [split] at emitted
  obtain ⟨pre, rest, e₁, e₂, rfl⟩ := emitLines_append emitted
  obtain ⟨here, post, e₃, e₄, rfl⟩ := emitLines_cons e₂
  refine ⟨pre, here, post, e₁, e₃, e₄, (List.append_assoc ..).symm, ?_, fun i lt => ?_⟩
  · rw [(resolveLoop_ok res).addresses before line after split, emitLines_size e₁]
    omega
  · rw [List.getElem?_append_right (by omega), Nat.add_sub_cancel_left,
      List.getElem?_append_left lt, List.getElem?_eq_getElem lt]

/-- Every entry of the label table is a label of a line, at the line's address. -/
lemma label_defined {lines : List LineDto} {resolved : ResolvedProgramDto}
    (res : resolve lines = .ok resolved) {l : PyStr} {target : ℤ}
    (found : resolved.labels.lookup l = some target) :
    ∃ line ∈ resolved.lines, l ∈ line.labels ∧ line.address = target := by
  have ok := resolveLoop_ok res
  rcases ok.only l target found with none | ⟨line, mem, named⟩
  · cases none
  · exact ⟨line, mem, named, Option.some.inj ((ok.defined line mem l named).symm.trans found)⟩

/-- No label of the table reads as an integer. -/
lemma label_not_int [UnicodeData] {source : PyStr} {lines : List LineDto}
    {resolved : ResolvedProgramDto} (parsed : parse source = .ok lines)
    (res : resolve lines = .ok resolved) {l : PyStr} {target : ℤ}
    (found : resolved.labels.lookup l = some target) : int0 l = none := by
  obtain ⟨line, mem, named, -⟩ := label_defined res found
  -- The resolver keeps the labels that the parser read.
  have read : line.with_address 0 ∈ lines.map (·.with_address 0) := by
    rw [← (resolveLoop_ok res).contents]
    exact List.mem_map_of_mem mem
  obtain ⟨line', mem', same⟩ := List.mem_map.mp read
  have named' : l ∈ line'.labels := by
    have e := congrArg LineDto.labels same
    simp only [LineDto.with_address] at e
    exact e ▸ named
  obtain ⟨c, cs, rfl, start⟩ := parseLines_start parsed line' mem' l named'
  exact start.int0 cs

/-- What a line contributes to the program, and what its branches and jumps do. -/
structure Placed [UnicodeData] (assembly : AssemblyDto) (before : List LineDto) (line : LineDto)
    (after : List LineDto) : Prop where
  /-- The address of the line is the number of instructions that the lines before it emitted, and
      the line emits as many instructions as it was sized at. -/
  position : ∃ pre here post, emitLines assembly.labels before = .ok pre ∧
    emitLine line assembly.labels = .ok here ∧ emitLines assembly.labels after = .ok post ∧
    assembly.program = pre ++ here ++ post ∧ here.length = size line ∧
    line.address = pre.length ∧ ∀ l ∈ line.labels, assembly.labels.lookup l = some (pre.length : ℤ)
  /-- Taking a branch to a label arrives at the label. -/
  branches : ∀ opcode reg l target, opcode = .JZ ∨ opcode = .JS →
    line.mnemonic = some opcode.value → line.operands = [reg, l] →
    assembly.labels.lookup l = some target →
    ∀ s : EmulatorService, s.program = assembly.program → s.pc = line.address →
      Taken opcode (s.registers reg) → step s = .ok () { s with pc := target }
  /-- Setting a register to a label and jumping through it arrives at the label. -/
  jumps : ∀ reg l target, line.mnemonic = some SET_MNEMONIC → line.operands = [reg, l] →
    assembly.labels.lookup l = some target →
    ∀ s : EmulatorService, s.program = assembly.program → s.pc = line.address →
      assembly.program[line.address.toNat + 2]? = some (.JMP reg) →
      ∃ s₁ s₂ s₃, step s = .ok () s₁ ∧ step s₁ = .ok () s₂ ∧ step s₂ = .ok () s₃ ∧ s₃.pc = target

/-- The two passes agree on every text that assembles: the program is as long as the resolver sized
    the lines, every line lies at the address that the resolver recorded, every label of the table
    belongs to a line and is that line's address, and branches and jumps to a label arrive there. -/
theorem two_passes_agree [UnicodeData] {source : PyStr} {assembly : AssemblyDto}
    (h : assemble source = .ok assembly) :
    ∃ lines resolved, parse source = .ok lines ∧ resolve lines = .ok resolved ∧
      assembly.labels = resolved.labels ∧
      resolved.lines.map (·.with_address 0) = lines.map (·.with_address 0) ∧
      assembly.program.length = sizes resolved.lines ∧
      (∀ l target, assembly.labels.lookup l = some target →
        ∃ line ∈ resolved.lines, l ∈ line.labels ∧ line.address = target) ∧
      ∀ before line after, resolved.lines = before ++ line :: after →
        Placed assembly before line after := by
  obtain ⟨lines, resolved, parsed, res, emitted, labels⟩ := assemble_ok h
  have ok := resolveLoop_ok res
  have number : ∀ l target, assembly.labels.lookup l = some target → int0 l = none := by
    intro l target found
    exact label_not_int parsed res (labels ▸ found)
  refine ⟨lines, resolved, parsed, res, labels, ok.contents, emitLines_size emitted, ?_, ?_⟩
  · intro l target found
    exact label_defined res (labels ▸ found)
  intro before line after split
  obtain ⟨pre, here, post, e₁, e₃, e₄, program, address, instr⟩ := emitted_at res emitted split
  rw [← labels] at e₁ e₃ e₄
  constructor
  · refine ⟨pre, here, post, e₁, e₃, e₄, program, emitLine_size e₃, address, fun l named => ?_⟩
    rw [labels, ok.defined line (split ▸ List.mem_append_right _ (List.mem_cons_self ..)) l named,
      address]
  · intro opcode reg l target branch mnemonic operands found s loaded pc taken
    have emits := emitLine_branch branch mnemonic operands (number l target found) found e₃
    have at_pc : s.program[pre.length]? =
        some { opcode := opcode, a := some reg, offset := some (target - (line.address + 1)) } := by
      have e := instr 0 (by simp [emits])
      simp only [emits, List.getElem_cons_zero] at e
      rw [loaded]
      exact e
    have run := step_at (pc.trans address) at_pc
    rw [execute_taken (s := { s with pc := (pre.length : ℤ) + 1 }) taken] at run
    rw [run, address]
    simp
  · intro reg l target mnemonic operands found s loaded pc jmp
    have emits := emitLine_set mnemonic operands (number l target found) found e₃
    rw [address, Int.toNat_natCast, ← loaded] at jmp
    have first := instr 0 (by simp [emits])
    have second := instr 1 (by simp [emits])
    simp only [emits, ← loaded] at first second
    exact set_jmp_run (pc.trans address) first second jmp

/-- A loop: a branch forward over a jump back. -/
theorem two_passes_agree_loop :
    ∃ lines resolved, @parse .ascii "A: JZ X, B
SET R, A
JMP R
B: HALT" = .ok lines ∧ resolve lines = .ok resolved ∧
      (5 : ℕ) = sizes resolved.lines := by
  obtain ⟨lines, resolved, parsed, res, -, -, len, -⟩ :=
    @two_passes_agree .ascii "A: JZ X, B
SET R, A
JMP R
B: HALT" ⟨[.JZ "X" 3, .SUB "R" (.reg "R"), .ADD "R" (.imm 0), .JMP "R", .HALT],
      [("A", 0), ("B", 4)]⟩ (by decide +kernel)
  exact ⟨lines, resolved, parsed, res, len⟩

end MinCpuForth.Assembler
