import MinCpuForth.Assembler.Printing
import MinCpuForth.Python.Numeral

/-!
# Printed programs

Every list of instructions can be written as text, one instruction a line, and is what the assembler
makes of the text. White space, comments, lines without an instruction and labels that no register
is named after do not matter.
-/

namespace MinCpuForth.Assembler
open Python Domain Lib

/-- A second operand as text. -/
def operandText : Operand → PyStr
  | .reg name => name
  | .imm value => strInt value

/-- The contents of a field as text. -/
def fieldText (instr : InstructionDto) : InstructionField → PyStr
  | .A => instr.a.getD []
  | .B => (instr.b.map operandText).getD []
  | .OFFSET => (instr.offset.map strInt).getD []

/-- The operands of an instruction, in the order of its signature. -/
def operandTexts (instr : InstructionDto) : List PyStr :=
  (OPERAND_SPECS instr.opcode).map fun spec => fieldText instr spec.field

/-- The registers of an instruction. -/
def registersOf (instr : InstructionDto) : List PyStr :=
  instr.a.toList ++ match instr.b with
    | some (.reg name) => [name]
    | _ => []

/-- The integers of an instruction. -/
def integersOf (instr : InstructionDto) : List ℤ :=
  (match instr.b with
    | some (.imm value) => [value]
    | _ => []) ++ instr.offset.toList

/-- An instruction with the operands of its opcode that can be written in ASCII: its registers are
    identifiers, and its integers have no more digits than are read. -/
structure Printable (instr : InstructionDto) : Prop where
  wellFormed : WellFormed instr
  registers : ∀ name ∈ registersOf instr, asciiIdentifier name = true
  integers : ∀ n ∈ integersOf instr, (strNat n.natAbs).length ≤ maxStrDigits

/-- A decimal integer can be an operand. -/
lemma strInt_operand (n : ℤ) : OperandText (strInt n) := by
  have chars : ∀ c ∈ strInt n, isSpace c = false ∧ c ≠ 44 ∧ c ≠ 59 := by
    intro c mem
    rcases strInt_chars n c mem with digit | rfl
    · have plain : (isAsciiLetter c || isAsciiDigit c || isUnderscore c) = true := by
        rw [digit, Bool.or_true, Bool.true_or]
      exact (identifierChar_facts plain).2
    · decide
  exact ⟨Solid.trimmed fun c mem => (chars c mem).1, strInt_ne_nil n,
    fun mem => (chars 44 mem).2.1 rfl, fun mem => (chars 59 mem).2.2 rfl⟩

lemma strInt_single (n : ℤ) : SingleLine (strInt n) := by
  intro c mem
  rcases strInt_chars n c mem with digit | rfl
  · simp only [isAsciiDigit, Bool.and_eq_true, decide_eq_true_eq] at digit
    simp only [isLineBreak, Bool.or_eq_false_iff, Bool.and_eq_false_iff, decide_eq_false_iff_not]
    omega
  · decide

/-- An operand slot that an instruction fills. -/
inductive Filled (instr : InstructionDto) : OperandSpec → Prop where
  | register {name} : instr.a = some name → Filled instr ⟨.A, .REGISTER⟩
  | address {name} : instr.b = some (.reg name) → Filled instr ⟨.B, .REGISTER⟩
  | second {o} : instr.b = some o → Filled instr ⟨.B, .REGISTER_OR_IMMEDIATE⟩
  | offset {n} : instr.offset = some n → Filled instr ⟨.OFFSET, .OFFSET⟩

/-- Takes over one field of an instruction. -/
def copyField (instr target : InstructionDto) : InstructionField → InstructionDto
  | .A => { target with a := instr.a }
  | .B => { target with b := instr.b }
  | .OFFSET => { target with offset := instr.offset }

/-- An instruction with the operands of its opcode fills the slots of its signature, and no other
    field. -/
lemma WellFormed.filled {instr : InstructionDto} (h : WellFormed instr) :
    (∀ spec ∈ OPERAND_SPECS instr.opcode, Filled instr spec) ∧
      (OPERAND_SPECS instr.opcode).foldl (fun target spec => copyField instr target spec.field)
        { opcode := instr.opcode } = instr := by
  cases h with
  | load dst addr | store dst addr =>
    exact ⟨List.forall_mem_cons.mpr ⟨.register rfl, List.forall_mem_singleton.mpr (.address rfl)⟩,
      rfl⟩
  | add dst src | sub dst src | and dst src | or dst src =>
    exact ⟨List.forall_mem_cons.mpr ⟨.register rfl, List.forall_mem_singleton.mpr (.second rfl)⟩,
      rfl⟩
  | jz tested offset | js tested offset =>
    exact ⟨List.forall_mem_cons.mpr ⟨.register rfl, List.forall_mem_singleton.mpr (.offset rfl)⟩,
      rfl⟩
  | halt => exact ⟨List.forall_mem_nil _, rfl⟩
  | _ => exact ⟨List.forall_mem_singleton.mpr (.register rfl), rfl⟩

section Instructions

variable {instr : InstructionDto} {spec : OperandSpec}

lemma mem_registersOf_a {name : PyStr} (h : instr.a = some name) : name ∈ registersOf instr := by
  simp [registersOf, h]

lemma mem_registersOf_b {name : PyStr} (h : instr.b = some (.reg name)) :
    name ∈ registersOf instr := by
  simp [registersOf, h]

lemma mem_integersOf_b {n : ℤ} (h : instr.b = some (.imm n)) : n ∈ integersOf instr := by
  simp [integersOf, h]

lemma mem_integersOf_offset {n : ℤ} (h : instr.offset = some n) : n ∈ integersOf instr := by
  simp [integersOf, h]

/-- The operands of a printable instruction can be operands. -/
lemma Printable.operandText (p : Printable instr) (filled : Filled instr spec) :
    OperandText (fieldText instr spec.field) := by
  cases filled with
  | @register name a =>
    rw [fieldText, a]
    exact asciiIdentifier_operand (p.registers name (mem_registersOf_a a))
  | @address name b =>
    rw [fieldText, b]
    exact asciiIdentifier_operand (p.registers name (mem_registersOf_b b))
  | @second o b =>
    rw [fieldText, b]
    cases o with
    | reg name => exact asciiIdentifier_operand (p.registers name (mem_registersOf_b b))
    | imm value => exact strInt_operand value
  | @offset n e =>
    rw [fieldText, e]
    exact strInt_operand n

variable [UnicodeData] {table : Labels} {line : LineDto}

/-- An ASCII identifier is read as a register. -/
lemma resolveRegister_identifier {name : PyStr} (h : asciiIdentifier name = true) :
    resolveRegister name line = .ok name := by
  have chars := asciiIdentifier_chars h
  obtain ⟨c, cs, rfl, start, -⟩ := asciiIdentifier_label h
  have number : int0 (c :: cs) = none := start.int0 cs
  have identifier : isidentifier (c :: cs) = true := by
    refine Bool.and_eq_true_iff.mpr ⟨?_, List.all_eq_true.mpr fun d mem => ?_⟩
    · rw [isIdentifierStart, if_pos start.facts.1, Bool.or_comm]
      exact start
    · have char := chars d (List.mem_cons_of_mem _ mem)
      rw [isIdentifierContinue, if_pos (identifierChar_facts char).1]
      exact char
  rw [resolveRegister, number, identifier]
  rfl

/-- An integer that is not too long reads back. -/
lemma Printable.integer (p : Printable instr) {n : ℤ} (mem : n ∈ integersOf instr) :
    int0 (strInt n) = some n := by
  rw [int0_strInt, if_neg (by have short := p.integers n mem; omega)]

/-- The operand of a slot is read back into its field. -/
lemma fillOperand_copies (p : Printable instr)
    (apart : ∀ name ∈ registersOf instr, name ∉ table.map Prod.fst) (filled : Filled instr spec)
    (target : InstructionDto) :
    fillOperand table line target spec (fieldText instr spec.field) =
      .ok (copyField instr target spec.field) := by
  cases filled with
  | @register name a =>
    have r := @resolveRegister_identifier _ line name (p.registers name (mem_registersOf_a a))
    simp only [fillOperand, fieldText, copyField, a, Option.getD_some, r, bind, Except.bind]
  | @address name b =>
    have r := @resolveRegister_identifier _ line name (p.registers name (mem_registersOf_b b))
    simp only [fillOperand, fieldText, copyField, b, Option.map_some, Option.getD_some, operandText,
      r, bind, Except.bind]
  | @second o b =>
    have read : resolveRegOrImmediate (operandText o) table line = .ok o := by
      cases o with
      | reg name =>
        have mem := mem_registersOf_b b
        have ascii := p.registers name mem
        have number : int0 name = none := by
          obtain ⟨c, cs, rfl, start, -⟩ := asciiIdentifier_label ascii
          exact start.int0 cs
        have absent : table.lookup name = none := lookup_absent (apart name mem)
        rw [operandText, resolveRegOrImmediate, number, absent, resolveRegister_identifier ascii]
        rfl
      | imm value => rw [operandText, resolveRegOrImmediate, p.integer (mem_integersOf_b b)]
    simp only [fillOperand, fieldText, copyField, b, Option.map_some, Option.getD_some, read, bind,
      Except.bind]
  | @offset n e =>
    have read : resolveOffset (strInt n) table line = .ok n := by
      rw [resolveOffset, p.integer (mem_integersOf_offset e)]
    simp only [fillOperand, fieldText, copyField, e, Option.map_some, Option.getD_some, read, bind,
      Except.bind]

lemma fillOperands_copies (p : Printable instr)
    (apart : ∀ name ∈ registersOf instr, name ∉ table.map Prod.fst) {specs : List OperandSpec}
    (filled : ∀ spec ∈ specs, Filled instr spec) (target : InstructionDto) :
    fillOperands table line target
        (specs.zip (specs.map fun spec => fieldText instr spec.field)) =
      .ok (specs.foldl (fun target spec => copyField instr target spec.field) target) := by
  induction specs generalizing target with
  | nil => rfl
  | cons spec specs ih =>
    obtain ⟨first, rest⟩ := List.forall_mem_cons.mp filled
    rw [List.map_cons, List.zip_cons_cons, fillOperands, fillOperand_copies p apart first]
    exact ih rest _

/-- The line of a printed instruction emits the instruction. -/
lemma emitLine_printed (p : Printable instr)
    (apart : ∀ name ∈ registersOf instr, name ∉ table.map Prod.fst)
    (named : line.mnemonic = some instr.opcode.value) (operands : line.operands = operandTexts instr) :
    emitLine line table = .ok [instr] := by
  obtain ⟨filled, whole⟩ := p.wellFormed.filled
  refine emitLine_opcode named ?_ ?_
  · rw [operands, operandTexts, List.length_map]
  · rw [operands, operandTexts, fillOperands_copies p apart filled, whole]

end Instructions

section Lines

variable [UnicodeData]

/-- A line of a printed program: label definitions with white space before each, perhaps an
    instruction, white space around it, and perhaps a comment. -/
structure PrintedLine where
  defs : List (PyStr × PyStr)
  lead : PyStr
  instruction : Option InstructionDto
  trail : PyStr
  comment : Option PyStr
  defs_ok : ∀ d ∈ defs, Blank d.1 ∧ LabelName d.2
  lead_ok : Blank lead
  printable : ∀ instr ∈ instruction, Printable instr
  trail_ok : Spacing trail

/-- The text of a printed line. -/
def PrintedLine.text (l : PrintedLine) : PyStr :=
  match l.instruction with
  | some instr =>
    lineText l.defs l.lead instr.opcode.value (operandTexts instr) l.trail l.comment
  | none => defsText l.defs ++ (l.lead ++ l.trail) ++ commentText l.comment

/-- The labels that a printed line defines. -/
def PrintedLine.labels (l : PrintedLine) : List PyStr := l.defs.map Prod.snd

/-- The registers on a printed line. -/
def PrintedLine.registers (l : PrintedLine) : List PyStr := l.instruction.toList.flatMap registersOf

/-- Where the labels of printed lines lie: each counts the instructions before it. -/
def placed (address : ℤ) : List PrintedLine → Labels
  | [] => []
  | l :: lines =>
    l.labels.map (·, address) ++ placed (address + l.instruction.toList.length) lines

/-- White space begins no label definition. -/
lemma no_labelDef_blank {body name after : PyStr} (blank : Blank body) :
    ¬LabelDef body name after := by
  rintro ⟨gap, -, -, rfl⟩
  exact blank.not_mem (by decide) (by simp : (58 : PyChar) ∈ gap ++ (name ++ 58 :: after))

/-- A printed line is read back, and emits its instruction if it has one. -/
lemma PrintedLine.emits (l : PrintedLine) {table : Labels} (address : ℤ)
    (apart : ∀ name ∈ l.registers, name ∉ table.map Prod.fst) :
    ∃ line, parseLine 0 l.text = .ok line ∧ line.labels = l.labels ∧
      emitLine (line.with_address address) table = .ok l.instruction.toList := by
  obtain ⟨defs, lead, instruction, trail, comment, defs_ok, lead_ok, printable, trail_ok⟩ := l
  cases instruction with
  | none =>
    have blank := lead_ok.append trail_ok.blank
    have clean : 59 ∉ defsText defs ++ (lead ++ trail) := by
      rw [List.mem_append, not_or]
      exact ⟨defsText_semicolon defs_ok, blank.not_mem (by decide)⟩
    have reads : LineText (defsText defs ++ (lead ++ trail) ++ commentText comment)
        (defs.map Prod.snd) none :=
      ⟨_, _, code_commentText comment clean,
        labelDefs_text defs_ok fun _ _ => no_labelDef_blank blank, .blank blank⟩
    exact ⟨_, parseLine_labels reads, rfl, rfl⟩
  | some instr =>
    have p := printable instr rfl
    have ops : ∀ op ∈ operandTexts instr, OperandText op := by
      intro op mem
      obtain ⟨spec, spec_mem, rfl⟩ := List.mem_map.mp mem
      exact p.operandText (p.wellFormed.filled.1 spec spec_mem)
    have apart' : ∀ name ∈ registersOf instr, name ∉ table.map Prod.fst := fun name mem =>
      apart name (by simpa [PrintedLine.registers] using mem)
    exact ⟨_, parseLine_lineText_ok comment defs_ok lead_ok instr.opcode ops trail_ok, rfl,
      emitLine_printed p apart' rfl rfl⟩

lemma placed_names (address : ℤ) (lines : List PrintedLine) :
    (placed address lines).map Prod.fst = lines.flatMap PrintedLine.labels := by
  induction lines generalizing address with
  | nil => rfl
  | cons l lines ih =>
    rw [placed, List.map_append, ih, List.map_map, List.flatMap_cons]
    exact congrArg (· ++ _) (List.map_id _)

/-- Printed lines assemble to their instructions. -/
lemma assembleLines_printed {table : Labels} (address : ℤ) {lines : List PrintedLine}
    (apart : ∀ l ∈ lines, ∀ name ∈ l.registers, name ∉ table.map Prod.fst) :
    assembleLines table address (lines.map PrintedLine.text) =
      .ok (lines.filterMap PrintedLine.instruction, placed address lines) := by
  induction lines generalizing address with
  | nil => rfl
  | cons l lines ih =>
    obtain ⟨first, others⟩ := List.forall_mem_cons.mp apart
    obtain ⟨line, p, labels, e⟩ := l.emits address first
    have rest := ih (address + l.instruction.toList.length) others
    have head : (l :: lines).filterMap PrintedLine.instruction =
        l.instruction.toList ++ lines.filterMap PrintedLine.instruction := by
      rw [List.filterMap_cons]
      cases l.instruction <;> rfl
    rw [head, placed, ← labels]
    simp only [List.map_cons, assembleLines, p, e, rest, bind, Except.bind]

/-- A text whose lines are printed from a program assembles to the program, however it is laid out,
    if its labels are distinct and no register has the name of one. -/
theorem printed_program_assembles {source : PyStr} {program : List InstructionDto}
    (lines : List PrintedLine) (split : splitlines source = lines.map PrintedLine.text)
    (instructions : lines.filterMap PrintedLine.instruction = program)
    (distinct : (lines.flatMap PrintedLine.labels).Nodup)
    (apart : ∀ l ∈ lines, ∀ name ∈ l.registers, name ∉ lines.flatMap PrintedLine.labels) :
    assemble source = .ok ⟨program, placed 0 lines⟩ := by
  rw [← placed_names 0 lines] at distinct apart
  have ok := assembleLines_printed 0 apart
  rw [← split, instructions] at ok
  exact assemble_iff.mpr ⟨ok, distinct⟩

/-- An integer with more digits than are read is taken for a register, which it is not. -/
lemma long_integer_rejected {n : ℕ} (long : maxStrDigits < (strNat n).length) :
    assemble (unlines [lineText [] [] Opcode.ADD.value [py "X", strInt n] [] none]) =
      .error (.expectedRegister 1 (strInt n)) := by
  have ascii : asciiIdentifier (py "X") = true := by decide +kernel
  have ops : ∀ op ∈ [py "X", strInt n], OperandText op :=
    List.forall_mem_cons.mpr ⟨asciiIdentifier_operand ascii,
      List.forall_mem_singleton.mpr (strInt_operand n)⟩
  have single : SingleLine (lineText [] [] Opcode.ADD.value [py "X", strInt n] [] none) := by
    refine lineText_single (List.forall_mem_nil _) (List.forall_mem_nil _) (value_single .ADD)
      (List.forall_mem_cons.mpr ⟨?_, List.forall_mem_singleton.mpr (strInt_single n)⟩)
      (List.forall_mem_nil _) nofun
    exact (plainLine_iff.mp (by decide +kernel)).2
  have read := @parseLine_lineText_ok _ [] [] [] _ 1 none (List.forall_mem_nil _) .nil .ADD ops
    (List.forall_mem_nil _)
  have number : int0 (strInt n) = none := by rw [int0_strInt, Int.natAbs_natCast, if_pos long]
  have identifier : isidentifier (strInt n) = false := by
    have digits := strNat_digits n
    change isidentifier (strNat n) = false
    generalize strNat n = s at digits
    cases s with
    | nil => rfl
    | cons c cs =>
      have digit := digits c List.mem_cons_self
      simp only [isAsciiDigit, Bool.and_eq_true, decide_eq_true_eq] at digit
      have start : isIdentifierStart c = false := by
        simp only [isIdentifierStart, isUnderscore, if_pos (by omega : c.val < 128), isAsciiLetter,
          Bool.or_eq_false_iff, beq_eq_false_iff_ne, Bool.and_eq_false_iff, decide_eq_false_iff_not]
        omega
      rw [isidentifier, start, Bool.false_and]
  let line : LineDto := { lineno := 1, labels := [], mnemonic := some Opcode.ADD.value
                          operands := [py "X", strInt n] }
  have first : resolveRegister (py "X") (line.with_address 0) = .ok (py "X") :=
    resolveRegister_identifier ascii
  have second : resolveRegOrImmediate (strInt n) [] (line.with_address 0) =
      .error (.expectedRegister 1 (strInt n)) := by
    rw [resolveRegOrImmediate, number]
    dsimp only [List.lookup_nil]
    rw [resolveRegister, number, identifier]
    rfl
  have fails : emitLine (line.with_address 0) [] = .error (.expectedRegister 1 (strInt n)) := by
    have other := value_ne_pseudo .ADD
    have look := lookup_value .ADD
    simp only [emitLine, LineDto.with_address, line, other.1, other.2, look, if_false,
      OPERAND_SPECS, List.length_cons, List.zip_cons_cons, fillOperands, fillOperand] at first second ⊢
    rw [first, second]
    rfl
  have lines : splitlines (unlines [lineText [] [] Opcode.ADD.value [py "X", strInt n] [] none]) =
      [lineText [] [] Opcode.ADD.value [py "X", strInt n] [] none] :=
    splitlines_unlines (List.forall_mem_singleton.mpr single)
  simp only [assemble, parse, lines, parseLines, read, resolve, resolveLoop, defineLabels, emit,
    emitLines, bind, Except.bind, List.map_nil]
  rw [fails]

end Lines

section Instances

attribute [local instance] UnicodeData.ascii

private lemma ascii_label {name : PyStr} (h : asciiIdentifier name = true) : LabelName name :=
  asciiIdentifier_label h

private lemma printable_add : Printable (.ADD "X" (.imm (-1))) :=
  ⟨.add .., List.forall_mem_singleton.mpr (by decide +kernel),
    List.forall_mem_singleton.mpr (by decide +kernel)⟩

private lemma printable_jz : Printable (.JZ "X" 2) :=
  ⟨.jz .., List.forall_mem_singleton.mpr (by decide +kernel),
    List.forall_mem_singleton.mpr (by decide +kernel)⟩

/-- Two instructions with labels, white space and comments around them. -/
def countdown : List PrintedLine :=
  [⟨[], [], none, [], some (py " count down"), nofun, .nil, nofun, nofun⟩,
    ⟨[], [], none, [], none, nofun, .nil, nofun, nofun⟩,
    ⟨[([], py "A"), ([32], py "B")], [32], some (.ADD "X" (.imm (-1))), [32], some (py " step"),
      List.forall_mem_cons.mpr ⟨⟨.nil, ascii_label (by decide +kernel)⟩,
        List.forall_mem_singleton.mpr ⟨.space, ascii_label (by decide +kernel)⟩⟩,
      .space, fun _ e => Option.some.inj e ▸ printable_add,
      List.forall_mem_singleton.mpr (by decide)⟩,
    ⟨[], [], some (.JZ "X" 2), [], none, nofun, .nil,
      fun _ e => Option.some.inj e ▸ printable_jz, nofun⟩,
    ⟨[([], py "END")], [], none, [], none,
      List.forall_mem_singleton.mpr ⟨.nil, ascii_label (by decide +kernel)⟩, .nil, nofun, nofun⟩]

/-- The text of the countdown. -/
theorem printed_program_assembles_countdown :
    assemble "; count down

A: B: ADD X, -1 ; step
JZ X, 2
END:" = .ok ⟨[.ADD "X" (.imm (-1)), .JZ "X" 2], [("A", 0), ("B", 0), ("END", 2)]⟩ :=
  printed_program_assembles countdown (by decide +kernel) rfl (by decide +kernel)
    (by decide +kernel)

/-- An integer with one digit too many. -/
theorem printed_long_integer_rejected :
    assemble (unlines [lineText [] [] Opcode.ADD.value
        [py "X", strInt (10 ^ maxStrDigits : ℕ)] [] none]) =
      .error (.expectedRegister 1 (strInt (10 ^ maxStrDigits : ℕ))) :=
  long_integer_rejected (lt_strNat_length (Nat.le_refl _))

end Instances

end MinCpuForth.Assembler
