import MinCpuForth.Assembler.Printing

/-!
# Pseudo-ops as sugar

`MOV d, s` and `SET r, c` stand for a subtraction and an addition. Written out, the second operands
of these are read by other rules than those of the pseudo-ops: a name that the text defines as a
label is taken for its index. So the two texts assemble alike just when no register of a pseudo-op
has the name of a label.
-/

namespace MinCpuForth.Assembler
open Python Domain Lib

section Texts

variable [UnicodeData]

/-- A line with its pseudo-op written out; the labels stay on the first of the two lines. -/
def desugarLine (raw : PyStr) : List PyStr :=
  match parseLine 0 raw with
  | .error _ => [raw]
  | .ok line =>
    match line.mnemonic, line.operands with
    | some mnemonic, [x, y] =>
      if mnemonic = SET_MNEMONIC ∨ mnemonic = MOV_MNEMONIC then
        [lineText (line.labels.map ([], ·)) [32] Opcode.SUB.value [x, x] [] none,
          lineText [] [32] Opcode.ADD.value [x, y] [] none]
      else [raw]
    | _, _ => [raw]

/-- A text with its pseudo-ops written out. -/
def desugar (source : PyStr) : PyStr := unlines ((splitlines source).flatMap desugarLine)

/-- The operands of a pseudo-op that are registers. -/
def registerOperands (line : LineDto) : List PyStr :=
  if line.mnemonic = some MOV_MNEMONIC then line.operands
  else if line.mnemonic = some SET_MNEMONIC then line.operands.take 1
  else []

variable {table : Labels} {line : LineDto} {raw x y : PyStr} {address : ℤ}

/-- The operands of a line that is a pseudo-op can be operands elsewhere. -/
lemma parseLine_operandText {k : ℕ} (h : parseLine k raw = .ok line) :
    ∀ op ∈ line.operands, OperandText op ∧ op ⊆ raw := by
  intro op mem
  rcases parseLine_lineText h with ⟨-, -, none⟩ | ⟨mnemonic, parts, text, -, -, operands⟩
  · rw [none] at mem
    cases mem
  · rw [operands] at mem
    obtain ⟨mem, full⟩ := List.mem_filter.mp mem
    obtain ⟨trimmed, comma, semicolon, sub⟩ := text.part mem
    refine ⟨⟨trimmed, ?_, comma, semicolon⟩, sub⟩
    rintro rfl
    cases full

/-- The labels of a line are names. -/
lemma parseLine_labelName {k : ℕ} (h : parseLine k raw = .ok line) :
    ∀ l ∈ line.labels, LabelName l ∧ l ⊆ raw := by
  intro l mem
  rcases parseLine_lineText h with ⟨text, -⟩ | ⟨mnemonic, parts, text, -⟩
  · exact text.label mem
  · exact text.label mem

/-- A register operand is no integer. -/
lemma resolveRegister_int0 {name : PyStr} (h : resolveRegister x line = .ok name) :
    int0 x = none := by
  unfold resolveRegister at h
  split at h
  · cases h
  · rename_i ok
    rw [Bool.or_eq_true, not_or] at ok
    exact Option.not_isSome_iff_eq_none.mp ok.1

/-- An addition or subtraction of what the second operand is read as. -/
lemma emitLine_arith {opcode : Opcode} {register : PyStr} {operand : Operand}
    (specs : OPERAND_SPECS opcode = [⟨.A, .REGISTER⟩, ⟨.B, .REGISTER_OR_IMMEDIATE⟩])
    (named : line.mnemonic = some opcode.value) (operands : line.operands = [x, y])
    (r : resolveRegister x line = .ok register)
    (o : resolveRegOrImmediate y table line = .ok operand) :
    emitLine line table = .ok [{ opcode := opcode, a := some register, b := some operand }] := by
  refine emitLine_opcode named (by rw [specs, operands]; rfl) ?_
  rw [specs, operands]
  simp only [List.zip_cons_cons, List.zip_nil_left, fillOperands, fillOperand, r, o, bind,
    Except.bind]

/-- A register as a second operand: itself, or the index of the label of its name. -/
def registerAs (table : Labels) (name : PyStr) : Operand :=
  match table.lookup name with
  | some index => .imm index
  | none => .reg name

lemma resolveRegOrImmediate_register {name : PyStr} (h : resolveRegister x line = .ok name) :
    resolveRegOrImmediate x table line = .ok (registerAs table name) := by
  cases resolveRegister_ok h
  rw [resolveRegOrImmediate, resolveRegister_int0 h, registerAs]
  cases table.lookup x with
  | some index => rfl
  | none => exact Fallible.bind_eq_ok.mpr ⟨x, h, rfl⟩

omit [UnicodeData] in
lemma registerAs_eq {name : PyStr} :
    registerAs table name = .reg name ↔ name ∉ table.map Prod.fst := by
  rw [← lookup_isSome_iff, registerAs]
  cases table.lookup name <;> simp

/-- A constant is read alike by an addition. -/
lemma resolveRegOrImmediate_constant {value : ℤ}
    (h : resolveConstant x table line = .ok value) :
    resolveRegOrImmediate x table line = .ok (.imm value) := by
  unfold resolveConstant at h
  unfold resolveRegOrImmediate
  cases number : int0 x with
  | some literal =>
    rw [number] at h
    cases h
    rfl
  | none =>
    rw [number] at h
    cases found : table.lookup x with
    | some index =>
      rw [found] at h
      cases h
      rfl
    | none =>
      rw [found] at h
      cases h

/-- How a second operand is read does not depend on the line. -/
lemma resolveRegOrImmediate_anywhere {operand : Operand}
    (h : resolveRegOrImmediate x table line = .ok operand) (line' : LineDto) :
    resolveRegOrImmediate x table line' = .ok operand := by
  unfold resolveRegOrImmediate at h ⊢
  split at h
  · exact h
  · split at h
    · exact h
    · obtain ⟨name, r, e⟩ := Fallible.bind_eq_ok.mp h
      exact Fallible.bind_eq_ok.mpr ⟨name, resolveRegister_anywhere r line', e⟩

/-- The two lines that a pseudo-op is written out as. -/
lemma assembleLines_pair {register : PyStr} {operand : Operand} {labels : List PyStr}
    (names : ∀ l ∈ labels, LabelName l) (hx : OperandText x) (hy : OperandText y)
    (r : resolveRegister x line = .ok register)
    (o : resolveRegOrImmediate y table line = .ok operand) :
    assembleLines table address
        [lineText (labels.map ([], ·)) [32] Opcode.SUB.value [x, x] [] none,
          lineText [] [32] Opcode.ADD.value [x, y] [] none] =
      .ok ([{ opcode := .SUB, a := register, b := some (registerAs table register) },
        { opcode := .ADD, a := some register, b := some operand }], labels.map (·, address)) := by
  have no_trail : Spacing [] := List.forall_mem_nil _
  have defs : ∀ d ∈ labels.map fun l => (([] : PyStr), l), Blank d.1 ∧ LabelName d.2 := by
    intro d mem
    obtain ⟨l, l_mem, rfl⟩ := List.mem_map.mp mem
    exact ⟨.nil, names l l_mem⟩
  have kept : (labels.map fun l => (([] : PyStr), l)).map Prod.snd = labels := by
    rw [List.map_map]
    exact List.map_id _
  have first := @parseLine_lineText_ok _ _ [32] [] [x, x] 0 none defs .space .SUB
    (List.forall_mem_cons.mpr ⟨hx, List.forall_mem_singleton.mpr hx⟩) no_trail
  have second := @parseLine_lineText_ok _ [] [32] [] [x, y] 0 none (List.forall_mem_nil _) .space
    .ADD (List.forall_mem_cons.mpr ⟨hx, List.forall_mem_singleton.mpr hy⟩) no_trail
  rw [kept] at first
  let sub : LineDto :=
    { lineno := 0, labels := labels, mnemonic := some Opcode.SUB.value, operands := [x, x] }
  let add : LineDto :=
    { lineno := 0, labels := [], mnemonic := some Opcode.ADD.value, operands := [x, y] }
  have cleared := @emitLine_arith _ table (sub.with_address address) x x .SUB register _ rfl rfl rfl
    (resolveRegister_anywhere r _)
    (resolveRegOrImmediate_register (resolveRegister_anywhere r _))
  have added := @emitLine_arith _ table (add.with_address (address + (1 : ℕ))) x y .ADD register
    operand rfl rfl rfl (resolveRegister_anywhere r _) (resolveRegOrImmediate_anywhere o _)
  simp only [assembleLines, first, second, cleared, added, bind, Except.bind, List.length_singleton,
    List.append_nil, List.map_nil, List.singleton_append, sub, add]

/-! ## Lines -/

/-- A line without a pseudo-op stays as it is. -/
lemma desugarLine_plain (p : parseLine 0 raw = .ok line) (set : line.mnemonic ≠ some SET_MNEMONIC)
    (mov : line.mnemonic ≠ some MOV_MNEMONIC) :
    desugarLine raw = [raw] ∧ registerOperands line = [] := by
  refine ⟨?_, by rw [registerOperands, if_neg mov, if_neg set]⟩
  rw [desugarLine, p]
  dsimp only
  split
  · rename_i mnemonic a b named _
    refine if_neg ?_
    rintro (rfl | rfl)
    · exact set named
    · exact mov named
  · rfl

lemma desugarLine_pseudo (p : parseLine 0 raw = .ok line) {mnemonic : PyStr}
    (named : line.mnemonic = some mnemonic) (operands : line.operands = [x, y])
    (pseudo : mnemonic = SET_MNEMONIC ∨ mnemonic = MOV_MNEMONIC) :
    desugarLine raw = [lineText (line.labels.map ([], ·)) [32] Opcode.SUB.value [x, x] [] none,
      lineText [] [32] Opcode.ADD.value [x, y] [] none] := by
  rw [desugarLine, p]
  dsimp only
  rw [named, operands]
  exact if_pos pseudo

/-- A line and what it is written out as emit as many instructions; they are the same ones if no
    register is the name of a label, and only then. -/
lemma desugarLine_assembles {here : List InstructionDto} (p : parseLine 0 raw = .ok line)
    (e : emitLine (line.with_address address) table = .ok here) :
    ∃ here', assembleLines table address (desugarLine raw) =
        .ok (here', line.labels.map (·, address)) ∧ here'.length = here.length ∧
      (here' = here ↔ ∀ token ∈ registerOperands line, token ∉ table.map Prod.fst) := by
  have names : ∀ l ∈ line.labels, LabelName l := fun l mem => (parseLine_labelName p l mem).1
  have tokens : ∀ op ∈ line.operands, OperandText op := fun op mem =>
    (parseLine_operandText p op mem).1
  have alone : line.mnemonic ≠ some SET_MNEMONIC → line.mnemonic ≠ some MOV_MNEMONIC →
      ∃ here', assembleLines table address (desugarLine raw) =
          .ok (here', line.labels.map (·, address)) ∧ here'.length = here.length ∧
        (here' = here ↔ ∀ token ∈ registerOperands line, token ∉ table.map Prod.fst) := by
    intro set mov
    obtain ⟨same, no_registers⟩ := desugarLine_plain p set mov
    refine ⟨here, ?_, rfl, ?_⟩
    · rw [same]
      simp only [assembleLines, p, e, bind, Except.bind, List.append_nil]
    · rw [no_registers]
      exact iff_of_true rfl (List.forall_mem_nil _)
  rcases emitLine_cases e with ⟨blank, -⟩ | ⟨set, h⟩ | ⟨mov, h⟩ | ⟨mnemonic, _, _, some, set, mov, -⟩
  · have blank' : line.mnemonic = none := blank
    have unnamed : ∀ mnemonic, line.mnemonic ≠ some mnemonic := by
      intro mnemonic named
      cases blank'.symm.trans named
    exact alone (unnamed _) (unnamed _)
  · obtain ⟨x, y, register, value, operands, r, c, rfl⟩ := emitSet_ok h
    have set' : line.mnemonic = some SET_MNEMONIC := set
    have operands' : line.operands = [x, y] := operands
    have hx := tokens x (operands' ▸ List.mem_cons_self)
    have hy := tokens y (operands' ▸ List.mem_cons_of_mem _ List.mem_cons_self)
    have not_mov : line.mnemonic ≠ some MOV_MNEMONIC := by
      rw [set']
      decide +kernel
    have registers : registerOperands line = [register] := by
      rw [registerOperands, if_neg not_mov, if_pos set', operands', resolveRegister_ok r]
      rfl
    have pair := @assembleLines_pair _ table _ x y address _ _ _ names hx hy r
      (resolveRegOrImmediate_constant c)
    rw [← desugarLine_pseudo p set' operands' (.inl rfl)] at pair
    refine ⟨_, pair, rfl, ?_⟩
    rw [registers, List.forall_mem_singleton, ← registerAs_eq]
    simp [InstructionDto.SUB, InstructionDto.ADD]
  · obtain ⟨x, y, dest, source, operands, r, r', rfl⟩ := emitMov_ok h
    have mov' : line.mnemonic = some MOV_MNEMONIC := mov
    have operands' : line.operands = [x, y] := operands
    have hx := tokens x (operands' ▸ List.mem_cons_self)
    have hy := tokens y (operands' ▸ List.mem_cons_of_mem _ List.mem_cons_self)
    have registers : registerOperands line = [dest, source] := by
      rw [registerOperands, if_pos mov', operands', resolveRegister_ok r, resolveRegister_ok r']
    have pair := @assembleLines_pair _ table _ x y address _ _ _ names hx hy r
      (resolveRegOrImmediate_register r')
    rw [← desugarLine_pseudo p mov' operands' (.inr rfl)] at pair
    refine ⟨_, pair, rfl, ?_⟩
    rw [registers, List.forall_mem_cons, List.forall_mem_singleton, ← registerAs_eq, ← registerAs_eq]
    simp [InstructionDto.SUB, InstructionDto.ADD]
  · refine alone ?_ ?_
    · exact fun h => set (Option.some.inj (some.symm.trans h))
    · exact fun h => mov (Option.some.inj (some.symm.trans h))

/-! ## Texts -/

/-- Texts that are written out emit as many instructions; they are the same ones if no register of
    a pseudo-op is the name of a label, and only then. -/
lemma desugar_assembles {raws : List PyStr} {program : List InstructionDto} {defs : Labels} {k : ℕ}
    {lines : List LineDto} (parsed : parseLines k raws = .ok lines)
    (h : assembleLines table address raws = .ok (program, defs)) :
    ∃ program', assembleLines table address (raws.flatMap desugarLine) = .ok (program', defs) ∧
      program'.length = program.length ∧ (program' = program ↔
        ∀ line ∈ lines, ∀ token ∈ registerOperands line, token ∉ table.map Prod.fst) := by
  induction raws generalizing address program defs k lines with
  | nil =>
    cases h
    cases parsed
    exact ⟨[], rfl, rfl, iff_of_true rfl (List.forall_mem_nil _)⟩
  | cons raw raws ih =>
    obtain ⟨line, here, rest, defs, p, e, es, rfl, rfl⟩ := assembleLines_cons h
    obtain ⟨first, p', parsed⟩ := Fallible.bind_eq_ok.mp parsed
    obtain ⟨others, ps, parsed⟩ := Fallible.bind_eq_ok.mp parsed
    cases parsed
    -- The line number is all that distinguishes the two readings of the line.
    have same := (parseLine_lineno k p).symm.trans p'
    cases same
    obtain ⟨here', first_ok, len, here_iff⟩ := desugarLine_assembles p e
    rw [← len] at es
    obtain ⟨rest', rest_ok, lens, rest_iff⟩ := ih ps es
    refine ⟨here' ++ rest', assembleLines_append first_ok rest_ok, ?_, ?_⟩
    · rw [List.length_append, List.length_append, len, lens]
    · rw [List.forall_mem_cons]
      constructor
      · intro e
        obtain ⟨front, back⟩ := List.append_inj e len
        exact ⟨here_iff.mp front, rest_iff.mp back⟩
      · rintro ⟨front, back⟩
        rw [here_iff.mpr front, rest_iff.mpr back]

/-- What a line is written out as are single lines. -/
lemma desugarLine_single (single : SingleLine raw) :
    ∀ raw' ∈ desugarLine raw, SingleLine raw' := by
  intro raw' mem
  rw [desugarLine] at mem
  split at mem
  · exact List.mem_singleton.mp mem ▸ single
  · rename_i line p
    split at mem
    · rename_i mnemonic x y named operands
      split at mem
      · have part : ∀ {op}, op ∈ line.operands → SingleLine op := fun op_mem =>
          single.subset (parseLine_operandText p _ op_mem).2
        rw [operands] at part
        have hx := part List.mem_cons_self
        have hy := part (List.mem_cons_of_mem _ List.mem_cons_self)
        have labels : ∀ d ∈ line.labels.map fun l => (([] : PyStr), l),
            SingleLine d.1 ∧ SingleLine d.2 := by
          intro d d_mem
          obtain ⟨l, l_mem, rfl⟩ := List.mem_map.mp d_mem
          exact ⟨List.forall_mem_nil _, single.subset (parseLine_labelName p l l_mem).2⟩
        have gap : SingleLine [32] := .cons (by decide) (List.forall_mem_nil _)
        rcases List.mem_pair.mp mem with rfl | rfl
        · exact lineText_single labels gap (value_single .SUB)
            (List.forall_mem_cons.mpr ⟨hx, List.forall_mem_singleton.mpr hx⟩)
            (List.forall_mem_nil _) nofun
        · exact lineText_single (List.forall_mem_nil _) gap (value_single .ADD)
            (List.forall_mem_cons.mpr ⟨hx, List.forall_mem_singleton.mpr hy⟩)
            (List.forall_mem_nil _) nofun
      · exact List.mem_singleton.mp mem ▸ single
    · exact List.mem_singleton.mp mem ▸ single

lemma desugar_splitlines (source : PyStr) :
    splitlines (desugar source) = (splitlines source).flatMap desugarLine := by
  refine splitlines_unlines fun raw' mem => ?_
  obtain ⟨raw, raw_mem, mem⟩ := List.mem_flatMap.mp mem
  exact desugarLine_single (splitlines_single raw_mem) raw' mem

/-- With its pseudo-ops written out, a text defines the same labels at the same addresses. It
    assembles to the same program just when no register of a pseudo-op is the name of a label. -/
theorem pseudo_ops_written_out {source : PyStr} {assembly : AssemblyDto}
    (h : assemble source = .ok assembly) :
    ∃ lines program', parse source = .ok lines ∧
      assemble (desugar source) = .ok ⟨program', assembly.labels⟩ ∧
      (program' = assembly.program ↔
        ∀ line ∈ lines, ∀ token ∈ registerOperands line,
          token ∉ assembly.labels.map Prod.fst) := by
  obtain ⟨lines, resolved, parsed, -⟩ := assemble_ok h
  obtain ⟨ok, nodup⟩ := assemble_iff.mp h
  obtain ⟨program', ok', -, same⟩ := desugar_assembles parsed ok
  rw [← desugar_splitlines] at ok'
  exact ⟨lines, program', parsed, assemble_iff.mpr ⟨ok', nodup⟩, same⟩

end Texts

section Instances

attribute [local instance] UnicodeData.ascii

/-- A copy and a label's address, with a label on the line of the copy. -/
theorem pseudo_ops_written_out_copy :
    ∃ lines program', parse "A: MOV X, Y
SET X, A" = .ok lines ∧
      assemble (desugar "A: MOV X, Y
SET X, A") = .ok ⟨program', [("A", 0)]⟩ ∧
      (program' = [.SUB "X" (.reg "X"), .ADD "X" (.reg "Y"), .SUB "X" (.reg "X"), .ADD "X" (.imm 0)] ↔
        ∀ line ∈ lines, ∀ token ∈ registerOperands line,
          token ∉ ([("A", 0)] : Labels).map Prod.fst) :=
  @pseudo_ops_written_out _ _ ⟨_, [("A", 0)]⟩ (by decide +kernel)

/-- A register with the name of a label: written out, its index is added instead. -/
theorem written_out_label_differs :
    assemble "L: MOV X, L" = .ok ⟨[.SUB "X" (.reg "X"), .ADD "X" (.reg "L")], [("L", 0)]⟩ ∧
      assemble (desugar "L: MOV X, L") =
        .ok ⟨[.SUB "X" (.reg "X"), .ADD "X" (.imm 0)], [("L", 0)]⟩ := by
  decide +kernel

end Instances

end MinCpuForth.Assembler
