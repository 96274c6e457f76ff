import MinCpuForth.Assembler.Listing
import MinCpuForth.Python.Dict

/-!
# Relocation

A text assembled after another lands behind it. Its labels move by the length of what comes before:
so do the immediates that name them, while the distance of a branch to its label stays what it was.
-/

namespace MinCpuForth.Assembler
open Python Domain Lib

/-! ## Lines of a concatenation -/

/-- A text, a line feed and another text: the lines of the one and of the other, with a blank line
    between them if the first ends in a line boundary. -/
lemma splitlinesLoop_append {cr : Bool} {line : PyStr} (A B : PyStr) (fresh : cr → line = []) :
    ∃ gap, (gap = [] ∨ gap = [[]]) ∧
      splitlinesLoop cr line (A ++ 10 :: B) = splitlinesLoop cr line A ++ (gap ++ splitlines B) := by
  induction A generalizing cr line with
  | nil =>
    have feed : isLineBreak 10 = true := by decide
    have newline : ((10 : PyChar).val == 10) = true := by decide
    have plain : ((10 : PyChar).val == 13) = false := by decide
    cases cr with
    | true =>
      cases fresh rfl
      refine ⟨[], .inl rfl, ?_⟩
      simp only [List.nil_append, splitlinesLoop, splitlines, newline, Bool.and_self, if_true,
        List.isEmpty_nil]
    | false =>
      cases line with
      | nil =>
        refine ⟨[[]], .inr rfl, ?_⟩
        simp only [List.nil_append, splitlinesLoop, splitlines, feed, plain, Bool.false_and, if_true]
        rfl
      | cons c cs =>
        refine ⟨[], .inl rfl, ?_⟩
        simp only [List.nil_append, splitlinesLoop, splitlines, feed, plain, Bool.false_and, if_true]
        rfl
  | cons c A ih =>
    simp only [List.cons_append, splitlinesLoop]
    split
    · exact ih (by simp)
    · split
      · obtain ⟨gap, shape, e⟩ := @ih (c.val == 13) [] (fun _ => rfl)
        exact ⟨gap, shape, by rw [e, List.cons_append]⟩
      · exact ih (by simp)

section Lines

variable [UnicodeData]

/-- A blank line between two texts assembles to nothing. -/
lemma assembleLines_gap {table : Labels} {address : ℤ} {gap raws : List PyStr}
    (shape : gap = [] ∨ gap = [[]]) :
    assembleLines table address (gap ++ raws) = assembleLines table address raws := by
  rcases shape with rfl | rfl
  · rfl
  · have parsed : parseLine 0 [] =
        .ok { lineno := 0, labels := [], mnemonic := none, operands := [] } := rfl
    have emitted : emitLine
        { lineno := 0, labels := [], mnemonic := none, operands := [], address := address } table =
          .ok [] := rfl
    simp only [List.cons_append, List.nil_append, assembleLines, parsed, bind, Except.bind,
      LineDto.with_address, emitted, List.length_nil]
    rw [Nat.cast_zero, Int.add_zero]
    cases assembleLines table address raws <;> rfl

/-! ## Lines that move -/

/-- The mnemonics whose second operand may be a label that stands for its index. -/
def immediateMnemonics : List PyStr :=
  [SET_MNEMONIC, Opcode.ADD.value, Opcode.SUB.value, Opcode.AND.value, Opcode.OR.value]

/-- Whether the line has an immediate that comes from a label. -/
def labelImmediate (labels : Labels) (line : LineDto) : Bool :=
  match line.mnemonic, line.operands with
  | some mnemonic, [_, token] =>
    immediateMnemonics.contains mnemonic && (int0 token).isNone && (labels.lookup token).isSome
  | _, _ => false

/-- An immediate moved by `delta`. -/
def shiftOperand (delta : ℤ) : Operand → Operand
  | .imm value => .imm (value + delta)
  | .reg name => .reg name

/-- An instruction with its immediate moved by `delta`. -/
def shiftImmediate (delta : ℤ) (instr : InstructionDto) : InstructionDto :=
  { instr with b := instr.b.map (shiftOperand delta) }

/-- The program of some lines, with the immediates that come from labels moved by `delta`. -/
def relocated (delta : ℤ) (labels : Labels) : List LineDto → List InstructionDto → List InstructionDto
  | [], program => program
  | line :: lines, program =>
    let here := program.take (size line)
    (if labelImmediate labels line then here.map (shiftImmediate delta) else here) ++
      relocated delta labels lines (program.drop (size line))

/-- A label table with every label moved by `delta`. -/
def shiftLabels (delta : ℤ) (labels : Labels) : Labels := labels.map fun l => (l.1, l.2 + delta)

variable {labels labels' : Labels} {line : LineDto} {delta address : ℤ}

/-- What the labels of a moved text stand for, as far as the token is concerned. -/
def Moved (delta : ℤ) (labels labels' : Labels) (token : PyStr) : Prop :=
  labels'.lookup token = (labels.lookup token).map (· + delta)

/-- A register operand does not move. -/
lemma resolveRegister_moves (token : PyStr) :
    resolveRegister token (line.with_address address) = resolveRegister token line := rfl

/-- A branch offset does not move. -/
lemma resolveOffset_moves {token : PyStr} (moved : Moved delta labels labels' token) :
    resolveOffset token labels' (line.with_address (line.address + delta)) =
      resolveOffset token labels line := by
  unfold resolveOffset
  rw [moved]
  cases int0 token with
  | some literal => rfl
  | none =>
    cases labels.lookup token with
    | none => rfl
    | some index =>
      have same : index + delta - (line.address + delta + 1) = index - (line.address + 1) := by omega
      simp only [Option.map_some, LineDto.with_address, same]

/-- A constant moves if it is a label. -/
lemma resolveConstant_moves {token : PyStr} {value : ℤ} (moved : Moved delta labels labels' token)
    (h : resolveConstant token labels line = .ok value) :
    resolveConstant token labels' (line.with_address (line.address + delta)) =
      .ok (if (int0 token).isNone && (labels.lookup token).isSome then value + delta else value) := by
  unfold resolveConstant at h ⊢
  rw [moved]
  cases number : int0 token with
  | some literal =>
    rw [number] at h
    cases h
    rfl
  | none =>
    rw [number] at h
    cases found : labels.lookup token with
    | none =>
      rw [found] at h
      cases h
    | some index =>
      rw [found] at h
      cases h
      rfl

/-- A second operand of arithmetic moves if it is a label. -/
lemma resolveRegOrImmediate_moves {token : PyStr} {operand : Operand}
    (moved : Moved delta labels labels' token)
    (h : resolveRegOrImmediate token labels line = .ok operand) :
    resolveRegOrImmediate token labels' (line.with_address (line.address + delta)) =
      .ok (if (int0 token).isNone && (labels.lookup token).isSome then shiftOperand delta operand
        else operand) := by
  unfold resolveRegOrImmediate at h ⊢
  rw [moved]
  cases number : int0 token with
  | some literal =>
    rw [number] at h
    cases h
    rfl
  | none =>
    rw [number] at h
    cases found : labels.lookup token with
    | none =>
      rw [found] at h
      exact h
    | some index =>
      rw [found] at h
      cases h
      rfl

/-- An operand that is no register-or-immediate does not move. -/
lemma fillOperand_moves {instr : InstructionDto} {spec : OperandSpec} {token : PyStr}
    (moved : Moved delta labels labels' token) (kind : spec.kind ≠ .REGISTER_OR_IMMEDIATE) :
    fillOperand labels' (line.with_address (line.address + delta)) instr spec token =
      fillOperand labels line instr spec token := by
  obtain ⟨field, kind'⟩ := spec
  cases kind' with
  | REGISTER => rfl
  | REGISTER_OR_IMMEDIATE => exact absurd rfl kind
  | OFFSET => simp only [fillOperand, resolveOffset_moves moved]

/-- Operands none of which is a register-or-immediate do not move. -/
lemma fillOperands_moves {instr : InstructionDto} {items : List (OperandSpec × PyStr)}
    (moved : ∀ item ∈ items, Moved delta labels labels' item.2)
    (kinds : ∀ item ∈ items, item.1.kind ≠ .REGISTER_OR_IMMEDIATE) :
    fillOperands labels' (line.with_address (line.address + delta)) instr items =
      fillOperands labels line instr items := by
  induction items generalizing instr with
  | nil => rfl
  | cons item items ih =>
    obtain ⟨spec, token⟩ := item
    obtain ⟨m, ms⟩ := List.forall_mem_cons.mp moved
    obtain ⟨k, ks⟩ := List.forall_mem_cons.mp kinds
    simp only [fillOperands, fillOperand_moves m k]
    exact Fallible.bind_congr fun instr' _ => ih ms ks

omit [UnicodeData] in
/-- The mnemonics with a register-or-immediate operand. -/
lemma immediateMnemonics_iff (opcode : Opcode) :
    immediateMnemonics.contains opcode.value = true ↔
      OPERAND_SPECS opcode = [⟨.A, .REGISTER⟩, ⟨.B, .REGISTER_OR_IMMEDIATE⟩] := by
  cases opcode <;> simp [immediateMnemonics, SET_MNEMONIC, Opcode.value, OPERAND_SPECS]

omit [UnicodeData] in
/-- The other mnemonics have none. -/
lemma no_immediate {opcode : Opcode} (h : immediateMnemonics.contains opcode.value = false) :
    ∀ spec ∈ OPERAND_SPECS opcode, spec.kind ≠ .REGISTER_OR_IMMEDIATE := by
  revert h
  cases opcode <;> simp [immediateMnemonics, SET_MNEMONIC, Opcode.value, OPERAND_SPECS]

/-- Whether the second operand of such a mnemonic is a label. -/
lemma labelImmediate_pair {mnemonic reg token : PyStr} (some : line.mnemonic = some mnemonic)
    (operands : line.operands = [reg, token]) :
    labelImmediate labels line = (immediateMnemonics.contains mnemonic && (int0 token).isNone &&
      (labels.lookup token).isSome) := by
  rw [labelImmediate, some, operands]

/-- A `SET` that moves. -/
lemma emitSet_moves {here : List InstructionDto} (set : line.mnemonic = some SET_MNEMONIC)
    (moved : ∀ token ∈ line.operands, Moved delta labels labels' token)
    (h : emitSet line labels = .ok here) :
    emitSet (line.with_address (line.address + delta)) labels' =
      .ok (if labelImmediate labels line then here.map (shiftImmediate delta) else here) := by
  obtain ⟨reg, const, register, value, operands, r, c, rfl⟩ := emitSet_ok h
  have mem : const ∈ line.operands := by simp [operands]
  have c' := resolveConstant_moves (moved const mem) c
  have contains : immediateMnemonics.contains SET_MNEMONIC = true := by simp [immediateMnemonics]
  have operands' : (line.with_address (line.address + delta)).operands = [reg, const] := operands
  rw [labelImmediate_pair set operands, contains, Bool.true_and]
  simp only [emitSet, operands', resolveRegister_moves, r, c', bind, Except.bind]
  split <;> rfl

/-- A `MOV` that moves. -/
lemma emitMov_moves {here : List InstructionDto} (mov : line.mnemonic = some MOV_MNEMONIC)
    (h : emitMov line = .ok here) :
    emitMov (line.with_address (line.address + delta)) =
      .ok (if labelImmediate labels line then here.map (shiftImmediate delta) else here) := by
  obtain ⟨dst, src, dest, source, operands, r, r', rfl⟩ := emitMov_ok h
  have contains : immediateMnemonics.contains MOV_MNEMONIC = false := by
    simp [immediateMnemonics, MOV_MNEMONIC, SET_MNEMONIC, Opcode.value]
  rw [labelImmediate_pair mov operands, contains, Bool.false_and, Bool.false_and]
  exact h

/-- An instruction line that moves. -/
lemma fillOperands_opcode_moves {opcode : Opcode} {instr : InstructionDto}
    (some : line.mnemonic = some opcode.value)
    (len : line.operands.length = (OPERAND_SPECS opcode).length)
    (moved : ∀ token ∈ line.operands, Moved delta labels labels' token)
    (fill : fillOperands labels line { opcode := opcode } ((OPERAND_SPECS opcode).zip line.operands) =
      .ok instr) :
    fillOperands labels' (line.with_address (line.address + delta)) { opcode := opcode }
        ((OPERAND_SPECS opcode).zip line.operands) =
      .ok (if labelImmediate labels line then shiftImmediate delta instr else instr) := by
  cases contains : immediateMnemonics.contains opcode.value with
  | true =>
    have specs := (immediateMnemonics_iff opcode).mp contains
    rw [specs] at fill len ⊢
    obtain ⟨reg, token, operands⟩ := List.length_eq_two.mp len
    have mem : token ∈ line.operands := by simp [operands]
    rw [labelImmediate_pair some operands, contains, Bool.true_and]
    rw [operands] at fill ⊢
    obtain ⟨first, fill₁, fill⟩ := fillOperands_cons fill
    obtain ⟨second, fill₂, fill⟩ := fillOperands_cons fill
    obtain ⟨register, r, fill₁⟩ := Fallible.bind_eq_ok.mp fill₁
    obtain ⟨operand, o, fill₂⟩ := Fallible.bind_eq_ok.mp fill₂
    cases fill₁
    cases fill₂
    cases fill
    have o' := resolveRegOrImmediate_moves (moved token mem) o
    simp only [List.zip_cons_cons, List.zip_nil_left, fillOperands, fillOperand,
      resolveRegister_moves, r, o', bind, Except.bind]
    split <;> rfl
  | false =>
    have plain : labelImmediate labels line = false := by
      unfold labelImmediate
      rw [some]
      split
      · rename_i same _
        cases same
        rw [contains, Bool.false_and, Bool.false_and]
      · rfl
    have kept : fillOperands labels' (line.with_address (line.address + delta)) { opcode := opcode }
        ((OPERAND_SPECS opcode).zip line.operands) = fillOperands labels line { opcode := opcode }
          ((OPERAND_SPECS opcode).zip line.operands) := by
      refine fillOperands_moves (fun item mem => ?_) (fun item mem => ?_)
      · exact moved _ (List.of_mem_zip mem).2
      · exact no_immediate contains _ (List.of_mem_zip mem).1
    rw [plain, kept, fill]
    rfl

/-- A line that moves emits what it did, with its immediate moved if that is a label. -/
lemma emitLine_moves {here : List InstructionDto}
    (moved : ∀ token ∈ line.operands, Moved delta labels labels' token)
    (h : emitLine line labels = .ok here) :
    emitLine (line.with_address (line.address + delta)) labels' =
      .ok (if labelImmediate labels line then here.map (shiftImmediate delta) else here) := by
  rcases emitLine_cases h with ⟨blank, rfl⟩ | ⟨set, set_ok⟩ | ⟨mov, mov_ok⟩ |
    ⟨mnemonic, opcode, instr, named, -, -, look, len, fill, rfl⟩
  · have blank' : (line.with_address (line.address + delta)).mnemonic = none := blank
    rw [emitLine, blank', List.map_nil, ite_self]
  · have set' : (line.with_address (line.address + delta)).mnemonic = some SET_MNEMONIC := set
    rw [← emitSet_moves set moved set_ok]
    exact emitLine_of_set set'
  · have mov' : (line.with_address (line.address + delta)).mnemonic = some MOV_MNEMONIC := mov
    rw [← emitMov_moves mov mov_ok]
    exact emitLine_of_mov mov'
  · obtain rfl := lookup_mnemonic look
    have fill' := fillOperands_opcode_moves named len moved fill
    have emits : emitLine (line.with_address (line.address + delta)) labels' =
        .ok [if labelImmediate labels line then shiftImmediate delta instr else instr] :=
      emitLine_opcode named len fill'
    rw [emits]
    split <;> rfl

/-- Lines that move emit what they did, with the immediates moved that are labels, and define their
    labels where they have moved to. -/
lemma assembleLines_moves {k : ℕ} {raws : List PyStr} {lines : List LineDto}
    {program : List InstructionDto} {defs : Labels} (parsed : parseLines k raws = .ok lines)
    (moved : ∀ line ∈ lines, ∀ token ∈ line.operands, Moved delta labels labels' token)
    (h : assembleLines labels address raws = .ok (program, defs)) :
    assembleLines labels' (address + delta) raws =
      .ok (relocated delta labels lines program, shiftLabels delta defs) := by
  induction raws generalizing k lines address program defs with
  | nil =>
    cases parsed
    cases h
    rfl
  | cons raw raws ih =>
    obtain ⟨line, here, rest, defs', p, e, es, rfl, rfl⟩ := assembleLines_cons h
    obtain ⟨line', p', parsed⟩ := Fallible.bind_eq_ok.mp parsed
    obtain ⟨lines', ps, parsed⟩ := Fallible.bind_eq_ok.mp parsed
    cases parsed
    cases (parseLine_lineno 0 p').symm.trans p
    obtain ⟨first, others⟩ := List.forall_mem_cons.mp moved
    have emits := @emitLine_moves _ labels labels'
      (({ line' with lineno := 0 } : LineDto).with_address address) delta here first e
    have next := ih ps others es
    have len : here.length = size line' := (emitLine_size e).trans rfl
    -- Neither the number nor the address of the line says where its immediate comes from.
    have same : labelImmediate labels (({ line' with lineno := 0 } : LineDto).with_address address) =
        labelImmediate labels line' := rfl
    rw [same] at emits
    have split_here : (here ++ rest).take (size line') = here ∧
        (here ++ rest).drop (size line') = rest := by
      rw [← len]
      exact ⟨List.take_left, List.drop_left⟩
    have here_len : (if labelImmediate labels line' then here.map (shiftImmediate delta)
        else here).length = here.length := by
      split
      · exact List.length_map ..
      · rfl
    have emits' : emitLine (({ line' with lineno := 0 } : LineDto).with_address (address + delta))
        labels' = .ok (if labelImmediate labels line' then here.map (shiftImmediate delta)
          else here) := emits
    have place : address + delta + here.length = address + here.length + delta := by omega
    simp only [assembleLines, p, emits', here_len, place, next, bind, Except.bind, relocated,
      split_here.1, split_here.2, shiftLabels, List.map_append, List.map_map]
    rfl

omit [UnicodeData] in
lemma shiftImmediate_zero (instr : InstructionDto) : shiftImmediate 0 instr = instr := by
  obtain ⟨opcode, a, b, offset⟩ := instr
  rcases b with _ | (name | value)
  · rfl
  · rfl
  · rw [shiftImmediate, Option.map_some, shiftOperand, Int.add_zero]

omit [UnicodeData] in
lemma shiftLabels_zero (labels : Labels) : shiftLabels 0 labels = labels := by
  simp [shiftLabels]

lemma relocated_zero (lines : List LineDto) (program : List InstructionDto) :
    relocated 0 labels lines program = program := by
  induction lines generalizing program with
  | nil => rfl
  | cons line lines ih =>
    have kept : ∀ here : List InstructionDto, here.map (shiftImmediate 0) = here := fun here =>
      (List.map_congr_left fun instr _ => shiftImmediate_zero instr).trans (List.map_id' here)
    simp only [relocated, kept, ite_self, ih, List.take_append_drop]

/-- Lines that stay where they are emit what they did. -/
lemma assembleLines_stays {raws : List PyStr} {k : ℕ} {lines : List LineDto}
    {program : List InstructionDto} {defs : Labels} (parsed : parseLines k raws = .ok lines)
    (same : ∀ line ∈ lines, ∀ token ∈ line.operands, labels'.lookup token = labels.lookup token)
    (h : assembleLines labels address raws = .ok (program, defs)) :
    assembleLines labels' address raws = .ok (program, defs) := by
  have moved : ∀ line ∈ lines, ∀ token ∈ line.operands, Moved 0 labels labels' token := by
    intro line mem token mem'
    simpa [Moved] using same line mem token mem'
  have moves := assembleLines_moves parsed moved h
  rwa [relocated_zero, shiftLabels_zero, Int.add_zero] at moves

end Lines

/-! ## Concatenation -/

lemma lookup_shiftLabels (delta : ℤ) (labels : Labels) (token : PyStr) :
    (shiftLabels delta labels).lookup token = (labels.lookup token).map (· + delta) := by
  induction labels with
  | nil => rfl
  | cons entry labels ih =>
    obtain ⟨l, a⟩ := entry
    have first : shiftLabels delta ((l, a) :: labels) = (l, a + delta) :: shiftLabels delta labels :=
      rfl
    rw [first, PyDict.lookup_cons, PyDict.lookup_cons, ih]
    split <;> rfl

lemma names_shiftLabels (delta : ℤ) (labels : Labels) :
    (shiftLabels delta labels).map Prod.fst = labels.map Prod.fst := by
  simp [shiftLabels]

/-- Two texts that assemble, with no label in common and no operand of one that is a label of the
    other, assemble one after the other: the program is the first's, followed by the second's with
    the immediates that come from labels moved by the length of the first's; and so is the label
    table, with all labels of the second moved. -/
theorem concatenation_relocates [UnicodeData] {A B : PyStr} {a b : AssemblyDto}
    {linesA linesB : List LineDto} (hA : assemble A = .ok a) (hB : assemble B = .ok b)
    (parsedA : parse A = .ok linesA) (parsedB : parse B = .ok linesB)
    (disjoint : ∀ l ∈ a.labels.map Prod.fst, l ∉ b.labels.map Prod.fst)
    (operandsA : ∀ line ∈ linesA, ∀ token ∈ line.operands, token ∉ b.labels.map Prod.fst)
    (operandsB : ∀ line ∈ linesB, ∀ token ∈ line.operands, token ∉ a.labels.map Prod.fst) :
    assemble (A ++ 10 :: B) = .ok
      { program := a.program ++ relocated a.program.length b.labels linesB b.program
        labels := a.labels ++ shiftLabels a.program.length b.labels } := by
  obtain ⟨okA, nodupA⟩ := assemble_iff.mp hA
  obtain ⟨okB, nodupB⟩ := assemble_iff.mp hB
  have tableA : ∀ line ∈ linesA, ∀ token ∈ line.operands,
      (a.labels ++ shiftLabels a.program.length b.labels).lookup token = a.labels.lookup token := by
    intro line mem token mem'
    have absent := lookup_absent (operandsA line mem token mem')
    rw [List.lookup_append, lookup_shiftLabels, absent]
    simp
  have tableB : ∀ line ∈ linesB, ∀ token ∈ line.operands, Moved a.program.length b.labels
      (a.labels ++ shiftLabels a.program.length b.labels) token := by
    intro line mem token mem'
    have absent := lookup_absent (operandsB line mem token mem')
    rw [Moved, List.lookup_append, absent, lookup_shiftLabels]
    rfl
  have partA := assembleLines_stays parsedA tableA okA
  have partB := assembleLines_moves parsedB tableB okB
  obtain ⟨gap, shape, lines⟩ := @splitlinesLoop_append false [] A B (fun _ => rfl)
  refine assemble_iff.mpr ⟨?_, ?_⟩
  · rw [splitlines, lines]
    refine assembleLines_append partA ?_
    rw [assembleLines_gap shape]
    exact partB
  · rw [List.map_append, names_shiftLabels]
    refine List.nodup_append.mpr ⟨nodupA, nodupB, fun l mem l' mem' => ?_⟩
    rintro rfl
    exact disjoint l mem mem'

/-- A jump through a label, and a branch to one, behind two instructions. -/
theorem concatenation_relocates_jump : @assemble .ascii "A: ADD X, A
JZ X, A
B: SET R, B
JZ R, B" = .ok ⟨[.ADD "X" (.imm 0), .JZ "X" (-2), .SUB "R" (.reg "R"), .ADD "R" (.imm 2),
      .JZ "R" (-3)], [("A", 0), ("B", 2)]⟩ := by
  refine (@concatenation_relocates .ascii "A: ADD X, A
JZ X, A" "B: SET R, B
JZ R, B" ⟨[.ADD "X" (.imm 0), .JZ "X" (-2)], [("A", 0)]⟩
    ⟨[.SUB "R" (.reg "R"), .ADD "R" (.imm 0), .JZ "R" (-3)], [("B", 0)]⟩
    [⟨1, ["A"], some "ADD", ["X", "A"], -1⟩, ⟨2, [], some "JZ", ["X", "A"], -1⟩]
    [⟨1, ["B"], some "SET", ["R", "B"], -1⟩, ⟨2, [], some "JZ", ["R", "B"], -1⟩]
    (by decide +kernel) (by decide +kernel) (by decide +kernel) (by decide +kernel)
    (by decide +kernel) (by decide +kernel) (by decide +kernel)).trans ?_
  decide +kernel

end MinCpuForth.Assembler
