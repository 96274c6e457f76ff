import MinCpuForth.Assembler.RenamedText
import MinCpuForth.Domain.Renaming
import MinCpuForth.Lib.Fallible
import Mathlib.Logic.Equiv.Basic

/-!
# Names are immaterial

The assembler compares names with each other and looks at how they are spelled, and does nothing
else with them. A text in which registers and labels are renamed, so that none fall together,
assembles to the renamed program, or is rejected with the same error.
-/

namespace MinCpuForth.Assembler
open Python Domain Lib Lib.Fallible

section Texts

variable [UnicodeData]

/-- What becomes of a result when names are replaced. -/
abbrev renamed {α β : Type} (ρ : PyStr → PyStr) (f : α → β) :
    Except AssemblerError α → Except AssemblerError β :=
  both (AssemblerError.rename ρ) f

/-! ## Lines -/

section Lines

variable {ρ : PyStr → PyStr} {raw : PyStr}

/-- The operands of a line, replaced. -/
lemma filter_renameToken (ren : Renaming ρ) {parts : List PyStr}
    (ok : ∀ part ∈ parts, part ≠ [] → OperandText part) :
    (parts.map (renameToken ρ)).filter (!·.isEmpty) = (parts.filter (!·.isEmpty)).map ρ := by
  have kept : ∀ part ∈ parts, (!(renameToken ρ part).isEmpty) = !part.isEmpty := by
    intro part mem
    rw [renameToken]
    split
    · rfl
    · rename_i full
      have text := ren.operand part (ok part mem (mt List.isEmpty_iff.mpr full))
      rw [Bool.eq_false_iff.mpr full, List.isEmpty_eq_false_iff.mpr text.full]
  rw [List.filter_map, Function.comp_def, List.filter_congr kept]
  refine List.map_congr_left fun part mem => ?_
  exact if_neg (by simpa using (List.mem_filter.mp mem).2)

/-- A renamed line is read as the line with its names replaced. -/
lemma parseLine_renameLine (ren : Renaming ρ) (spaces : SpacesAreNoWords) (k : ℕ)
    (single : SingleLine raw) :
    parseLine k (renameLine ρ raw) = renamed ρ (LineDto.rename ρ) (parseLine k raw) := by
  obtain ⟨labels, statement, text⟩ := lineText_exists raw
  obtain ⟨text', -⟩ := renameLine_spec ren spaces text single
  rcases statement with _ | ⟨mnemonic, parts⟩
  · rw [parseLine_labels text, parseLine_labels text']
    rfl
  · obtain ⟨reads, rejects⟩ := parseLine_statement (k := k) text
    obtain ⟨reads', rejects'⟩ := parseLine_statement (k := k) text'
    by_cases well : WellFormedMnemonic mnemonic
    · have operands : ∀ part ∈ parts, part ≠ [] → OperandText part := by
        intro part mem full
        obtain ⟨trimmed, comma, semicolon, -⟩ := text.part mem
        exact ⟨trimmed, full, comma, semicolon⟩
      rw [reads well, reads' well, filter_renameToken ren operands]
      rfl
    · rw [rejects well, rejects' well]
      rfl

/-- A renamed text is read as the lines with their names replaced. -/
lemma parseLines_renamed (ren : Renaming ρ) (spaces : SpacesAreNoWords) (k : ℕ) {raws : List PyStr}
    (single : ∀ raw ∈ raws, SingleLine raw) :
    parseLines k (raws.map (renameLine ρ)) =
      renamed ρ (List.map (LineDto.rename ρ)) (parseLines k raws) := by
  induction raws generalizing k with
  | nil => rfl
  | cons raw raws ih =>
    obtain ⟨here, others⟩ := List.forall_mem_cons.mp single
    refine both_bind (parseLine_renameLine ren spaces k here) fun line _ => ?_
    exact both_bind (ih (k + 1) others) fun lines _ => rfl

lemma parse_renamed (ren : Renaming ρ) (spaces : SpacesAreNoWords) {source source' : PyStr}
    (lines : splitlines source' = (splitlines source).map (renameLine ρ)) :
    parse source' = renamed ρ (List.map (LineDto.rename ρ)) (parse source) := by
  rw [parse, lines]
  exact parseLines_renamed ren spaces 1 fun raw mem => splitlines_single mem

/-- The lines of a text with its names replaced. -/
lemma splitlines_renameText (ren : Renaming ρ) (spaces : SpacesAreNoWords) (source : PyStr) :
    splitlines (renameText ρ source) = (splitlines source).map (renameLine ρ) := by
  refine splitlines_unlines fun raw mem => ?_
  obtain ⟨raw, raw_mem, rfl⟩ := List.mem_map.mp mem
  obtain ⟨labels, statement, text⟩ := lineText_exists raw
  exact (renameLine_spec ren spaces text (splitlines_single raw_mem)).2

end Lines

/-! ## Labels -/

section Labels

variable {ρ : PyStr → PyStr}

omit [UnicodeData] in
/-- Looking up a renamed label. -/
lemma lookup_rename (inj : Function.Injective ρ) (labels : Labels) (token : PyStr) :
    (Labels.rename ρ labels).lookup (ρ token) = labels.lookup token := by
  induction labels with
  | nil => rfl
  | cons l labels ih =>
    show List.lookup (ρ token) ((ρ l.1, l.2) :: Labels.rename ρ labels) =
      List.lookup token (l :: labels)
    have same : (ρ token == ρ l.1) = (token == l.1) := by
      rw [Bool.eq_iff_iff, beq_iff_eq, beq_iff_eq]
      exact inj.eq_iff
    rw [List.lookup_cons, List.lookup_cons, ih, same]

omit [UnicodeData] in
lemma defineLabels_rename (inj : Function.Injective ρ) (lineno : ℕ) (address : ℤ) (labels : Labels)
    (names : List PyStr) : defineLabels lineno address (Labels.rename ρ labels) (names.map ρ) =
      renamed ρ (Labels.rename ρ) (defineLabels lineno address labels names) := by
  induction names generalizing labels with
  | nil => rfl
  | cons name names ih =>
    rw [List.map_cons, defineLabels, defineLabels, lookup_rename inj]
    split
    · rfl
    · have more : Labels.rename ρ labels ++ [(ρ name, address)] =
          Labels.rename ρ (labels ++ [(name, address)]) := by
        simp only [Labels.rename, List.map_append, List.map_cons, List.map_nil]
      rw [more, ih]

omit [UnicodeData] in
lemma resolveLoop_rename (inj : Function.Injective ρ) (labels : Labels) (address : ℤ)
    (lines : List LineDto) :
    resolveLoop (Labels.rename ρ labels) address (lines.map (LineDto.rename ρ)) =
      renamed ρ (ResolvedProgramDto.rename ρ) (resolveLoop labels address lines) := by
  induction lines generalizing labels address with
  | nil => rfl
  | cons line lines ih =>
    refine both_bind (defineLabels_rename inj _ _ _ _) fun labels' _ => ?_
    exact both_bind (ih labels' _) fun resolved _ => rfl

end Labels

/-! ## Instructions -/

section Instructions

variable {ρ : PyStr → PyStr} (ren : Renaming ρ) (labels : Labels) (line : LineDto)
include ren

lemma resolveRegister_rename (token : PyStr) :
    resolveRegister (ρ token) (line.rename ρ) = renamed ρ ρ (resolveRegister token line) := by
  rw [resolveRegister, resolveRegister, ren.identifier]
  cases number : int0 token with
  | some n =>
    rw [ren.number token n number, number]
    simp only [Option.isSome_some, Bool.true_or, if_true, both, AssemblerError.rename,
      ren.number token n number]
    rfl
  | none =>
    rw [ren.name token number]
    split
    · rfl
    · rfl

lemma resolveRegOrImmediate_rename (token : PyStr) :
    resolveRegOrImmediate (ρ token) (Labels.rename ρ labels) (line.rename ρ) =
      renamed ρ (Operand.rename ρ) (resolveRegOrImmediate token labels line) := by
  rw [resolveRegOrImmediate, resolveRegOrImmediate]
  cases number : int0 token with
  | some n =>
    rw [ren.number token n number, number]
    rfl
  | none =>
    rw [ren.name token number, lookup_rename ren.injective]
    cases labels.lookup token with
    | some index => rfl
    | none => exact both_bind (resolveRegister_rename ren line token) fun name _ => rfl

lemma resolveOffset_rename (token : PyStr) :
    resolveOffset (ρ token) (Labels.rename ρ labels) (line.rename ρ) =
      renamed ρ id (resolveOffset token labels line) := by
  rw [resolveOffset, resolveOffset]
  cases number : int0 token with
  | some n =>
    rw [ren.number token n number, number]
    rfl
  | none =>
    rw [ren.name token number, lookup_rename ren.injective]
    cases labels.lookup token <;> rfl

lemma resolveConstant_rename (token : PyStr) :
    resolveConstant (ρ token) (Labels.rename ρ labels) (line.rename ρ) =
      renamed ρ id (resolveConstant token labels line) := by
  rw [resolveConstant, resolveConstant]
  cases number : int0 token with
  | some n =>
    rw [ren.number token n number, number]
    rfl
  | none =>
    rw [ren.name token number, lookup_rename ren.injective]
    cases labels.lookup token <;> rfl

/-- The pseudo-op that loads a constant. -/
lemma emitSet_rename : emitSet (line.rename ρ) (Labels.rename ρ labels) =
    renamed ρ (List.map (InstructionDto.rename ρ)) (emitSet line labels) := by
  obtain ⟨lineno, names, mnemonic, operands, address⟩ := line
  rcases operands with _ | ⟨reg, _ | ⟨const, _ | ⟨x, xs⟩⟩⟩
  · rfl
  · rfl
  · refine both_bind (resolveRegister_rename ren _ reg) fun register _ => ?_
    exact both_bind (resolveConstant_rename ren labels _ const) fun value _ => rfl
  · simp [emitSet, LineDto.rename, both, AssemblerError.rename]

/-- The pseudo-op that copies a register. -/
lemma emitMov_rename : emitMov (line.rename ρ) =
    renamed ρ (List.map (InstructionDto.rename ρ)) (emitMov line) := by
  obtain ⟨lineno, names, mnemonic, operands, address⟩ := line
  rcases operands with _ | ⟨dst, _ | ⟨src, _ | ⟨x, xs⟩⟩⟩
  · rfl
  · rfl
  · refine both_bind (resolveRegister_rename ren _ dst) fun dest _ => ?_
    exact both_bind (resolveRegister_rename ren _ src) fun source _ => rfl
  · simp [emitMov, LineDto.rename, both, AssemblerError.rename]

lemma fillOperand_rename (instr : InstructionDto) (spec : OperandSpec) (token : PyStr) :
    fillOperand (Labels.rename ρ labels) (line.rename ρ) (instr.rename ρ) spec (ρ token) =
      renamed ρ (InstructionDto.rename ρ) (fillOperand labels line instr spec token) := by
  obtain ⟨field, kind⟩ := spec
  cases kind with
  | REGISTER =>
    refine both_bind (resolveRegister_rename ren line token) fun register _ => ?_
    cases field <;> rfl
  | REGISTER_OR_IMMEDIATE =>
    exact both_bind (resolveRegOrImmediate_rename ren labels line token) fun b _ => rfl
  | OFFSET => exact both_bind (resolveOffset_rename ren labels line token) fun offset _ => rfl

lemma fillOperands_rename (instr : InstructionDto) (items : List (OperandSpec × PyStr)) :
    fillOperands (Labels.rename ρ labels) (line.rename ρ) (instr.rename ρ)
        (items.map fun item => (item.1, ρ item.2)) =
      renamed ρ (InstructionDto.rename ρ) (fillOperands labels line instr items) := by
  induction items generalizing instr with
  | nil => rfl
  | cons item items ih =>
    exact both_bind (fillOperand_rename ren labels line instr item.1 item.2) fun mid _ => ih mid

lemma emitLine_rename : emitLine (line.rename ρ) (Labels.rename ρ labels) =
    renamed ρ (List.map (InstructionDto.rename ρ)) (emitLine line labels) := by
  have named : (line.rename ρ).mnemonic = line.mnemonic := rfl
  have count : (line.rename ρ).operands.length = line.operands.length := List.length_map _
  rw [emitLine, emitLine, named]
  cases line.mnemonic with
  | none => rfl
  | some mnemonic =>
    dsimp only
    split
    · exact emitSet_rename ren labels line
    · split
      · exact emitMov_rename ren line
      · cases MNEMONICS.lookup mnemonic with
        | none => rfl
        | some opcode =>
          dsimp only
          rw [count]
          split
          · rfl
          · have zipped : (OPERAND_SPECS opcode).zip (line.rename ρ).operands =
                ((OPERAND_SPECS opcode).zip line.operands).map fun item => (item.1, ρ item.2) :=
              List.zip_map_right ..
            have filled := fillOperands_rename ren labels line { opcode := opcode }
              ((OPERAND_SPECS opcode).zip line.operands)
            rw [← zipped] at filled
            exact both_bind filled fun instr _ => rfl

lemma emitLines_rename (lines : List LineDto) :
    emitLines (Labels.rename ρ labels) (lines.map (LineDto.rename ρ)) =
      renamed ρ (List.map (InstructionDto.rename ρ)) (emitLines labels lines) := by
  induction lines with
  | nil => rfl
  | cons line lines ih =>
    refine both_bind (emitLine_rename ren labels line) fun head _ => ?_
    refine both_bind ih fun program _ => ?_
    show Except.ok _ = Except.ok _
    rw [List.map_append]

end Instructions

/-! ## Renamings -/

section Permutations

/-- Identifiers in ASCII are identifiers, and no numbers. -/
lemma asciiIdentifier_name {name : PyStr} (h : asciiIdentifier name = true) :
    isidentifier name = true ∧ int0 name = none := by
  have chars := asciiIdentifier_chars h
  cases name with
  | nil => cases h
  | cons c cs =>
    obtain ⟨first, -⟩ := Bool.and_eq_true_iff.mp h
    refine ⟨?_, LabelStart.int0 first cs⟩
    have ascii := (identifierChar_facts (chars c List.mem_cons_self)).1
    have start : isIdentifierStart c = true := by
      rw [isIdentifierStart, if_pos ascii, Bool.or_comm]
      exact first
    rw [isidentifier, start, Bool.true_and, List.all_eq_true]
    intro d mem
    have char := chars d (List.mem_cons_of_mem _ mem)
    rw [isIdentifierContinue, if_pos (identifierChar_facts char).1]
    exact char

omit [UnicodeData] in
lemma asciiIdentifier_single {name : PyStr} (h : asciiIdentifier name = true) :
    SingleLine name := by
  intro c mem
  have char := asciiIdentifier_chars h c mem
  simp only [isAsciiLetter, isAsciiDigit, isUnderscore, Bool.or_eq_true, Bool.and_eq_true,
    decide_eq_true_eq, beq_iff_eq] at char
  simp only [isLineBreak, Bool.or_eq_false_iff, Bool.and_eq_false_iff, decide_eq_false_iff_not,
    beq_eq_false_iff_ne]
  omega

/-- ASCII identifiers can be permuted. -/
lemma Renaming.perm (σ : Equiv.Perm PyStr) (ids : ∀ x, σ x ≠ x → asciiIdentifier x = true) :
    Renaming σ := by
  -- What becomes of a text: itself, or an identifier that replaces one.
  have moved : ∀ x, σ x = x ∨ asciiIdentifier x = true ∧ asciiIdentifier (σ x) = true := by
    intro x
    by_cases same : σ x = x
    · exact .inl same
    · exact .inr ⟨ids x same, ids (σ x) fun e => same (σ.injective e)⟩
  have kept {p : PyStr → Prop} (all : ∀ x, asciiIdentifier x = true → p x) (x : PyStr) (h : p x) :
      p (σ x) := by
    rcases moved x with same | ⟨-, id⟩
    · rwa [same]
    · exact all _ id
  refine ⟨σ.injective, ?_, kept fun x id => (asciiIdentifier_name id).2, ?_,
    kept fun x id => asciiIdentifier_label id, kept fun x id => asciiIdentifier_operand id,
    kept fun x id => asciiIdentifier_single id⟩
  · intro token n number
    rcases moved token with same | ⟨id, -⟩
    · exact same
    · cases (asciiIdentifier_name id).2.symm.trans number
  · intro token
    rcases moved token with same | ⟨id, id'⟩
    · rw [same]
    · rw [(asciiIdentifier_name id).1, (asciiIdentifier_name id').1]

end Permutations

/-- A text whose names are replaced where they stand, so that the assembler cannot tell them from
    those that they replace and none fall together, assembles to the program and the labels with
    their names replaced; where the text is rejected, so is the renamed one, for the same reason, at
    the same line. Every permutation of identifiers in ASCII is such a renaming, and every text can
    be renamed. -/
theorem renamed_text_assembles (spaces : SpacesAreNoWords) :
    (∀ ρ : PyStr → PyStr, Renaming ρ → ∀ source source',
      splitlines source' = (splitlines source).map (renameLine ρ) →
      assemble source' = renamed ρ (AssemblyDto.rename ρ) (assemble source)) ∧
    (∀ ρ : PyStr → PyStr, Renaming ρ → ∀ source,
      splitlines (renameText ρ source) = (splitlines source).map (renameLine ρ)) ∧
    ∀ σ : Equiv.Perm PyStr, (∀ x, σ x ≠ x → asciiIdentifier x = true) → Renaming σ := by
  refine ⟨fun ρ ren source source' lines => ?_,
    fun ρ ren source => splitlines_renameText ren spaces source, Renaming.perm⟩
  refine both_bind (parse_renamed ren spaces lines) fun lines _ => ?_
  refine both_bind (resolveLoop_rename ren.injective [] 0 lines) fun resolved _ => ?_
  exact both_bind (emitLines_rename ren resolved.labels resolved.lines) fun program _ => rfl

end Texts

section Instances

attribute [local instance] UnicodeData.ascii

/-- White space is no word character in ASCII. -/
lemma ascii_spaces : SpacesAreNoWords := by
  intro c space
  simp only [isSpace, Bool.or_eq_true, Bool.and_eq_true, decide_eq_true_eq, beq_iff_eq] at space
  rw [isWord, isAlnumChar, Bool.or_eq_false_iff]
  refine ⟨?_, beq_eq_false_iff_ne.mpr (by omega)⟩
  split
  · simp only [isAsciiLetter, isAsciiDigit, Bool.or_eq_false_iff, Bool.and_eq_false_iff,
      decide_eq_false_iff_not]
    omega
  · rfl

/-- A label and a register that exchange their names, in a line with a comment. -/
theorem renamed_text_assembles_swap :
    splitlines (py "X:SET\tA ,  X; A") =
      (splitlines (py "A:SET\tX ,  A; A")).map (renameLine (Equiv.swap (py "A") (py "X"))) ∧
    assemble (py "X:SET\tA ,  X; A") =
      .ok ⟨[.SUB "A" (.reg "A"), .ADD "A" (.imm 0)], [("X", 0)]⟩ ∧
    splitlines (renameText (Equiv.swap (py "A") (py "X")) (py "A:SET\tX ,  A; A")) =
      (splitlines (py "A:SET\tX ,  A; A")).map (renameLine (Equiv.swap (py "A") (py "X"))) ∧
    Renaming (Equiv.swap (py "A") (py "X")) := by
  have ids : ∀ x, Equiv.swap (py "A") (py "X") x ≠ x → asciiIdentifier x = true := by
    intro x moved
    rcases Equiv.swap_apply_ne_self_iff.mp moved with ⟨-, rfl | rfl⟩ <;> decide
  obtain ⟨assembles, texts, perm⟩ := renamed_text_assembles ascii_spaces
  have ren := perm (Equiv.swap (py "A") (py "X")) ids
  have lines : splitlines (py "X:SET\tA ,  X; A") =
      (splitlines (py "A:SET\tX ,  A; A")).map (renameLine (Equiv.swap (py "A") (py "X"))) := by
    decide +kernel
  have ok : assemble (py "A:SET\tX ,  A; A") =
      .ok ⟨[.SUB "X" (.reg "X"), .ADD "X" (.imm 0)], [("A", 0)]⟩ := by decide +kernel
  refine ⟨lines, ?_, texts _ ren _, ren⟩
  rw [assembles _ ren _ _ lines, ok]
  rfl

end Instances

end MinCpuForth.Assembler
