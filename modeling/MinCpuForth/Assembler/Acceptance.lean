import MinCpuForth.Assembler.Listing
import MinCpuForth.Assembler.Printing
import Mathlib.Data.List.Forall2

/-!
# What the assembler accepts

The assembler accepts exactly the texts of its grammar, with two exceptions. Operands are allowed to
be missing: a comma with nothing on one side of it counts for nothing. And an integer that `int` does
not read, for it has too many digits, is no operand.
-/

namespace MinCpuForth.Assembler
open Python Domain Lib

/-- The operands that a mnemonic takes. The constant of a `SET`, like an offset, is an integer or a
    label. -/
inductive Signature : PyStr → List OperandKind → Prop where
  | opcode (opcode : Opcode) : Signature opcode.value ((OPERAND_SPECS opcode).map OperandSpec.kind)
  | set : Signature SET_MNEMONIC [.REGISTER, .OFFSET]
  | mov : Signature MOV_MNEMONIC [.REGISTER, .REGISTER]

/-- The operands are the texts between the commas, none of which is empty; without any text there
    is no operand. -/
inductive Listed : List PyStr → List PyStr → Prop where
  | none : Listed [[]] []
  | all {parts} : [] ∉ parts → Listed parts parts

/-- The operands are those texts between the commas that are not empty. -/
def Lenient (parts operands : List PyStr) : Prop := operands = parts.filter (!·.isEmpty)

lemma Listed.lenient {parts operands : List PyStr} (h : Listed parts operands) :
    Lenient parts operands := by
  cases h with
  | none => rfl
  | all full =>
    refine (List.filter_eq_self.mpr fun part mem => ?_).symm
    cases part with
    | nil => exact absurd mem full
    | cons c part => rfl

lemma Listed.full {parts operands : List PyStr} (h : Listed parts operands) :
    parts = [[]] ∨ [] ∉ parts := by
  cases h with
  | none => exact .inl rfl
  | all full => exact .inr full

/-- Operands of which none is empty are listed. -/
lemma Lenient.listed {parts operands : List PyStr} (h : Lenient parts operands)
    (full : parts = [[]] ∨ [] ∉ parts) : Listed parts operands := by
  cases h
  rcases full with rfl | full
  · exact .none
  · have same := (Listed.all full).lenient
    rw [Lenient] at same
    rw [← same]
    exact .all full

section Texts

variable [UnicodeData]

/-- An integer literal that `int` reads. -/
def ReadLiteral (token : PyStr) : Prop := IntegerLiteral token ∧ ¬LongLiteral token

/-- A token that can be an operand of the kind, in a text that defines the labels `names`. -/
def OfKind (integer : PyStr → Prop) (names : List PyStr) : OperandKind → PyStr → Prop
  | .REGISTER, token => isidentifier token = true
  | .REGISTER_OR_IMMEDIATE, token => integer token ∨ token ∈ names ∨ isidentifier token = true
  | .OFFSET, token => integer token ∨ token ∈ names

/-- A line of the grammar: label definitions and perhaps a mnemonic with its operands. -/
inductive GrammarLine (listed : List PyStr → List PyStr → Prop) (integer : PyStr → Prop)
    (names : List PyStr) : PyStr → List PyStr → Prop where
  | blank {raw labels} : LineText raw labels none → GrammarLine listed integer names raw labels
  | instruction {raw labels mnemonic parts operands kinds} :
    LineText raw labels (some (mnemonic, parts)) → listed parts operands →
    Signature mnemonic kinds → List.Forall₂ (OfKind integer names) kinds operands →
    GrammarLine listed integer names raw labels

/-- A text of the grammar: every line is one, and no label is defined twice. -/
def Grammatical (listed : List PyStr → List PyStr → Prop) (integer : PyStr → Prop)
    (source : PyStr) : Prop :=
  ∃ labels : List (List PyStr),
    List.Forall₂ (GrammarLine listed integer labels.flatten) (splitlines source) labels ∧
      labels.flatten.Nodup

/-- What holds of the operand texts of every line. -/
def EveryStatement (good : List PyStr → Prop) (raws : List PyStr) : Prop :=
  ∀ raw ∈ raws, ∀ labels mnemonic parts, LineText raw labels (some (mnemonic, parts)) → good parts

/-- No line has an empty text before, between or after its commas. -/
def NoEmptyOperand (source : PyStr) : Prop :=
  EveryStatement (fun parts => parts = [[]] ∨ [] ∉ parts) (splitlines source)

/-- No line has an integer literal with too many digits among its operand texts. -/
def NoLongLiteral (source : PyStr) : Prop :=
  EveryStatement (fun parts => ∀ part ∈ parts, ¬LongLiteral part) (splitlines source)

/-- What the Unicode database says of the characters that begin an identifier: they are neither
    white space nor decimal digits. -/
def StartsAreLetters : Prop :=
  ∀ c : PyChar, UnicodeData.xidStart c = true → isSpace c = false ∧ UnicodeData.decimal c = none

/-! ## Tokens -/

/-- What `int` reads. -/
lemma int0_reads {token : PyStr} : (int0 token).isSome = true ↔ ReadLiteral token := int0_isSome

/-- An identifier is no integer literal. -/
lemma identifier_not_literal (letters : StartsAreLetters) {token : PyStr}
    (h : isidentifier token = true) : ¬IntegerLiteral token := by
  cases token with
  | nil => cases h
  | cons c cs =>
    have start : isIdentifierStart c = true := (Bool.and_eq_true_iff.mp h).1
    rcases Bool.or_eq_true_iff.mp start with under | letter
    · have label : LabelStart c := by rw [LabelStart, under, Bool.or_true]
      exact label.not_literal cs
    · split at letter
      · have label : LabelStart c := by rw [LabelStart, letter, Bool.true_or]
        exact label.not_literal cs
      · rename_i foreign
        -- Such a character is rewritten to a question mark.
        obtain ⟨space, digit⟩ := letters c letter
        have mixed : ¬(c :: cs).all (·.val < 128) = true := by simp [foreign]
        have ascii : ∃ ds, toAsciiDecimal (c :: cs) = 63 :: ds := by
          rw [toAsciiDecimal, if_neg mixed, List.map_cons, if_neg foreign, if_neg (by simp [space]),
            digit]
          exact ⟨_, rfl⟩
        exact not_literal ascii (by decide) (by decide) (by decide)

lemma identifier_int0 (letters : StartsAreLetters) {token : PyStr}
    (h : isidentifier token = true) : int0 token = none :=
  int0_eq_none (identifier_not_literal letters h)

variable {table : Labels} (line : LineDto) {token : PyStr}

lemma resolveRegister_returns (letters : StartsAreLetters) :
    (∃ name, resolveRegister token line = .ok name) ↔ isidentifier token = true := by
  unfold resolveRegister
  constructor
  · rintro ⟨name, h⟩
    split at h
    · cases h
    · rename_i ok
      simp only [Bool.or_eq_true, not_or, Bool.not_eq_true', Bool.not_eq_false] at ok
      exact ok.2
  · intro h
    have number := identifier_int0 letters h
    exact ⟨token, by simp [number, h]⟩

lemma resolveConstant_returns :
    (∃ value, resolveConstant token table line = .ok value) ↔
      OfKind ReadLiteral (table.map Prod.fst) .OFFSET token := by
  rw [OfKind, ← lookup_isSome_iff, ← int0_reads]
  unfold resolveConstant
  cases int0 token with
  | some literal => simp
  | none => cases table.lookup token <;> simp

lemma resolveOffset_returns :
    (∃ value, resolveOffset token table line = .ok value) ↔
      OfKind ReadLiteral (table.map Prod.fst) .OFFSET token := by
  rw [OfKind, ← lookup_isSome_iff, ← int0_reads]
  unfold resolveOffset
  cases int0 token with
  | some literal => simp
  | none => cases table.lookup token <;> simp

lemma resolveRegOrImmediate_returns (letters : StartsAreLetters) :
    (∃ operand, resolveRegOrImmediate token table line = .ok operand) ↔
      OfKind ReadLiteral (table.map Prod.fst) .REGISTER_OR_IMMEDIATE token := by
  rw [OfKind, ← lookup_isSome_iff, ← resolveRegister_returns line letters, ← int0_reads]
  unfold resolveRegOrImmediate
  cases int0 token with
  | some literal => simp
  | none =>
    cases table.lookup token with
    | some index => simp
    | none =>
      simp only [Option.isSome_none, Bool.false_eq_true, false_or]
      constructor
      · rintro ⟨operand, h⟩
        obtain ⟨name, r, -⟩ := Fallible.bind_eq_ok.mp h
        exact ⟨name, r⟩
      · rintro ⟨name, r⟩
        exact ⟨.reg name, Fallible.bind_eq_ok.mpr ⟨name, r, rfl⟩⟩

/-! ## Lines -/

lemma fillOperand_returns (letters : StartsAreLetters) (instr : InstructionDto) (spec : OperandSpec) :
    (∃ instr', fillOperand table line instr spec token = .ok instr') ↔
      OfKind ReadLiteral (table.map Prod.fst) spec.kind token := by
  obtain ⟨field, kind⟩ := spec
  cases kind with
  | REGISTER =>
    rw [OfKind, ← resolveRegister_returns line letters]
    constructor
    · rintro ⟨instr', h⟩
      obtain ⟨name, r, -⟩ := Fallible.bind_eq_ok.mp h
      exact ⟨name, r⟩
    · rintro ⟨name, r⟩
      cases field <;> exact ⟨_, Fallible.bind_eq_ok.mpr ⟨name, r, rfl⟩⟩
  | REGISTER_OR_IMMEDIATE =>
    rw [← resolveRegOrImmediate_returns line letters]
    constructor
    · rintro ⟨instr', h⟩
      obtain ⟨operand, r, -⟩ := Fallible.bind_eq_ok.mp h
      exact ⟨operand, r⟩
    · rintro ⟨operand, r⟩
      exact ⟨_, Fallible.bind_eq_ok.mpr ⟨operand, r, rfl⟩⟩
  | OFFSET =>
    rw [← resolveOffset_returns line]
    constructor
    · rintro ⟨instr', h⟩
      obtain ⟨offset, r, -⟩ := Fallible.bind_eq_ok.mp h
      exact ⟨offset, r⟩
    · rintro ⟨offset, r⟩
      exact ⟨_, Fallible.bind_eq_ok.mpr ⟨offset, r, rfl⟩⟩

lemma fillOperands_returns (letters : StartsAreLetters) {specs : List OperandSpec}
    {tokens : List PyStr} (len : tokens.length = specs.length) (instr : InstructionDto) :
    (∃ instr', fillOperands table line instr (specs.zip tokens) = .ok instr') ↔
      List.Forall₂ (OfKind ReadLiteral (table.map Prod.fst)) (specs.map OperandSpec.kind) tokens := by
  induction specs generalizing tokens instr with
  | nil =>
    cases List.length_eq_zero_iff.mp len
    exact ⟨fun _ => .nil, fun _ => ⟨instr, rfl⟩⟩
  | cons spec specs ih =>
    cases tokens with
    | nil => cases len
    | cons token tokens =>
      have len' := Nat.succ.inj len
      rw [List.map_cons, List.forall₂_cons, ← fillOperand_returns line letters instr spec]
      constructor
      · rintro ⟨instr', h⟩
        obtain ⟨mid, first, rest⟩ := fillOperands_cons h
        exact ⟨⟨mid, first⟩, (ih len' mid).mp ⟨instr', rest⟩⟩
      · rintro ⟨⟨mid, first⟩, rest⟩
        obtain ⟨instr', rest⟩ := (ih len' mid).mpr rest
        exact ⟨instr', Fallible.bind_eq_ok.mpr ⟨mid, first, rest⟩⟩

variable {line}

/-- A statement is emitted just when its mnemonic has a signature that the operands match. -/
lemma emitLine_returns (letters : StartsAreLetters) {mnemonic : PyStr}
    (named : line.mnemonic = some mnemonic) :
    (∃ here, emitLine line table = .ok here) ↔ ∃ kinds, Signature mnemonic kinds ∧
      List.Forall₂ (OfKind ReadLiteral (table.map Prod.fst)) kinds line.operands := by
  constructor
  · rintro ⟨here, h⟩
    rcases emitLine_cases h with ⟨blank, -⟩ | ⟨set, h⟩ | ⟨mov, h⟩ |
      ⟨_, opcode, instr, some, -, -, look, len, fill, -⟩
    · cases named.symm.trans blank
    · cases named.symm.trans set
      obtain ⟨reg, const, register, value, operands, r, c, -⟩ := emitSet_ok h
      refine ⟨_, .set, ?_⟩
      rw [operands]
      exact .cons ((resolveRegister_returns line letters).mp ⟨_, r⟩)
        (.cons ((resolveConstant_returns line).mp ⟨_, c⟩) .nil)
    · cases named.symm.trans mov
      obtain ⟨dst, src, dest, source, operands, r, r', -⟩ := emitMov_ok h
      refine ⟨_, .mov, ?_⟩
      rw [operands]
      exact .cons ((resolveRegister_returns line letters).mp ⟨_, r⟩)
        (.cons ((resolveRegister_returns line letters).mp ⟨_, r'⟩) .nil)
    · cases named.symm.trans some
      cases lookup_mnemonic look
      exact ⟨_, .opcode opcode, (fillOperands_returns line letters len _).mp ⟨_, fill⟩⟩
  · rintro ⟨kinds, sig, kinded⟩
    cases sig with
    | opcode opcode =>
      have len : line.operands.length = (OPERAND_SPECS opcode).length := by
        rw [← kinded.length_eq, List.length_map]
      obtain ⟨instr, fill⟩ := (fillOperands_returns line letters len { opcode := opcode }).mpr kinded
      exact ⟨_, emitLine_opcode named len fill⟩
    | set =>
      obtain ⟨reg, const, operands⟩ := List.length_eq_two.mp kinded.length_eq.symm
      rw [operands] at kinded
      obtain ⟨first, rest⟩ := List.forall₂_cons.mp kinded
      obtain ⟨second, -⟩ := List.forall₂_cons.mp rest
      obtain ⟨register, r⟩ := (resolveRegister_returns line letters).mpr first
      obtain ⟨value, c⟩ := (resolveConstant_returns line).mpr second
      rw [emitLine_of_set named, emitSet, operands]
      exact ⟨_, Fallible.bind_eq_ok.mpr ⟨register, r, Fallible.bind_eq_ok.mpr ⟨value, c, rfl⟩⟩⟩
    | mov =>
      obtain ⟨dst, src, operands⟩ := List.length_eq_two.mp kinded.length_eq.symm
      rw [operands] at kinded
      obtain ⟨first, rest⟩ := List.forall₂_cons.mp kinded
      obtain ⟨second, -⟩ := List.forall₂_cons.mp rest
      obtain ⟨dest, r⟩ := (resolveRegister_returns line letters).mpr first
      obtain ⟨source, r'⟩ := (resolveRegister_returns line letters).mpr second
      rw [emitLine_of_mov named, emitMov, operands]
      exact ⟨_, Fallible.bind_eq_ok.mpr ⟨dest, r, Fallible.bind_eq_ok.mpr ⟨source, r', rfl⟩⟩⟩

/-- The mnemonics are well formed. -/
lemma Signature.wellFormed {mnemonic : PyStr} {kinds : List OperandKind}
    (h : Signature mnemonic kinds) : WellFormedMnemonic mnemonic := by
  cases h with
  | opcode opcode => exact value_wellFormed opcode
  | set => exact asciiIdentifier_wellFormed (by decide +kernel) (by decide +kernel)
  | mov => exact asciiIdentifier_wellFormed (by decide +kernel) (by decide +kernel)

/-! ## Texts -/

variable {raw : PyStr} {raws labels : List PyStr} {names : List PyStr} {address : ℤ}

/-- Every line that is assembled is a line of the lenient grammar. -/
lemma assembleLines_grammatical (letters : StartsAreLetters) {program : List InstructionDto}
    {defs : Labels} (h : assembleLines table address raws = .ok (program, defs)) :
    ∃ labels, List.Forall₂ (GrammarLine Lenient ReadLiteral (table.map Prod.fst)) raws labels ∧
      defs.map Prod.fst = labels.flatten := by
  induction raws generalizing address program defs with
  | nil =>
    cases h
    exact ⟨[], .nil, rfl⟩
  | cons raw raws ih =>
    obtain ⟨line, here, rest, defs', p, e, es, rfl, rfl⟩ := assembleLines_cons h
    obtain ⟨labels, lines, names⟩ := ih es
    have first : GrammarLine Lenient ReadLiteral (table.map Prod.fst) raw line.labels := by
      rcases parseLine_lineText p with ⟨text, -⟩ | ⟨mnemonic, parts, text, -, named, operands⟩
      · exact .blank text
      · obtain ⟨kinds, sig, kinded⟩ := (@emitLine_returns _ table (line.with_address address) letters
          mnemonic named).mp ⟨here, e⟩
        exact .instruction text operands sig kinded
    refine ⟨line.labels :: labels, .cons first lines, ?_⟩
    rw [List.map_append, names, List.flatten_cons, List.map_map]
    exact congrArg (· ++ labels.flatten) (List.map_id _)

/-- Every line of the lenient grammar is assembled, whatever addresses the labels have. -/
lemma grammatical_assembleLines (letters : StartsAreLetters) {labels : List (List PyStr)}
    (h : List.Forall₂ (GrammarLine Lenient ReadLiteral (table.map Prod.fst)) raws labels) (address : ℤ) :
    ∃ program defs, assembleLines table address raws = .ok (program, defs) ∧
      defs.map Prod.fst = labels.flatten := by
  induction h generalizing address with
  | nil => exact ⟨[], [], rfl, rfl⟩
  | @cons raw names raws labels first _ ih =>
    have emits : ∃ line here, parseLine 0 raw = .ok line ∧ line.labels = names ∧
        emitLine (line.with_address address) table = .ok here := by
      cases first with
      | blank text => exact ⟨_, [], parseLine_labels text, rfl, rfl⟩
      | @instruction mnemonic parts operands kinds text listed sig kinded =>
        cases listed
        let line : LineDto :=
          { lineno := 0, labels := names, mnemonic := some mnemonic
            operands := parts.filter (!·.isEmpty) }
        obtain ⟨here, e⟩ := (@emitLine_returns _ table (line.with_address address) letters mnemonic
          rfl).mpr ⟨kinds, sig, kinded⟩
        exact ⟨line, here, (parseLine_statement text).1 sig.wellFormed, rfl, e⟩
    obtain ⟨line, here, p, rfl, e⟩ := emits
    obtain ⟨program, defs, rest, same⟩ := ih (address + here.length)
    refine ⟨here ++ program, line.labels.map (·, address) ++ defs, ?_, ?_⟩
    · simp only [assembleLines, p, e, rest, bind, Except.bind]
    · rw [List.map_append, same, List.flatten_cons, List.map_map]
      exact congrArg (· ++ labels.flatten) (List.map_id _)

/-- Where the labels lie does not depend on the table. -/
lemma assembleLines_defs {table' : Labels} {program program' : List InstructionDto}
    {defs defs' : Labels} (h : assembleLines table address raws = .ok (program, defs))
    (h' : assembleLines table' address raws = .ok (program', defs')) : defs = defs' := by
  induction raws generalizing address program program' defs defs' with
  | nil =>
    cases h
    cases h'
    rfl
  | cons raw raws ih =>
    obtain ⟨line, here, rest, defs, p, e, es, rfl, rfl⟩ := assembleLines_cons h
    obtain ⟨line', here', rest', defs', p', e', es', rfl, rfl⟩ := assembleLines_cons h'
    cases p.symm.trans p'
    have len : here.length = here'.length := (emitLine_size e).trans (emitLine_size e').symm
    rw [len] at es
    rw [ih es es']

/-- The assembler returns just for the texts of the lenient grammar. -/
lemma assemble_returns (letters : StartsAreLetters) {source : PyStr} :
    (∃ assembly, assemble source = .ok assembly) ↔ Grammatical Lenient ReadLiteral source := by
  constructor
  · rintro ⟨assembly, h⟩
    obtain ⟨ok, nodup⟩ := assemble_iff.mp h
    obtain ⟨labels, lines, names⟩ := assembleLines_grammatical letters ok
    exact ⟨labels, names ▸ lines, names ▸ nodup⟩
  · rintro ⟨labels, lines, nodup⟩
    -- The addresses of the labels are found with a table that has the labels at no address yet.
    have blank : (labels.flatten.map fun l => (l, (0 : ℤ))).map Prod.fst = labels.flatten := by
      rw [List.map_map]
      exact List.map_id _
    obtain ⟨_, table, placed, names⟩ := grammatical_assembleLines letters (blank.symm ▸ lines) 0
    obtain ⟨program, defs, ok, -⟩ := grammatical_assembleLines letters (names.symm ▸ lines) 0
    cases assembleLines_defs placed ok
    exact ⟨⟨program, table⟩, assemble_iff.mpr ⟨ok, names.symm ▸ nodup⟩⟩

/-! ## Exceptions -/

section Lines

variable {listed listed' : List PyStr → List PyStr → Prop} {integer integer' : PyStr → Prop}
  {labelss : List (List PyStr)} {good : List PyStr → Prop}

/-- Lines of one grammar are lines of another one, where their operand texts allow it. -/
lemma lines_refine (h : List.Forall₂ (GrammarLine listed integer names) raws labelss)
    (fine : EveryStatement good raws)
    (refines : ∀ parts operands kinds, good parts → listed parts operands →
      List.Forall₂ (OfKind integer names) kinds operands →
      listed' parts operands ∧ List.Forall₂ (OfKind integer' names) kinds operands) :
    List.Forall₂ (GrammarLine listed' integer' names) raws labelss := by
  induction h with
  | nil => exact .nil
  | @cons raw labels raws labelss first _ ih =>
    obtain ⟨here, others⟩ := List.forall_mem_cons.mp fine
    refine .cons ?_ (ih others)
    cases first with
    | blank text => exact .blank text
    | instruction text list sig kinded =>
      obtain ⟨list, kinded⟩ := refines _ _ _ (here _ _ _ text) list kinded
      exact .instruction text list sig kinded

/-- What holds of the operand texts of every line of a grammar. -/
lemma lines_every (h : List.Forall₂ (GrammarLine listed integer names) raws labelss)
    (fine : ∀ parts operands kinds, listed parts operands →
      List.Forall₂ (OfKind integer names) kinds operands → good parts) :
    EveryStatement good raws := by
  induction h with
  | nil => exact List.forall_mem_nil _
  | @cons raw labels raws labelss first _ ih =>
    refine List.forall_mem_cons.mpr ⟨?_, ih⟩
    intro labels' mnemonic parts text
    cases first with
    | blank text' => cases (text.unique text').2
    | instruction text' list _ kinded =>
      cases (text.unique text').2
      exact fine _ _ _ list kinded

/-- The labels of lines are no integer literals. -/
lemma lines_labels (h : List.Forall₂ (GrammarLine listed integer names) raws labelss) :
    ∀ name ∈ labelss.flatten, ¬IntegerLiteral name := by
  have defs : ∀ {text body : PyStr} {names : List PyStr}, LabelDefs text names body →
      ∀ name ∈ names, ¬IntegerLiteral name := by
    intro text body names h
    induction h with
    | nil => exact List.forall_mem_nil _
    | cons first _ ih =>
      obtain ⟨gap, -, ⟨c, cs, rfl, start, -⟩, -⟩ := first
      exact List.forall_mem_cons.mpr ⟨start.not_literal cs, ih⟩
  induction h with
  | nil => exact List.forall_mem_nil _
  | cons first _ ih =>
    refine List.forall_mem_append.mpr ⟨?_, ih⟩
    cases first with
    | blank text =>
      obtain ⟨code, body, -, labels, -⟩ := text
      exact defs labels
    | instruction text _ _ _ =>
      obtain ⟨code, body, -, labels, -⟩ := text
      exact defs labels

end Lines

variable {source : PyStr} {integer : PyStr → Prop}

/-- The lines of the grammar are those of the lenient one that have no empty operand. -/
lemma grammatical_listed : Grammatical Listed integer source ↔
    Grammatical Lenient integer source ∧ NoEmptyOperand source := by
  constructor
  · rintro ⟨labels, lines, nodup⟩
    have full : NoEmptyOperand source :=
      lines_every lines fun parts operands kinds listed _ => listed.full
    have lenient := lines_refine lines full fun parts operands kinds _ listed kinded =>
      ⟨listed.lenient, kinded⟩
    exact ⟨⟨labels, lenient, nodup⟩, full⟩
  · rintro ⟨⟨labels, lines, nodup⟩, full⟩
    have listed := lines_refine lines full fun parts operands kinds full lenient kinded =>
      ⟨Lenient.listed lenient full, kinded⟩
    exact ⟨labels, listed, nodup⟩

/-- An operand that is assembled is no literal with too many digits. -/
lemma OfKind.short (letters : StartsAreLetters) (labels : ∀ name ∈ names, ¬IntegerLiteral name)
    {kind : OperandKind} {token : PyStr} (h : OfKind ReadLiteral names kind token) :
    ¬LongLiteral token := by
  intro long
  have name : isidentifier token = true → False := fun name =>
    identifier_not_literal letters name long.integer
  have label : token ∈ names → False := fun mem => labels token mem long.integer
  cases kind with
  | REGISTER => exact name h
  | REGISTER_OR_IMMEDIATE =>
    rcases h with read | h | h
    · exact read.2 long
    · exact label h
    · exact name h
  | OFFSET =>
    rcases h with read | h
    · exact read.2 long
    · exact label h

/-- An operand that `int` reads is one of the grammar, and one of the grammar that is not too long is
    read. -/
lemma ofKind_read {kind : OperandKind} {token : PyStr} (short : ¬LongLiteral token) :
    OfKind ReadLiteral names kind token ↔ OfKind IntegerLiteral names kind token := by
  have same : ReadLiteral token ↔ IntegerLiteral token := and_iff_left short
  cases kind with
  | REGISTER => exact Iff.rfl
  | REGISTER_OR_IMMEDIATE => rw [OfKind, OfKind, same]
  | OFFSET => rw [OfKind, OfKind, same]

lemma operands_read {kinds : List OperandKind} {operands : List PyStr}
    (short : ∀ token ∈ operands, ¬LongLiteral token) :
    List.Forall₂ (OfKind ReadLiteral names) kinds operands ↔
      List.Forall₂ (OfKind IntegerLiteral names) kinds operands := by
  induction operands generalizing kinds with
  | nil => rw [List.forall₂_nil_right_iff, List.forall₂_nil_right_iff]
  | cons token operands ih =>
    obtain ⟨here, others⟩ := List.forall_mem_cons.mp short
    rw [List.forall₂_cons_right_iff, List.forall₂_cons_right_iff]
    simp only [ofKind_read here, ih others]

/-- The operands that are assembled are no literals with too many digits. -/
lemma operands_short (letters : StartsAreLetters) (labels : ∀ name ∈ names, ¬IntegerLiteral name)
    {kinds : List OperandKind} {operands : List PyStr}
    (h : List.Forall₂ (OfKind ReadLiteral names) kinds operands) :
    ∀ token ∈ operands, ¬LongLiteral token := by
  induction h with
  | nil => exact List.forall_mem_nil _
  | cons first _ ih => exact List.forall_mem_cons.mpr ⟨first.short letters labels, ih⟩

/-- An operand text is an operand, or empty. -/
lemma Lenient.forall_mem {parts operands : List PyStr} (h : Lenient parts operands) :
    (∀ part ∈ parts, ¬LongLiteral part) ↔ ∀ token ∈ operands, ¬LongLiteral token := by
  rw [h]
  constructor
  · intro short token mem
    exact short token (List.mem_of_mem_filter mem)
  · intro short part mem long
    have full : (!part.isEmpty) = true := by
      cases part with
      | nil => exact absurd rfl long.integer.ne_nil
      | cons c part => rfl
    exact short part (List.mem_filter.mpr ⟨mem, full⟩) long

/-- The lines that are assembled are those of the lenient grammar without a literal that is too
    long. -/
lemma grammatical_read (letters : StartsAreLetters) : Grammatical Lenient ReadLiteral source ↔
    Grammatical Lenient IntegerLiteral source ∧ NoLongLiteral source := by
  constructor
  · rintro ⟨labels, lines, nodup⟩
    have short : NoLongLiteral source :=
      lines_every lines fun parts operands kinds lenient kinded =>
        (Lenient.forall_mem lenient).mpr (operands_short letters (lines_labels lines) kinded)
    have lenient := lines_refine lines short fun parts operands kinds short lenient kinded =>
      ⟨lenient, (operands_read ((Lenient.forall_mem lenient).mp short)).mp kinded⟩
    exact ⟨⟨labels, lenient, nodup⟩, short⟩
  · rintro ⟨⟨labels, lines, nodup⟩, short⟩
    have read := lines_refine lines short fun parts operands kinds short lenient kinded =>
      ⟨lenient, (operands_read ((Lenient.forall_mem lenient).mp short)).mpr kinded⟩
    exact ⟨labels, read, nodup⟩

/-- The assembler returns for exactly the texts of the lenient grammar whose literals `int` reads.
    So it accepts exactly the texts of the grammar, but for those texts of the lenient grammar that
    have either an empty operand or a literal with too many digits, and not both. -/
theorem assemble_accepts (letters : StartsAreLetters) (source : PyStr) :
    ((∃ assembly, assemble source = .ok assembly) ↔ Grammatical Lenient ReadLiteral source) ∧
      (((∃ assembly, assemble source = .ok assembly) ↔ Grammatical Listed IntegerLiteral source) ↔
        (Grammatical Lenient IntegerLiteral source →
          (NoLongLiteral source ↔ NoEmptyOperand source))) := by
  have returns : (∃ assembly, assemble source = .ok assembly) ↔
      Grammatical Lenient ReadLiteral source := assemble_returns letters
  refine ⟨returns, ?_⟩
  rw [returns, grammatical_read letters, grammatical_listed]
  exact and_congr_right_iff

end Texts

section Instances

attribute [local instance] UnicodeData.ascii

/-- An instruction, a label and a comment. -/
theorem assemble_accepts_loop :
    ((∃ assembly, assemble "L: JZ X, L ; loop" = .ok assembly) ↔
      Grammatical Lenient ReadLiteral "L: JZ X, L ; loop") ∧
    (((∃ assembly, assemble "L: JZ X, L ; loop" = .ok assembly) ↔
      Grammatical Listed IntegerLiteral "L: JZ X, L ; loop") ↔
        (Grammatical Lenient IntegerLiteral "L: JZ X, L ; loop" →
          (NoLongLiteral "L: JZ X, L ; loop" ↔ NoEmptyOperand "L: JZ X, L ; loop"))) :=
  assemble_accepts (fun _ start => by cases start) "L: JZ X, L ; loop"

/-- Two commas between two operands. -/
theorem empty_operand_accepted : (∃ assembly, assemble "ADD A,, B" = .ok assembly) ∧
    ¬Grammatical Listed IntegerLiteral "ADD A,, B" := by
  refine ⟨⟨⟨[.ADD "A" (.reg "B")], []⟩, by decide +kernel⟩, fun h => ?_⟩
  have lines : splitlines (py "ADD A,, B") = [py "ADD A,, B"] := by decide +kernel
  have text : LineText "ADD A,, B" [] (some (py "ADD", [py "A", [], py "B"])) := by
    refine ⟨"ADD A,, B", "ADD A,, B", code_iff.mpr ?_, (labelDefs_iff (Nat.le_refl _)).mpr ?_,
      statement_iff.mpr ?_⟩ <;> decide +kernel
  have full := (grammatical_listed.mp h).2
  rcases full (py "ADD A,, B") (by rw [lines]; exact List.mem_singleton_self _) _ _ _ text with
    single | full
  · cases single
  · exact full (by simp)

end Instances

end MinCpuForth.Assembler
