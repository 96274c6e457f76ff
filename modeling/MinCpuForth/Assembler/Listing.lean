import MinCpuForth.Assembler.Ascii
import MinCpuForth.Assembler.TwoPass

/-!
# Assembling against a known label table

A long text is assembled piece by piece: each piece is parsed and emitted from its own address on,
against the label table of the whole. When the labels that the pieces define make up that table,
the concatenation of the pieces is what the assembler returns.
-/

namespace MinCpuForth.Assembler
open Python Domain Lib

/-- Assembles lines from an address on against a label table; returns the program and the labels
    that the lines define. -/
def assembleLines [UnicodeData] (table : Labels) :
    ℤ → List PyStr → Except AssemblerError (List InstructionDto × Labels)
  | _, [] => .ok ([], [])
  | address, raw :: raws => do
    let line ← parseLine 0 raw
    let here ← emitLine (line.with_address address) table
    let (program, labels) ← assembleLines table (address + here.length) raws
    .ok (here ++ program, line.labels.map (·, address) ++ labels)

/-- One line is assembled, then the others. -/
lemma assembleLines_cons [UnicodeData] {table : Labels} {address : ℤ} {raw : PyStr}
    {raws : List PyStr} {program : List InstructionDto} {labels : Labels}
    (h : assembleLines table address (raw :: raws) = .ok (program, labels)) :
    ∃ line here rest labels', parseLine 0 raw = .ok line ∧
      emitLine (line.with_address address) table = .ok here ∧
      assembleLines table (address + here.length) raws = .ok (rest, labels') ∧
      program = here ++ rest ∧ labels = line.labels.map (·, address) ++ labels' := by
  obtain ⟨line, p, h⟩ := Fallible.bind_eq_ok.mp h
  obtain ⟨here, r, h⟩ := Fallible.bind_eq_ok.mp h
  obtain ⟨q, t, h⟩ := Fallible.bind_eq_ok.mp h
  cases h
  exact ⟨line, here, q.1, q.2, p, r, t, rfl, rfl⟩

/-- Pieces of text, one after the other. -/
lemma assembleLines_append [UnicodeData] {table : Labels} {address : ℤ} {raws raws' : List PyStr}
    {program program' : List InstructionDto} {labels labels' : Labels}
    (h : assembleLines table address raws = .ok (program, labels))
    (h' : assembleLines table (address + program.length) raws' = .ok (program', labels')) :
    assembleLines table address (raws ++ raws') = .ok (program ++ program', labels ++ labels') := by
  induction raws generalizing address program labels with
  | nil =>
    cases h
    simpa using h'
  | cons raw raws ih =>
    obtain ⟨line, here, rest, labels'', p, r, t, rfl, rfl⟩ := assembleLines_cons h
    have next := ih t (by
      rw [List.length_append] at h'
      push_cast at h'
      rwa [← Int.add_assoc] at h')
    simp only [List.cons_append, assembleLines, p, r, next, bind, Except.bind, List.append_assoc]

/-- The Unicode database does not matter for ASCII text. -/
lemma assembleLines_ascii (U V : UnicodeData) {table : Labels} {address : ℤ} {raws : List PyStr}
    (h : ∀ raw ∈ raws, Ascii raw) :
    @assembleLines U table address raws = @assembleLines V table address raws := by
  induction raws generalizing address with
  | nil => rfl
  | cons raw raws ih =>
    obtain ⟨hraw, hraws⟩ := List.forall_mem_cons.mp h
    have rest : ∀ a, @assembleLines U table a raws = @assembleLines V table a raws :=
      fun a => ih hraws
    simp only [assembleLines, parseLine_ascii U V 0 hraw]
    refine Fallible.bind_congr fun line p => ?_
    have tokens : ∀ token ∈ (line.with_address address).operands, Ascii token :=
      fun token mem => hraw.mono (parseLine_operands p mem)
    rw [emitLine_ascii U V tokens]
    refine Fallible.bind_congr fun here _ => ?_
    rw [rest]

/-! ## Line numbers -/

section Lineno

variable [UnicodeData] {line : LineDto} (k : ℕ)

/-- The line number is copied to the line, and used for nothing else. -/
lemma parseLine_lineno {j : ℕ} {raw : PyStr} (h : parseLine j raw = .ok line) :
    parseLine k raw = .ok { line with lineno := k } := by
  unfold parseLine at h ⊢
  dsimp only at h ⊢
  split at h
  · rename_i blank
    cases h
    rw [if_pos blank]
  · rename_i code
    rw [if_neg code]
    obtain ⟨p, r, h⟩ := Fallible.bind_eq_ok.mp h
    rw [r]
    cases h
    rfl

/-- How a register is read does not depend on the line. -/
lemma resolveRegister_anywhere {token name : PyStr} (h : resolveRegister token line = .ok name)
    (line' : LineDto) : resolveRegister token line' = .ok name := by
  unfold resolveRegister at h ⊢
  split at h
  · cases h
  · rename_i ok
    rw [if_neg ok]
    exact h

lemma resolveConstant_lineno {labels : Labels} {token : PyStr} {value : ℤ}
    (h : resolveConstant token labels line = .ok value) :
    resolveConstant token labels { line with lineno := k } = .ok value := by
  unfold resolveConstant at h ⊢
  split
  · rename_i found
    simpa only [found] using h
  · rename_i number
    simp only [number] at h
    split
    · rename_i found
      simpa only [found] using h
    · rename_i unknown
      simp only [unknown] at h
      cases h

lemma fillOperand_lineno {labels : Labels} {instr instr' : InstructionDto} {spec : OperandSpec}
    {token : PyStr} (h : fillOperand labels line instr spec token = .ok instr') :
    fillOperand labels { line with lineno := k } instr spec token = .ok instr' := by
  obtain ⟨field, kind⟩ := spec
  cases kind with
  | REGISTER =>
    simp only [fillOperand] at h ⊢
    cases r : resolveRegister token line with
    | error e => rw [r] at h; cases h
    | ok name =>
      rw [resolveRegister_anywhere r]
      rwa [r] at h
  | REGISTER_OR_IMMEDIATE =>
    simp only [fillOperand, resolveRegOrImmediate] at h ⊢
    split
    · rename_i found
      simpa only [found] using h
    · rename_i number
      simp only [number] at h
      split
      · rename_i found
        simpa only [found] using h
      · rename_i unknown
        simp only [unknown] at h
        cases r : resolveRegister token line with
        | error e => rw [r] at h; cases h
        | ok name =>
          rw [resolveRegister_anywhere r]
          rwa [r] at h
  | OFFSET =>
    simp only [fillOperand, resolveOffset] at h ⊢
    split
    · rename_i found
      simpa only [found] using h
    · rename_i number
      simp only [number] at h
      split
      · rename_i found
        simpa only [found] using h
      · rename_i unknown
        simp only [unknown] at h
        cases h

lemma fillOperands_lineno {labels : Labels} {instr instr' : InstructionDto}
    {items : List (OperandSpec × PyStr)} (h : fillOperands labels line instr items = .ok instr') :
    fillOperands labels { line with lineno := k } instr items = .ok instr' := by
  induction items generalizing instr with
  | nil => exact h
  | cons item items ih =>
    obtain ⟨mid, h₁, h₂⟩ := fillOperands_cons h
    simp only [fillOperands, fillOperand_lineno k h₁, bind, Except.bind]
    exact ih h₂

/-- What a line emits does not depend on its number. -/
lemma emitLine_lineno {labels : Labels} {program : List InstructionDto}
    (h : emitLine line labels = .ok program) :
    emitLine { line with lineno := k } labels = .ok program := by
  obtain ⟨lineno, names, mnemonic, operands, address⟩ := line
  rcases emitLine_cases h with ⟨none, rfl⟩ | ⟨set, h⟩ | ⟨mov, h⟩ |
    ⟨_, opcode, instr, some, notSet, notMov, look, len, fill, rfl⟩
  · cases none
    rfl
  · obtain ⟨reg, const, register, value, ops, r, c, rfl⟩ := emitSet_ok h
    cases set
    cases ops
    have r' := resolveRegister_anywhere r
    have c' := resolveConstant_lineno k c
    simp only [emitLine, if_true, emitSet, r', c', bind, Except.bind]
    rfl
  · have ne : MOV_MNEMONIC ≠ SET_MNEMONIC := by simp [MOV_MNEMONIC, SET_MNEMONIC]
    obtain ⟨dst, src, dest, source, ops, r, r', rfl⟩ := emitMov_ok h
    cases mov
    cases ops
    have s := resolveRegister_anywhere r
    have s' := resolveRegister_anywhere r'
    simp only [emitLine, ne, if_true, if_false, emitMov, s, s', bind, Except.bind]
    rfl
  · cases some
    have fill' := fillOperands_lineno k fill
    simp only [emitLine, notSet, notMov, look, if_false, len, ne_eq, not_true_eq_false, fill', bind,
      Except.bind]

end Lineno

/-! ## From the pieces to the assembler -/

/-- A line without line boundaries. -/
def SingleLine (raw : PyStr) : Prop := ∀ c ∈ raw, isLineBreak c = false

/-- Whether a text consists of ASCII characters on a single line. -/
def plainLine (raw : PyStr) : Bool := raw.all fun c => c.val < 128 && !isLineBreak c

lemma plainLine_iff {raw : PyStr} : plainLine raw = true ↔ Ascii raw ∧ SingleLine raw := by
  simp only [plainLine, List.all_eq_true, Bool.and_eq_true, decide_eq_true_eq, Bool.not_eq_true']
  exact ⟨fun h => ⟨fun c mem => (h c mem).1, fun c mem => (h c mem).2⟩,
    fun h c mem => ⟨h.1 c mem, h.2 c mem⟩⟩

/-- Splitting up to the next line feed. -/
lemma splitlinesLoop_line {line raw rest : PyStr} (h : SingleLine raw) :
    splitlinesLoop false line (raw ++ 10 :: rest) =
      (line.reverse ++ raw) :: splitlinesLoop false [] rest := by
  induction raw generalizing line with
  | nil =>
    have feed : isLineBreak 10 = true := by decide
    have plain : ((10 : PyChar).val == 13) = false := by decide
    simp only [List.nil_append, splitlinesLoop, Bool.false_and, feed, plain, List.append_nil]
    rfl
  | cons c cs ih =>
    obtain ⟨hc, hcs⟩ := List.forall_mem_cons.mp h
    simp only [List.cons_append, splitlinesLoop, hc, Bool.false_and]
    rw [if_neg (by simp), if_neg (by simp), ih hcs]
    simp

/-- Splitting a text into its lines. -/
lemma splitlines_unlines {raws : List PyStr} (h : ∀ raw ∈ raws, SingleLine raw) :
    splitlines (unlines raws) = raws := by
  induction raws with
  | nil => rfl
  | cons raw raws ih =>
    obtain ⟨hraw, hraws⟩ := List.forall_mem_cons.mp h
    have e : unlines (raw :: raws) = raw ++ 10 :: unlines raws := by simp [unlines]
    rw [splitlines, e, splitlinesLoop_line hraw, List.reverse_nil, List.nil_append]
    exact congrArg _ (ih hraws)

/-- The lines of a text have no line boundary in them. -/
lemma splitlinesLoop_single {cr : Bool} {line s raw : PyStr} (h : SingleLine line)
    (mem : raw ∈ splitlinesLoop cr line s) : SingleLine raw := by
  have reversed : ∀ {l : PyStr}, SingleLine l → SingleLine l.reverse :=
    fun single c m => single c (List.mem_reverse.mp m)
  induction s generalizing cr line with
  | nil =>
    unfold splitlinesLoop at mem
    split at mem
    · cases mem
    · rw [List.mem_singleton.mp mem]
      exact reversed h
  | cons c s ih =>
    unfold splitlinesLoop at mem
    split at mem
    · exact ih (List.forall_mem_nil _) mem
    · split at mem
      · cases mem with
        | head => exact reversed h
        | tail _ mem => exact ih (List.forall_mem_nil _) mem
      · rename_i inside
        exact ih (List.forall_mem_cons.mpr ⟨eq_false_of_ne_true inside, h⟩) mem

lemma splitlines_single {s raw : PyStr} (mem : raw ∈ splitlines s) : SingleLine raw :=
  splitlinesLoop_single (List.forall_mem_nil _) mem

lemma lookup_isSome_iff {table : Labels} {token : PyStr} :
    (table.lookup token).isSome = true ↔ token ∈ table.map Prod.fst := by
  simp only [List.lookup_isSome_iff, List.mem_map, beq_iff_eq]
  exact ⟨fun ⟨p, mem, e⟩ => ⟨p, mem, e.symm⟩, fun ⟨p, mem, e⟩ => ⟨p, mem, e.symm⟩⟩

/-- A name that a table does not have. -/
lemma lookup_absent {table : Labels} {token : PyStr} (absent : token ∉ table.map Prod.fst) :
    table.lookup token = none :=
  Option.not_isSome_iff_eq_none.mp fun found => absent (lookup_isSome_iff.mp found)

/-- New labels are entered at the end of the table. -/
lemma defineLabels_fresh {lineno : ℕ} {address : ℤ} {labels : Labels} {names : List PyStr}
    (h : (labels.map Prod.fst ++ names).Nodup) :
    defineLabels lineno address labels names = .ok (labels ++ names.map (·, address)) := by
  induction names generalizing labels with
  | nil => simp [defineLabels]
  | cons name names ih =>
    have new : labels.lookup name = none := by
      rw [List.lookup_eq_none_iff]
      rintro ⟨l, a⟩ mem
      have ne := (List.nodup_append.mp h).2.2 l (List.mem_map_of_mem mem) name (List.mem_cons_self ..)
      simpa using Ne.symm ne
    have rest : ((labels ++ [(name, address)]).map Prod.fst ++ names).Nodup := by
      simpa using h
    simp only [defineLabels, new, Option.isSome_none, Bool.false_eq_true, if_false, ih rest]
    simp

/-- What is assembled against a table passes the stages of the assembler. -/
lemma assembleLines_stages [UnicodeData] (before : Labels) {table defs : Labels} {address : ℤ}
    {raws : List PyStr} {program : List InstructionDto}
    (h : assembleLines table address raws = .ok (program, defs))
    (nodup : ((before ++ defs).map Prod.fst).Nodup) (lineno : ℕ) :
    ∃ lines resolved, parseLines lineno raws = .ok lines ∧
      resolveLoop before address lines = .ok ⟨resolved, before ++ defs⟩ ∧
      emitLines table resolved = .ok program := by
  induction raws generalizing before address program defs lineno with
  | nil =>
    cases h
    exact ⟨[], [], rfl, by rw [List.append_nil]; rfl, rfl⟩
  | cons raw raws ih =>
    obtain ⟨line, here, rest, defs', p, r, t, rfl, rfl⟩ := assembleLines_cons h
    rw [← List.append_assoc] at nodup
    obtain ⟨lines, resolved, hp, hr, he⟩ := ih _ t nodup (lineno + 1)
    have r' := emitLine_lineno lineno r
    have size_eq : (here.length : ℤ) = size { line with lineno := lineno } := by
      rw [emitLine_size r]
      rfl
    have defined : defineLabels lineno address before line.labels =
        .ok (before ++ line.labels.map (·, address)) := by
      refine defineLabels_fresh ((List.sublist_append_left _ (defs'.map Prod.fst)).nodup ?_)
      simpa [List.map_append, Function.comp_def] using nodup
    refine ⟨{ line with lineno := lineno } :: lines,
      ({ line with lineno := lineno } : LineDto).with_address address :: resolved, ?_, ?_, ?_⟩
    · simp only [parseLines, parseLine_lineno lineno p, hp, bind, Except.bind]
    · rw [size_eq] at hr
      simp only [resolveLoop, defined, hr, bind, Except.bind, List.append_assoc]
    · have r'' : emitLine (({ line with lineno := lineno } : LineDto).with_address address) table =
          .ok here := r'
      simp only [emitLines, r'', he, bind, Except.bind]

/-- Labels that are entered are new, and go to the end of the table. -/
lemma defineLabels_appends {lineno : ℕ} {address : ℤ} {labels labels' : Labels} {names : List PyStr}
    (h : defineLabels lineno address labels names = .ok labels')
    (nodup : (labels.map Prod.fst).Nodup) :
    labels' = labels ++ names.map (·, address) ∧ (labels'.map Prod.fst).Nodup := by
  induction names generalizing labels with
  | nil =>
    cases h
    exact ⟨(List.append_nil _).symm, nodup⟩
  | cons name names ih =>
    unfold defineLabels at h
    split at h
    · cases h
    · rename_i new
      have absent : name ∉ labels.map Prod.fst := by
        intro mem
        obtain ⟨⟨l, a⟩, entry, rfl⟩ := List.mem_map.mp mem
        have none : labels.lookup l = none := Option.not_isSome_iff_eq_none.mp new
        have other := List.lookup_eq_none_iff.mp none (l, a) entry
        simp at other
      have nodup' : ((labels ++ [(name, address)]).map Prod.fst).Nodup := by
        rw [List.map_append, List.map_singleton]
        refine List.nodup_append.mpr ⟨nodup, List.pairwise_singleton _ _, fun l mem l' mem' => ?_⟩
        rw [List.mem_singleton.mp mem']
        rintro rfl
        exact absent mem
      obtain ⟨rfl, nodup''⟩ := ih h nodup'
      exact ⟨by simp, nodup''⟩

/-- What passes the stages of the assembler is assembled against the table that they build. -/
lemma stages_assembleLines [UnicodeData] {before table : Labels} {address : ℤ} {lineno : ℕ}
    {raws : List PyStr} {lines : List LineDto} {resolved : ResolvedProgramDto}
    {program : List InstructionDto} (parsed : parseLines lineno raws = .ok lines)
    (res : resolveLoop before address lines = .ok resolved)
    (emitted : emitLines table resolved.lines = .ok program)
    (nodup : (before.map Prod.fst).Nodup) :
    ∃ defs, resolved.labels = before ++ defs ∧ (resolved.labels.map Prod.fst).Nodup ∧
      assembleLines table address raws = .ok (program, defs) := by
  induction raws generalizing before address lineno lines resolved program with
  | nil =>
    cases parsed
    cases res
    cases emitted
    exact ⟨[], (List.append_nil _).symm, nodup, rfl⟩
  | cons raw raws ih =>
    obtain ⟨line, p, parsed⟩ := Fallible.bind_eq_ok.mp parsed
    obtain ⟨lines, ps, parsed⟩ := Fallible.bind_eq_ok.mp parsed
    cases parsed
    obtain ⟨labels, d, res⟩ := Fallible.bind_eq_ok.mp res
    obtain ⟨rest, r, res⟩ := Fallible.bind_eq_ok.mp res
    cases res
    obtain ⟨here, program, e, es, rfl⟩ := emitLines_cons emitted
    obtain ⟨rfl, nodup'⟩ := defineLabels_appends d nodup
    obtain ⟨defs, table_eq, nodup'', rest_ok⟩ := ih ps r es nodup'
    have p' := parseLine_lineno 0 p
    have e' : emitLine (({ line with lineno := 0 } : LineDto).with_address address) table =
        .ok here := emitLine_lineno 0 e
    have size_eq : address + size line = address + here.length := by
      rw [emitLine_size e]
      rfl
    rw [size_eq] at rest_ok
    refine ⟨line.labels.map (·, address) ++ defs, ?_, nodup'', ?_⟩
    · rw [table_eq, List.append_assoc]
    · simp only [assembleLines, p', e', rest_ok, bind, Except.bind]

/-- Assembling a text is assembling its lines against the table that they define. -/
lemma assemble_iff [UnicodeData] {source : PyStr} {assembly : AssemblyDto} :
    assemble source = .ok assembly ↔
      assembleLines assembly.labels 0 (splitlines source) =
        .ok (assembly.program, assembly.labels) ∧ (assembly.labels.map Prod.fst).Nodup := by
  constructor
  · intro h
    obtain ⟨lines, resolved, parsed, res, emitted, labels⟩ := assemble_ok h
    obtain ⟨defs, table_eq, nodup, ok⟩ := stages_assembleLines parsed res emitted List.nodup_nil
    rw [List.nil_append] at table_eq
    rw [labels]
    exact ⟨table_eq ▸ ok, nodup⟩
  · rintro ⟨h, nodup⟩
    obtain ⟨lines, resolved, hp, hr, he⟩ := assembleLines_stages [] h nodup 1
    simp only [assemble, parse, hp, resolve, hr, emit, he, bind, Except.bind, List.nil_append]

/-- A text whose pieces define the table that they are assembled against. -/
theorem assemble_unlines [UnicodeData] {table : Labels} {raws : List PyStr}
    {program : List InstructionDto} (single : ∀ raw ∈ raws, SingleLine raw)
    (h : assembleLines table 0 raws = .ok (program, table))
    (nodup : (table.map Prod.fst).Nodup) :
    assemble (unlines raws) = .ok ⟨program, table⟩ := by
  refine assemble_iff.mpr ⟨?_, nodup⟩
  rw [splitlines_unlines single]
  exact h

end MinCpuForth.Assembler
