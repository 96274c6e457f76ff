import MinCpuForth.Assembler.Grammar
import MinCpuForth.Assembler.Listing

/-!
# Printed lines

A line that is put together from label definitions, a mnemonic with its operands, white space and a
comment is read back as these.
-/

namespace MinCpuForth.Assembler
open Python Domain

/-- The operands of an instruction, after a blank each, with commas between them. -/
def operandsText : List PyStr → PyStr
  | [] => []
  | [x] => 32 :: x
  | x :: y :: ys => 32 :: (x ++ 44 :: operandsText (y :: ys))

/-- The comment of a line, with its semicolon. -/
def commentText : Option PyStr → PyStr
  | none => []
  | some comment => 59 :: comment

/-- A text that can be an operand. -/
structure OperandText (text : PyStr) : Prop where
  trimmed : Trimmed text
  full : text ≠ []
  comma : 44 ∉ text
  semicolon : 59 ∉ text

/-- The operands are the texts between the commas. -/
lemma operandsText_parts {ops : List PyStr} {trail : PyStr} (ok : ∀ op ∈ ops, OperandText op)
    (blank : Blank trail) :
    Parts (operandsText ops ++ trail) (if ops = [] then [[]] else ops) := by
  have comma : ∀ {op : PyStr}, OperandText op → 44 ∉ 32 :: op := fun h mem => by
    cases mem with
    | tail _ mem => exact h.comma mem
  have behind : 44 ∉ trail := blank.not_mem (by decide)
  induction ops with
  | nil => exact .one behind ⟨.nil, [], trail, .nil, blank, rfl⟩
  | cons x ops ih =>
    obtain ⟨hx, hops⟩ := List.forall_mem_cons.mp ok
    rw [if_neg (List.cons_ne_nil _ _)]
    cases ops with
    | nil =>
      refine .one ?_ ⟨hx.trimmed, [32], trail, .space, blank, rfl⟩
      exact fun mem => (List.mem_append.mp mem).elim (comma hx) behind
    | cons y ys =>
      have rest := ih hops
      rw [if_neg (List.cons_ne_nil _ _)] at rest
      have shape : operandsText (x :: y :: ys) ++ trail =
          (32 :: x) ++ 44 :: (operandsText (y :: ys) ++ trail) := by
        simp [operandsText]
      rw [shape]
      exact .cons (comma hx) ⟨hx.trimmed, [32], [], .space, .nil, by simp⟩ rest

lemma operandsText_semicolon {ops : List PyStr} (ok : ∀ op ∈ ops, OperandText op) :
    59 ∉ operandsText ops := by
  induction ops with
  | nil => exact List.not_mem_nil
  | cons x ops ih =>
    obtain ⟨hx, hops⟩ := List.forall_mem_cons.mp ok
    have first := hx.semicolon
    cases ops with
    | nil => simpa [operandsText] using first
    | cons y ys =>
      have rest := ih hops
      simp [operandsText, first, rest]

section Lines

variable [UnicodeData]

/-- White space of which nothing is a word character either, as in every version of the database. -/
def Spacing (s : PyStr) : Prop := ∀ c ∈ s, isSpace c = true ∧ isWord c = false

lemma Spacing.blank {s : PyStr} (h : Spacing s) : Blank s := fun c mem => (h c mem).1

/-- An ASCII character that is no letter, no digit and no underscore is no word character. -/
lemma not_word {c : PyChar} (ascii : c.val < 128)
    (other : (isAsciiLetter c || isAsciiDigit c || isUnderscore c) = false) : isWord c = false := by
  obtain ⟨alnum, under⟩ := Bool.or_eq_false_iff.mp other
  rw [isWord, isAlnumChar, if_pos ascii, alnum, under]
  rfl

lemma LabelName.not_mem {name : PyStr} {c : PyChar} (h : LabelName name) (ascii : c.val < 128)
    (other : (isAsciiLetter c || isAsciiDigit c || isUnderscore c) = false) : c ∉ name := by
  obtain ⟨d, ds, rfl, start, words⟩ := h
  intro mem
  cases mem with
  | head =>
    simp only [Bool.or_eq_false_iff] at other
    simp only [LabelStart, other.1.1, other.2] at start
    cases start
  | tail _ mem =>
    have word := words c mem
    rw [not_word ascii other] at word
    cases word

/-- An identifier in ASCII. -/
def asciiIdentifier : PyStr → Bool
  | [] => false
  | c :: cs => (isAsciiLetter c || isUnderscore c) &&
    cs.all fun d => isAsciiLetter d || isAsciiDigit d || isUnderscore d

omit [UnicodeData] in
/-- The characters of identifiers are in ASCII, no white space, and none of those that structure a
    line. -/
lemma identifierChar_facts {c : PyChar}
    (h : (isAsciiLetter c || isAsciiDigit c || isUnderscore c) = true) :
    c.val < 128 ∧ isSpace c = false ∧ c ≠ 44 ∧ c ≠ 59 := by
  have comma : c = 44 → c.val = 44 := fun e => e ▸ rfl
  have semicolon : c = 59 → c.val = 59 := fun e => e ▸ rfl
  simp only [isAsciiLetter, isAsciiDigit, isUnderscore, Bool.or_eq_true, Bool.and_eq_true,
    decide_eq_true_eq, beq_iff_eq] at h
  have space : isSpace c = false := by
    simp only [isSpace, Bool.or_eq_false_iff, Bool.and_eq_false_iff, decide_eq_false_iff_not,
      beq_eq_false_iff_ne]
    omega
  refine ⟨by omega, space, fun e => ?_, fun e => ?_⟩
  · have code := comma e
    omega
  · have code := semicolon e
    omega

omit [UnicodeData] in
lemma asciiIdentifier_chars {name : PyStr} (h : asciiIdentifier name = true) :
    ∀ c ∈ name, (isAsciiLetter c || isAsciiDigit c || isUnderscore c) = true := by
  cases name with
  | nil => exact List.forall_mem_nil _
  | cons c cs =>
    obtain ⟨first, others⟩ := Bool.and_eq_true_iff.mp h
    refine List.forall_mem_cons.mpr ⟨?_, List.all_eq_true.mp others⟩
    rcases Bool.or_eq_true_iff.mp first with letter | under
    · rw [letter, Bool.true_or, Bool.true_or]
    · rw [under, Bool.or_true]

/-- An ASCII identifier can name a label. -/
lemma asciiIdentifier_label {name : PyStr} (h : asciiIdentifier name = true) : LabelName name := by
  have chars := asciiIdentifier_chars h
  cases name with
  | nil => cases h
  | cons c cs =>
    refine ⟨c, cs, rfl, (Bool.and_eq_true_iff.mp h).1, fun d mem => ?_⟩
    have char := chars d (List.mem_cons_of_mem _ mem)
    rw [isWord, isAlnumChar, if_pos (identifierChar_facts char).1]
    exact char

omit [UnicodeData] in
/-- An ASCII identifier has no white space. -/
lemma asciiIdentifier_solid {name : PyStr} (h : asciiIdentifier name = true) : Solid name :=
  fun c mem => (identifierChar_facts (asciiIdentifier_chars h c mem)).2.1

omit [UnicodeData] in
/-- An ASCII identifier can be an operand. -/
lemma asciiIdentifier_operand {name : PyStr} (h : asciiIdentifier name = true) :
    OperandText name := by
  have chars := asciiIdentifier_chars h
  refine ⟨(asciiIdentifier_solid h).trimmed, ?_, fun mem => ?_, fun mem => ?_⟩
  · rintro rfl
    cases h
  · exact (identifierChar_facts (chars 44 mem)).2.2.1 rfl
  · exact (identifierChar_facts (chars 59 mem)).2.2.2 rfl

omit [UnicodeData] in
/-- The mnemonics are ASCII identifiers. -/
lemma value_asciiIdentifier (opcode : Opcode) : asciiIdentifier opcode.value = true := by
  cases opcode <;> decide +kernel

/-- An ASCII identifier that is more than underscores is a well-formed mnemonic. -/
lemma asciiIdentifier_wellFormed {name : PyStr} (h : asciiIdentifier name = true)
    (more : (name.filter (!isUnderscore ·)).isEmpty = false) : WellFormedMnemonic name := by
  rw [WellFormedMnemonic, isalnum, more, Bool.not_false, Bool.true_and, List.all_eq_true]
  intro c mem
  obtain ⟨mem, under⟩ := List.mem_filter.mp mem
  have char := asciiIdentifier_chars h c mem
  have ascii := (identifierChar_facts char).1
  simp only [Bool.not_eq_true'] at under
  rw [under, Bool.or_false] at char
  rw [isAlnumChar, if_pos ascii, char]

/-- The mnemonics are well formed. -/
lemma value_wellFormed (opcode : Opcode) : WellFormedMnemonic opcode.value := by
  refine asciiIdentifier_wellFormed (value_asciiIdentifier opcode) ?_
  cases opcode <;> decide +kernel

/-- A printed line. -/
def lineText (defs : List (PyStr × PyStr)) (lead mnemonic : PyStr) (ops : List PyStr)
    (trail : PyStr) (comment : Option PyStr) : PyStr :=
  defsText defs ++ (lead ++ (mnemonic ++ (operandsText ops ++ trail))) ++ commentText comment

variable {defs : List (PyStr × PyStr)} {lead mnemonic trail : PyStr} {ops : List PyStr}

lemma defsText_semicolon (ok : ∀ d ∈ defs, Blank d.1 ∧ LabelName d.2) : 59 ∉ defsText defs := by
  intro mem
  obtain ⟨d, d_mem, mem⟩ := List.mem_flatMap.mp mem
  obtain ⟨blank, named⟩ := ok d d_mem
  rcases List.mem_append.mp mem with mem | mem
  · exact blank.not_mem (by decide) mem
  · rcases List.mem_append.mp mem with mem | mem
    · exact named.not_mem (by decide) (by decide) mem
    · exact absurd (List.mem_singleton.mp mem) (by decide)

omit [UnicodeData] in
/-- Code without a semicolon, and a comment. -/
lemma code_commentText {code : PyStr} (comment : Option PyStr) (clean : 59 ∉ code) :
    Code (code ++ commentText comment) code := by
  cases comment with
  | none => exact ⟨clean, .inl (List.append_nil _)⟩
  | some comment => exact ⟨clean, .inr ⟨comment, rfl⟩⟩

/-- A printed line is read as what was printed. -/
lemma lineText_reads (comment : Option PyStr) (defs_ok : ∀ d ∈ defs, Blank d.1 ∧ LabelName d.2)
    (lead_ok : Blank lead) (named : LabelName mnemonic) (solid : Solid mnemonic)
    (ops_ok : ∀ op ∈ ops, OperandText op) (trail_ok : Spacing trail) :
    LineText (lineText defs lead mnemonic ops trail comment) (defs.map Prod.snd)
      (some (mnemonic, if ops = [] then [[]] else ops)) := by
  have blank := trail_ok.blank
  -- What follows the mnemonic is white space, if anything.
  have after : ∀ c ∈ (operandsText ops ++ trail).head?, isSpace c = true ∧ isWord c = false := by
    intro c mem
    cases ops with
    | nil => exact trail_ok c (List.mem_of_mem_head? mem)
    | cons x ops =>
      have first : (operandsText (x :: ops) ++ trail).head? = some 32 := by
        cases ops <;> rfl
      rw [first] at mem
      cases mem
      exact ⟨by decide, not_word (by decide) (by decide)⟩
  have start : StartsBlank (operandsText ops ++ trail) := fun c mem => (after c mem).1
  have clean : 59 ∉ defsText defs ++ (lead ++ (mnemonic ++ (operandsText ops ++ trail))) := by
    simp only [List.mem_append, not_or]
    exact ⟨defsText_semicolon defs_ok, lead_ok.not_mem (by decide),
      named.not_mem (by decide) (by decide), operandsText_semicolon ops_ok,
      blank.not_mem (by decide)⟩
  refine ⟨_, _, code_commentText comment clean, labelDefs_text defs_ok ?_, ?_⟩
  · refine no_labelDef lead_ok named fun c mem => ⟨(after c mem).2, ?_⟩
    rintro rfl
    have space := (after 58 mem).1
    revert space
    decide
  · refine .instruction lead_ok ?_ solid start (operandsText_parts ops_ok blank)
    obtain ⟨c, cs, rfl, -⟩ := named
    exact List.cons_ne_nil _ _

/-- The line that the parser makes of a printed instruction. -/
lemma parseLine_lineText_ok {k : ℕ} (comment : Option PyStr)
    (defs_ok : ∀ d ∈ defs, Blank d.1 ∧ LabelName d.2) (lead_ok : Blank lead) (opcode : Opcode)
    (ops_ok : ∀ op ∈ ops, OperandText op) (trail_ok : Spacing trail) :
    parseLine k (lineText defs lead opcode.value ops trail comment) =
      .ok { lineno := k, labels := defs.map Prod.snd, mnemonic := some opcode.value
            operands := ops } := by
  have plain := value_asciiIdentifier opcode
  have reads := lineText_reads comment defs_ok lead_ok (asciiIdentifier_label plain)
    (asciiIdentifier_solid plain) ops_ok trail_ok
  have operands : (if ops = [] then [[]] else ops).filter (!·.isEmpty) = ops := by
    split
    · rename_i none
      rw [none]
      rfl
    · refine List.filter_eq_self.mpr fun op mem => ?_
      have full := (ops_ok op mem).full
      cases op with
      | nil => exact absurd rfl full
      | cons c op => rfl
  rw [(parseLine_statement reads).1 (value_wellFormed opcode), operands]

end Lines

/-! ## Single lines -/

lemma SingleLine.append {s t : PyStr} (h : SingleLine s) (h' : SingleLine t) :
    SingleLine (s ++ t) := List.forall_mem_append.mpr ⟨h, h'⟩

lemma SingleLine.cons {c : PyChar} {s : PyStr} (h : isLineBreak c = false) (h' : SingleLine s) :
    SingleLine (c :: s) := List.forall_mem_cons.mpr ⟨h, h'⟩

lemma SingleLine.subset {s t : PyStr} (h : SingleLine t) (sub : s ⊆ t) : SingleLine s :=
  fun c mem => h c (sub mem)

lemma operandsText_single {ops : List PyStr} (ok : ∀ op ∈ ops, SingleLine op) :
    SingleLine (operandsText ops) := by
  induction ops with
  | nil => exact List.forall_mem_nil _
  | cons x ops ih =>
    obtain ⟨hx, hops⟩ := List.forall_mem_cons.mp ok
    have rest := ih hops
    cases ops with
    | nil => exact .cons (by decide) hx
    | cons y ys => exact .cons (by decide) (hx.append (.cons (by decide) rest))

lemma defsText_single {defs : List (PyStr × PyStr)}
    (ok : ∀ d ∈ defs, SingleLine d.1 ∧ SingleLine d.2) : SingleLine (defsText defs) := by
  intro c mem
  obtain ⟨d, d_mem, mem⟩ := List.mem_flatMap.mp mem
  obtain ⟨gap, name⟩ := ok d d_mem
  exact (gap.append (name.append (.cons (by decide) (List.forall_mem_nil _)))) c mem

lemma commentText_single {comment : Option PyStr} (ok : ∀ text ∈ comment, SingleLine text) :
    SingleLine (commentText comment) := by
  cases comment with
  | none => exact List.forall_mem_nil _
  | some text => exact .cons (by decide) (ok text rfl)

/-- The mnemonics have no line boundary in them. -/
lemma value_single (opcode : Opcode) : SingleLine opcode.value := by
  have plain : plainLine opcode.value = true := by cases opcode <;> decide +kernel
  exact (plainLine_iff.mp plain).2

/-- A printed line is one line when its parts are. -/
lemma lineText_single {defs : List (PyStr × PyStr)} {lead mnemonic trail : PyStr}
    {ops : List PyStr} {comment : Option PyStr}
    (defs_ok : ∀ d ∈ defs, SingleLine d.1 ∧ SingleLine d.2) (lead_ok : SingleLine lead)
    (named : SingleLine mnemonic) (ops_ok : ∀ op ∈ ops, SingleLine op) (trail_ok : SingleLine trail)
    (comment_ok : ∀ text ∈ comment, SingleLine text) :
    SingleLine (lineText defs lead mnemonic ops trail comment) :=
  ((defsText_single defs_ok).append
    (lead_ok.append (named.append ((operandsText_single ops_ok).append trail_ok)))).append
      (commentText_single comment_ok)

end MinCpuForth.Assembler
