import MinCpuForth.Assembler.Service

/-!
# Text in ASCII

How a line of ASCII text is parsed and emitted does not depend on the Unicode database.
-/

namespace MinCpuForth.Python

/-- A string of ASCII characters. -/
def Ascii (s : PyStr) : Prop := ∀ c ∈ s, c.val < 128

lemma Ascii.mono {s t : PyStr} (h : Ascii s) (sub : t ⊆ s) : Ascii t := fun c mem => h c (sub mem)

/-- `takeWhile` looks at the characters of the list only. -/
lemma takeWhile_congr {α : Type} {p q : α → Bool} {xs : List α} (h : ∀ x ∈ xs, p x = q x) :
    xs.takeWhile p = xs.takeWhile q := by
  induction xs with
  | nil => rfl
  | cons x xs ih =>
    obtain ⟨hx, hxs⟩ := List.forall_mem_cons.mp h
    rw [List.takeWhile_cons, List.takeWhile_cons, hx, ih hxs]

/-- `dropWhile` looks at the characters of the list only. -/
lemma dropWhile_congr {α : Type} {p q : α → Bool} {xs : List α} (h : ∀ x ∈ xs, p x = q x) :
    xs.dropWhile p = xs.dropWhile q := by
  induction xs with
  | nil => rfl
  | cons x xs ih =>
    obtain ⟨hx, hxs⟩ := List.forall_mem_cons.mp h
    rw [List.dropWhile_cons, List.dropWhile_cons, hx, ih hxs]

lemma lstrip_subset (s : PyStr) : lstrip s ⊆ s := (List.dropWhile_suffix _).subset

lemma rstrip_subset (s : PyStr) : rstrip s ⊆ s := by
  intro c mem
  exact List.mem_reverse.mp ((List.dropWhile_suffix _).subset (List.mem_reverse.mp mem))

lemma strip_subset (s : PyStr) : strip s ⊆ s := fun _ mem => lstrip_subset s (rstrip_subset _ mem)

lemma splitNone1_subset {s t : PyStr} (mem : t ∈ splitNone1 s) : t ⊆ s := by
  have head : (lstrip s).takeWhile (!isSpace ·) ⊆ s := fun c mem =>
    lstrip_subset s ((List.takeWhile_prefix _).subset mem)
  have tail : lstrip ((lstrip s).dropWhile (!isSpace ·)) ⊆ s := fun c mem =>
    lstrip_subset s ((List.dropWhile_suffix _).subset (lstrip_subset _ mem))
  unfold splitNone1 at mem
  dsimp only at mem
  split at mem
  · cases mem
  · split at mem
    · rw [List.mem_singleton.mp mem]
      exact head
    · rcases List.mem_pair.mp mem with rfl | rfl
      · exact head
      · exact tail

lemma split_subset {sep : PyChar} {s t : PyStr} (mem : t ∈ split sep s) : t ⊆ s := by
  induction s generalizing t with
  | nil =>
    rw [split, List.mem_singleton] at mem
    rw [mem]
    exact List.Subset.refl _
  | cons c cs ih =>
    unfold split at mem
    split at mem
    · rcases List.mem_cons.mp mem with rfl | mem
      · exact List.nil_subset _
      · exact List.subset_cons_of_subset _ (ih mem)
    · split at mem
      · rw [List.mem_singleton.mp mem]
        exact List.cons_subset_cons _ (List.nil_subset _)
      · rename_i part parts e
        rw [e] at ih
        rcases List.mem_cons.mp mem with rfl | mem
        · exact List.cons_subset_cons _ (ih (List.mem_cons_self ..))
        · exact List.subset_cons_of_subset _ (ih (List.mem_cons_of_mem _ mem))

section Unicode

variable (U V : UnicodeData) {c : PyChar} {s : PyStr}

lemma isAlnumChar_ascii (h : c.val < 128) : @isAlnumChar U c = @isAlnumChar V c := by
  simp only [isAlnumChar, h, if_true]

lemma isWord_ascii (h : c.val < 128) : @isWord U c = @isWord V c := by
  simp only [isWord, isAlnumChar_ascii U V h]

lemma isalnum_ascii (h : Ascii s) : @isalnum U s = @isalnum V s := by
  have e : s.all (@isAlnumChar U) = s.all (@isAlnumChar V) := by
    rw [Bool.eq_iff_iff, List.all_eq_true, List.all_eq_true]
    exact forall₂_congr fun c mem => by rw [isAlnumChar_ascii U V (h c mem)]
  simp only [isalnum, e]

lemma isidentifier_ascii (h : Ascii s) : @isidentifier U s = @isidentifier V s := by
  cases s with
  | nil => rfl
  | cons c cs =>
    obtain ⟨hc, hcs⟩ := List.forall_mem_cons.mp h
    have e : cs.all (@isIdentifierContinue U) = cs.all (@isIdentifierContinue V) := by
      rw [Bool.eq_iff_iff, List.all_eq_true, List.all_eq_true]
      refine forall₂_congr fun d mem => ?_
      simp only [isIdentifierContinue, hcs d mem, if_true]
    simp only [isidentifier, isIdentifierStart, hc, if_true, e]

lemma int0_ascii (h : Ascii s) : @int0 U s = @int0 V s := by
  have all : s.all (·.val < 128) = true := List.all_eq_true.mpr fun c mem => decide_eq_true (h c mem)
  simp only [int0, toAsciiDecimal, all, if_true]

end Unicode

end MinCpuForth.Python

namespace MinCpuForth.Assembler
open Python Domain

variable (U V : UnicodeData) {s : PyStr} {labels : Labels} {line : LineDto}

lemma labelPrefix_ascii (h : Ascii s) : @labelPrefix U s = @labelPrefix V s := by
  unfold labelPrefix
  cases e : lstrip s with
  | nil => rfl
  | cons c cs =>
    have word : ∀ d ∈ cs, @isWord U d = @isWord V d := fun d mem =>
      isWord_ascii U V (h d (lstrip_subset s (e ▸ List.mem_cons_of_mem _ mem)))
    simp only [takeWhile_congr word, dropWhile_congr word]

/-- What follows a label is a part of the text. -/
lemma labelPrefix_subset [UnicodeData] {label rest : PyStr}
    (h : labelPrefix s = some (label, rest)) : rest ⊆ s := by
  unfold labelPrefix at h
  split at h
  · cases h
  · rename_i c cs e
    split at h
    · split at h
      · cases h
      · rename_i d ds e'
        split at h
        · cases h
          intro x mem
          have inner : x ∈ cs.dropWhile isWord := e' ▸ List.mem_cons_of_mem _ mem
          exact lstrip_subset s (e ▸ List.mem_cons_of_mem _ ((List.dropWhile_suffix _).subset inner))
        · cases h
    · cases h

lemma peelLabels_ascii {fuel : ℕ} (h : Ascii s) : @peelLabels U fuel s = @peelLabels V fuel s := by
  induction fuel generalizing s with
  | zero => rfl
  | succ fuel ih =>
    simp only [peelLabels, labelPrefix_ascii U V h]
    cases e : @labelPrefix V s with
    | none => rfl
    | some p => simp only [ih (h.mono (labelPrefix_subset e))]

/-- What follows the labels is a part of the text. -/
lemma peelLabels_subset [UnicodeData] {fuel : ℕ} : (peelLabels fuel s).2 ⊆ s := by
  induction fuel generalizing s with
  | zero => exact List.Subset.refl _
  | succ fuel ih =>
    unfold peelLabels
    split
    · exact List.Subset.refl _
    · rename_i found
      exact fun c mem => labelPrefix_subset found (ih mem)

lemma splitMnemonic_ascii (h : Ascii s) : @splitMnemonic U s = @splitMnemonic V s := by
  unfold splitMnemonic
  cases e : splitNone1 s with
  | nil => rfl
  | cons head parts =>
    have sub : head.filter (!isUnderscore ·) ⊆ s := fun c mem =>
      splitNone1_subset (e ▸ List.mem_cons_self ..) (List.mem_of_mem_filter mem)
    simp only [isalnum_ascii U V (h.mono sub)]

lemma parseLine_ascii (lineno : ℕ) (h : Ascii s) : @parseLine U lineno s = @parseLine V lineno s := by
  have code : Ascii (s.takeWhile (·.val != 59)) := h.mono (List.takeWhile_prefix _).subset
  unfold parseLine
  simp only [peelLabels_ascii U V code]
  have rest : Ascii (strip (@peelLabels V (s.takeWhile (·.val != 59)).length
      (s.takeWhile (·.val != 59))).2) :=
    code.mono fun c mem => peelLabels_subset (strip_subset _ mem)
  simp only [splitMnemonic_ascii U V rest]

/-- The operands of a line are parts of its text. -/
lemma parseLine_operands [UnicodeData] {lineno : ℕ} (h : parseLine lineno s = .ok line)
    {token : PyStr} (mem : token ∈ line.operands) : token ⊆ s := by
  unfold parseLine at h
  dsimp only at h
  split at h
  · cases h
    cases mem
  · cases r : splitMnemonic (strip (peelLabels (s.takeWhile (·.val != 59)).length
      (s.takeWhile (·.val != 59))).2) with
    | error e => rw [r] at h; cases h
    | ok p =>
      rw [r] at h
      cases h
      obtain ⟨t, within, rfl⟩ := List.mem_map.mp (List.mem_of_mem_filter mem)
      have remainder : p.2 ⊆ strip (peelLabels (s.takeWhile (·.val != 59)).length
          (s.takeWhile (·.val != 59))).2 := by
        unfold splitMnemonic at r
        split at r
        · cases r
        · rename_i head parts e
          split at r
          · cases r
            cases parts with
            | nil => exact List.nil_subset _
            | cons part parts =>
              exact splitNone1_subset (e ▸ List.mem_cons_of_mem _ (List.mem_cons_self ..))
          · cases r
      intro c hc
      exact (List.takeWhile_prefix _).subset (peelLabels_subset (strip_subset _
        (remainder (split_subset within (strip_subset _ hc)))))

lemma resolveRegister_ascii (h : Ascii s) :
    @resolveRegister U s line = @resolveRegister V s line := by
  simp only [resolveRegister, int0_ascii U V h, isidentifier_ascii U V h]

lemma fillOperand_ascii (instr : InstructionDto) (spec : OperandSpec) (h : Ascii s) :
    @fillOperand U labels line instr spec s = @fillOperand V labels line instr spec s := by
  simp only [fillOperand, resolveRegOrImmediate, resolveOffset, int0_ascii U V h,
    resolveRegister_ascii U V h]

lemma fillOperands_ascii (instr : InstructionDto) {items : List (OperandSpec × PyStr)}
    (h : ∀ item ∈ items, Ascii item.2) :
    @fillOperands U labels line instr items = @fillOperands V labels line instr items := by
  induction items generalizing instr with
  | nil => rfl
  | cons item items ih =>
    obtain ⟨h, rest⟩ := List.forall_mem_cons.mp h
    simp only [fillOperands, fillOperand_ascii U V instr item.1 h, ih _ rest]

lemma emitLine_ascii (h : ∀ token ∈ line.operands, Ascii token) :
    @emitLine U line labels = @emitLine V line labels := by
  have set : @emitSet U line labels = @emitSet V line labels := by
    unfold emitSet
    split
    · rename_i reg const e
      simp only [e, List.forall_mem_cons] at h
      simp only [resolveConstant, int0_ascii U V h.2.1, resolveRegister_ascii U V h.1]
    · rfl
  have mov : @emitMov U line = @emitMov V line := by
    unfold emitMov
    split
    · rename_i dst src e
      simp only [e, List.forall_mem_cons] at h
      simp only [resolveRegister_ascii U V h.1, resolveRegister_ascii U V h.2.1]
    · rfl
  have fill : ∀ opcode, @fillOperands U labels line { opcode := opcode }
      ((OPERAND_SPECS opcode).zip line.operands) = @fillOperands V labels line { opcode := opcode }
      ((OPERAND_SPECS opcode).zip line.operands) := fun opcode =>
    fillOperands_ascii U V _ fun item mem => h _ (List.of_mem_zip mem).2
  simp only [emitLine, set, mov, fill]

end MinCpuForth.Assembler
