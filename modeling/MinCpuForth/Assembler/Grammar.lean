import MinCpuForth.Assembler.TwoPass
import MinCpuForth.Python.Text
import Mathlib.Data.List.TakeWhile

/-!
# The shape of a source line

A line is code and perhaps a comment; code is label definitions and perhaps a statement; a statement
is a mnemonic and, separated by commas, the texts of its operands, of which some may be empty. Every
line has exactly one such reading, and the parser finds it.
-/

namespace MinCpuForth.Assembler
open Python Domain Lib

/-- The code of a line: what comes before the first semicolon. -/
def Code (raw code : PyStr) : Prop :=
  59 ∉ code ∧ (raw = code ∨ ∃ comment, raw = code ++ 59 :: comment)

/-- What stands before, at and after a padded token. -/
def Padded (token text : PyStr) : Prop :=
  Trimmed token ∧ ∃ l r, Blank l ∧ Blank r ∧ text = l ++ (token ++ r)

/-- Texts separated by single commas, without their padding. -/
inductive Parts : PyStr → List PyStr → Prop where
  | one {text part} : 44 ∉ text → Padded part text → Parts text [part]
  | cons {text part rest parts} : 44 ∉ text → Padded part text → Parts rest parts →
    Parts (text ++ 44 :: rest) (part :: parts)

/-- A mnemonic, and the operand texts after it. -/
inductive Statement : PyStr → Option (PyStr × List PyStr) → Prop where
  | blank {text} : Blank text → Statement text none
  | instruction {gap mnemonic rest parts} : Blank gap → mnemonic ≠ [] → Solid mnemonic →
    StartsBlank rest → Parts rest parts →
    Statement (gap ++ (mnemonic ++ rest)) (some (mnemonic, parts))

section Labels

variable [UnicodeData]

/-- A name that a line may define as a label. -/
def LabelName (name : PyStr) : Prop :=
  ∃ c cs, name = c :: cs ∧ LabelStart c ∧ ∀ d ∈ cs, isWord d = true

/-- A label definition at the start of the text, and what follows it. -/
def LabelDef (text name rest : PyStr) : Prop :=
  ∃ gap, Blank gap ∧ LabelName name ∧ text = gap ++ (name ++ 58 :: rest)

/-- The label definitions at the start of the text, and what follows them. -/
inductive LabelDefs : PyStr → List PyStr → PyStr → Prop where
  | nil {text} : (∀ name rest, ¬LabelDef text name rest) → LabelDefs text [] text
  | cons {text name rest names body} : LabelDef text name rest → LabelDefs rest names body →
    LabelDefs text (name :: names) body

/-- The reading of a line: its labels and its statement. -/
def LineText (raw : PyStr) (labels : List PyStr) (statement : Option (PyStr × List PyStr)) : Prop :=
  ∃ code body, Code raw code ∧ LabelDefs code labels body ∧ Statement body statement

end Labels

/-! ## Comments, operands and statements -/

/-- The code of a line, computed. -/
lemma code_iff {raw code : PyStr} : Code raw code ↔ raw.takeWhile (·.val != 59) = code := by
  have semicolon : ∀ c : PyChar, (c.val != 59) = true ↔ c ≠ 59 := by
    intro c
    rw [bne_iff_ne, ne_eq, ne_eq, Fin.ext_iff]
    exact Iff.rfl
  have plain : ∀ {cs : PyStr}, 59 ∉ cs → ∀ c ∈ cs, (c.val != 59) = true :=
    fun absent c mem => (semicolon c).mpr fun e => absent (e ▸ mem)
  constructor
  · rintro ⟨absent, rfl | ⟨comment, rfl⟩⟩
    · exact List.takeWhile_eq_self_iff.mpr (plain absent)
    · rw [List.takeWhile_append_of_pos (plain absent), List.takeWhile_cons_of_neg (by decide),
        List.append_nil]
  · rintro rfl
    have absent : 59 ∉ raw.takeWhile (·.val != 59) := by
      intro mem
      have pass := List.mem_takeWhile_imp mem
      exact (semicolon 59).mp pass rfl
    refine ⟨absent, ?_⟩
    have whole := List.takeWhile_append_dropWhile (p := fun c : PyChar => c.val != 59) (l := raw)
    cases rest : raw.dropWhile (·.val != 59) with
    | nil =>
      rw [rest, List.append_nil] at whole
      exact .inl whole.symm
    | cons c comment =>
      have stop : c = 59 := by
        have first := List.head?_dropWhile_not (fun c : PyChar => c.val != 59) raw
        rw [rest] at first
        by_contra ne
        simp [(semicolon c).mpr ne] at first
      rw [rest, stop] at whole
      exact .inr ⟨comment, whole.symm⟩

/-- A padded token is what `strip` yields. -/
lemma padded_iff {token text : PyStr} : Padded token text ↔ strip text = token := by
  constructor
  · rintro ⟨trimmed, l, r, hl, hr, rfl⟩
    exact strip_padded hl hr trimmed
  · rintro rfl
    obtain ⟨l, r, hl, hr, e, trimmed⟩ := strip_spec text
    exact ⟨trimmed, l, r, hl, hr, e⟩

/-- The parts of a text are what `split` and `strip` yield. -/
lemma parts_iff {text : PyStr} {parts : List PyStr} :
    Parts text parts ↔ (split 44 text).map strip = parts := by
  constructor
  · intro h
    induction h with
    | one absent padded => rw [split_one absent, List.map_singleton, padded_iff.mp padded]
    | cons absent padded _ ih =>
      rw [split_append absent, List.map_cons, padded_iff.mp padded, ih]
  · rintro rfl
    induction h : text.length using Nat.strongRecOn generalizing text with
    | _ n ih =>
      rcases split_cases 44 text with ⟨absent, e⟩ | ⟨part, rest, absent, rfl, e⟩
      · rw [e]
        exact .one absent (padded_iff.mpr rfl)
      · have shorter : rest.length < n := by
          rw [← h, List.length_append, List.length_cons]
          omega
        rw [e]
        exact .cons absent (padded_iff.mpr rfl) (ih _ shorter rfl)

/-- The statement of a text, computed. -/
def statementOf (text : PyStr) : Option (PyStr × List PyStr) :=
  let code := lstrip text
  if code.isEmpty then none
  else some (code.takeWhile (!isSpace ·), (split 44 (code.dropWhile (!isSpace ·))).map strip)

lemma statement_iff {text : PyStr} {statement : Option (PyStr × List PyStr)} :
    Statement text statement ↔ statementOf text = statement := by
  constructor
  · rintro (blank | @⟨gap, mnemonic, rest, parts, blank, ne, solid, start, sep⟩)
    · rw [statementOf, lstrip_blank blank]
      rfl
    · have head : ∀ c ∈ (mnemonic ++ rest).head?, isSpace c = false := by
        intro c mem
        cases mnemonic with
        | nil => exact absurd rfl ne
        | cons d m => exact solid c (List.mem_of_mem_head? mem)
      have full : ¬(mnemonic ++ rest).isEmpty = true := by
        cases mnemonic with
        | nil => exact absurd rfl ne
        | cons d m => exact Bool.false_ne_true
      have code : lstrip (gap ++ (mnemonic ++ rest)) = mnemonic ++ rest := by
        rw [lstrip_append blank, lstrip_of_head head]
      simp only [statementOf, code, if_neg full, takeWhile_solid solid start,
        dropWhile_solid solid start, parts_iff.mp sep]
  · rintro rfl
    obtain ⟨gap, blank, e, head⟩ := lstrip_spec text
    unfold statementOf
    dsimp only
    split
    · rename_i empty
      rw [List.isEmpty_iff.mp empty, List.append_nil] at e
      exact .blank (e ▸ blank)
    · rename_i full
      obtain ⟨solid, start⟩ := token_spec (lstrip text)
      have whole := List.takeWhile_append_dropWhile (p := (!isSpace ·)) (l := lstrip text)
      have ne : (lstrip text).takeWhile (!isSpace ·) ≠ [] := by
        intro nil
        cases code : lstrip text with
        | nil => exact full (by rw [code]; rfl)
        | cons c cs =>
          have solid : isSpace c = false := head c (by rw [code]; rfl)
          rw [code, List.takeWhile_cons_of_pos (by simp [solid])] at nil
          cases nil
      have read := Statement.instruction blank ne solid start (parts_iff.mpr rfl)
      rw [whole, ← e] at read
      exact read

/-! ## Label definitions -/

section Labels

variable [UnicodeData] {text name rest : PyStr}

omit [UnicodeData] in
lemma LabelStart.solid {c : PyChar} (h : LabelStart c) : isSpace c = false := by
  simp only [LabelStart, isAsciiLetter, isUnderscore, Bool.or_eq_true, Bool.and_eq_true,
    decide_eq_true_eq, beq_iff_eq] at h
  simp only [isSpace, Bool.or_eq_false_iff, Bool.and_eq_false_iff, decide_eq_false_iff_not,
    beq_eq_false_iff_ne]
  omega

/-- The colon ends a name. -/
lemma colon_not_word : isWord (58 : PyChar) = false := by
  have alnum : isAlnumChar (58 : PyChar) = false := by
    rw [isAlnumChar, if_pos (by decide)]
    decide
  rw [isWord, alnum]
  decide

/-- The label definition at the start of a text, computed. -/
lemma labelDef_iff : LabelDef text name rest ↔ labelPrefix text = some (name, rest) := by
  constructor
  · rintro ⟨gap, blank, ⟨c, cs, rfl, start, word⟩, rfl⟩
    have head : ∀ d ∈ (c :: cs ++ 58 :: rest).head?, isSpace d = false := by
      intro d mem
      cases mem
      exact start.solid
    have code : lstrip (gap ++ (c :: cs ++ 58 :: rest)) = c :: (cs ++ 58 :: rest) := by
      rw [lstrip_append blank, lstrip_of_head head]
      rfl
    have stop : (cs ++ 58 :: rest).dropWhile isWord = 58 :: rest := by
      rw [List.dropWhile_append_of_pos word,
        List.dropWhile_cons_of_neg (by simp [colon_not_word])]
    have taken : (cs ++ 58 :: rest).takeWhile isWord = cs := by
      rw [List.takeWhile_append_of_pos word,
        List.takeWhile_cons_of_neg (by simp [colon_not_word]), List.append_nil]
    have start' : (isAsciiLetter c || isUnderscore c) = true := start
    simp only [labelPrefix, code, if_pos start', stop, taken]
    rfl
  · intro found
    obtain ⟨gap, blank, e, -⟩ := lstrip_spec text
    unfold labelPrefix at found
    split at found
    · cases found
    · rename_i c cs code
      split at found
      · rename_i start
        split at found
        · cases found
        · rename_i d after dropped
          split at found
          · rename_i colon
            cases found
            have colon' : d = 58 := Fin.ext (beq_iff_eq.mp colon)
            have whole := List.takeWhile_append_dropWhile (p := isWord) (l := cs)
            rw [dropped, colon'] at whole
            refine ⟨gap, blank, ⟨c, cs.takeWhile isWord, rfl, start, ?_⟩, ?_⟩
            · exact fun d mem => List.mem_takeWhile_imp mem
            · rw [List.cons_append, whole, ← code]
              exact e
          · cases found
      · cases found

/-- A definition takes characters. -/
lemma LabelDef.shorter (h : LabelDef text name rest) : rest.length < text.length := by
  obtain ⟨gap, -, -, rfl⟩ := h
  simp only [List.length_append, List.length_cons]
  omega

/-- The label definitions at the start of a text, computed. -/
lemma labelDefs_iff {fuel : ℕ} {names : List PyStr} {body : PyStr} (enough : text.length ≤ fuel) :
    LabelDefs text names body ↔ peelLabels fuel text = (names, body) := by
  induction fuel generalizing text names with
  | zero =>
    have nil : text = [] := List.length_eq_zero_iff.mp (Nat.le_zero.mp enough)
    constructor
    · intro h
      cases h with
      | nil _ => rfl
      | cons first _ => exact absurd first.shorter (by simp [nil])
    · intro h
      cases h
      refine .nil fun name rest first => absurd first.shorter (by simp [nil])
  | succ fuel ih =>
    rw [peelLabels]
    constructor
    · intro h
      cases h with
      | nil no =>
        have missing : labelPrefix body = none := by
          refine Option.eq_none_iff_forall_ne_some.mpr fun found e => ?_
          exact no found.1 found.2 (labelDef_iff.mpr e)
        rw [missing]
      | cons first others =>
        have shorter := first.shorter
        rw [labelDef_iff.mp first]
        simp only [(ih (by omega)).mp others]
    · intro h
      split at h
      · rename_i missing
        cases h
        refine .nil fun name rest first => ?_
        cases missing.symm.trans (labelDef_iff.mp first)
      · rename_i name rest found
        cases h
        have first := labelDef_iff.mpr found
        have shorter := first.shorter
        exact .cons first ((ih (by omega)).mpr rfl)

/-- A text that begins with a word and no colon after it defines no label. -/
lemma no_labelDef {gap word : PyStr} (blank : Blank gap) (named : LabelName word)
    (stop : ∀ c ∈ rest.head?, isWord c = false ∧ c ≠ 58) (name after : PyStr) :
    ¬LabelDef (gap ++ (word ++ rest)) name after := by
  obtain ⟨c, cs, rfl, first, others⟩ := named
  have head : ∀ d ∈ (c :: cs ++ rest).head?, isSpace d = false := by
    intro d mem
    cases mem
    exact first.solid
  have code : lstrip (gap ++ (c :: cs ++ rest)) = c :: (cs ++ rest) := by
    rw [lstrip_append blank, lstrip_of_head head]
    rfl
  have first' : (isAsciiLetter c || isUnderscore c) = true := first
  intro h
  have found := labelDef_iff.mp h
  rw [labelPrefix, code] at found
  simp only [if_pos first', List.dropWhile_append_of_pos others] at found
  cases rest with
  | nil => cases found
  | cons d ds =>
    obtain ⟨notWord, notColon⟩ := stop d rfl
    have colon : ¬(d.val == 58) = true := fun e => notColon (Fin.ext (beq_iff_eq.mp e))
    rw [List.dropWhile_cons_of_neg (by simp [notWord])] at found
    simp only [if_neg colon] at found
    cases found

/-- Label definitions, each with the white space before it. -/
def defsText (defs : List (PyStr × PyStr)) : PyStr := defs.flatMap fun d => d.1 ++ (d.2 ++ [58])

lemma labelDefs_text {defs : List (PyStr × PyStr)} {body : PyStr}
    (ok : ∀ d ∈ defs, Blank d.1 ∧ LabelName d.2) (last : ∀ name rest, ¬LabelDef body name rest) :
    LabelDefs (defsText defs ++ body) (defs.map Prod.snd) body := by
  induction defs with
  | nil => exact .nil last
  | cons d defs ih =>
    obtain ⟨⟨blank, named⟩, others⟩ := List.forall_mem_cons.mp ok
    refine .cons ⟨d.1, blank, named, ?_⟩ (ih others)
    simp [defsText]

/-! ## Lines -/

variable {raw : PyStr} {labels labels' : List PyStr}
  {statement statement' : Option (PyStr × List PyStr)}

/-- Every line has a reading. -/
lemma lineText_exists (raw : PyStr) : ∃ labels statement, LineText raw labels statement := by
  refine ⟨_, _, _, _, code_iff.mpr rfl, (labelDefs_iff (Nat.le_refl _)).mpr rfl,
    statement_iff.mpr rfl⟩

/-- And no other. -/
lemma LineText.unique (h : LineText raw labels statement) (h' : LineText raw labels' statement') :
    labels = labels' ∧ statement = statement' := by
  obtain ⟨code, body, c, d, s⟩ := h
  obtain ⟨code', body', c', d', s'⟩ := h'
  obtain rfl := (code_iff.mp c).symm.trans (code_iff.mp c')
  cases ((labelDefs_iff (Nat.le_refl _)).mp d).symm.trans ((labelDefs_iff (Nat.le_refl _)).mp d')
  exact ⟨rfl, (statement_iff.mp s).symm.trans (statement_iff.mp s')⟩

/-- The labels of a line are names, made of its characters. -/
lemma LineText.label (h : LineText raw labels statement) {name : PyStr} (mem : name ∈ labels) :
    LabelName name ∧ name ⊆ raw := by
  obtain ⟨code, body, c, d, -⟩ := h
  have sub : code ⊆ raw := by
    rcases c.2 with rfl | ⟨comment, rfl⟩
    · exact List.Subset.refl _
    · exact List.subset_append_left ..
  have inside : LabelName name ∧ name ⊆ code := by
    clear c sub
    induction d with
    | nil => cases mem
    | cons first _ ih =>
      obtain ⟨gap, blank, named, rfl⟩ := first
      cases mem with
      | head => exact ⟨named, fun _ m => List.mem_append_right _ (List.mem_append_left _ m)⟩
      | tail _ mem =>
        obtain ⟨named', sub⟩ := ih mem
        exact ⟨named', fun _ m => List.mem_append_right _ (List.mem_append_right _ (.tail _ (sub m)))⟩
  exact ⟨inside.1, fun _ m => sub (inside.2 m)⟩

/-- What follows the label definitions of a text is a part of it. -/
lemma LabelDefs.subset {names : List PyStr} {body : PyStr} (h : LabelDefs text names body) :
    body ⊆ text := by
  induction h with
  | nil => exact List.Subset.refl _
  | cons first _ ih =>
    obtain ⟨gap, -, -, rfl⟩ := first
    exact fun _ m => List.mem_append_right _ (List.mem_append_right _ (.tail _ (ih m)))

omit [UnicodeData] in
/-- The texts between commas have no padding, and no comma. -/
lemma Parts.part {parts : List PyStr} {part : PyStr} (h : Parts text parts) (mem : part ∈ parts) :
    Trimmed part ∧ 44 ∉ part ∧ part ⊆ text := by
  have padded : ∀ {text part : PyStr}, Padded part text → 44 ∉ text →
      Trimmed part ∧ 44 ∉ part ∧ part ⊆ text := by
    rintro text part ⟨trimmed, l, r, -, -, rfl⟩ absent
    have sub : part ⊆ l ++ (part ++ r) := fun _ m =>
      List.mem_append_right _ (List.mem_append_left _ m)
    exact ⟨trimmed, fun m => absent (sub m), sub⟩
  induction h with
  | one absent here =>
    cases List.mem_singleton.mp mem
    exact padded here absent
  | cons absent here _ ih =>
    cases mem with
    | head =>
      obtain ⟨trimmed, none, sub⟩ := padded here absent
      exact ⟨trimmed, none, fun _ m => List.mem_append_left _ (sub m)⟩
    | tail _ mem =>
      obtain ⟨trimmed, none, sub⟩ := ih mem
      exact ⟨trimmed, none, fun _ m => List.mem_append_right _ (.tail _ (sub m))⟩

/-- The operand texts of a line have no padding, no comma and no semicolon. -/
lemma LineText.part {mnemonic part : PyStr} {parts : List PyStr}
    (h : LineText raw labels (some (mnemonic, parts))) (mem : part ∈ parts) :
    Trimmed part ∧ 44 ∉ part ∧ 59 ∉ part ∧ part ⊆ raw := by
  obtain ⟨code, body, c, d, s⟩ := h
  have sub : code ⊆ raw := by
    rcases c.2 with rfl | ⟨comment, rfl⟩
    · exact List.Subset.refl _
    · exact List.subset_append_left ..
  cases s with
  | instruction _ _ _ _ sep =>
    obtain ⟨trimmed, none, sub'⟩ := sep.part mem
    have inside : part ⊆ code := fun _ m =>
      d.subset (List.mem_append_right _ (List.mem_append_right _ (sub' m)))
    exact ⟨trimmed, none, fun m => c.1 (inside m), fun _ m => sub (inside m)⟩

/-- What the parser makes of a mnemonic. -/
def WellFormedMnemonic (mnemonic : PyStr) : Prop :=
  isalnum (mnemonic.filter (!isUnderscore ·)) = true

/-- The parser reads a line without a statement as its labels. -/
lemma parseLine_labels {k : ℕ} (h : LineText raw labels none) :
    parseLine k raw = .ok { lineno := k, labels := labels, mnemonic := none, operands := [] } := by
  obtain ⟨code, body, c, d, s⟩ := h
  have blank : Blank body := by cases s; assumption
  have peeled := (labelDefs_iff (Nat.le_refl _)).mp d
  simp only [parseLine, code_iff.mp c, peeled, strip_blank blank]
  rfl

/-- The parser reads a statement as its mnemonic and those operands that are not empty. -/
lemma parseLine_statement {k : ℕ} {mnemonic : PyStr} {parts : List PyStr}
    (h : LineText raw labels (some (mnemonic, parts))) :
    (WellFormedMnemonic mnemonic → parseLine k raw =
      .ok { lineno := k, labels := labels, mnemonic := some mnemonic
            operands := parts.filter (!·.isEmpty) }) ∧
    (¬WellFormedMnemonic mnemonic → parseLine k raw = .error (.malformedMnemonic mnemonic)) := by
  obtain ⟨code, body, c, d, s⟩ := h
  have peeled := (labelDefs_iff (Nat.le_refl _)).mp d
  cases s with
  | @instruction gap _ rest _ blank ne solid start sep =>
    have work : strip (gap ++ (mnemonic ++ rest)) = mnemonic ++ rstrip rest := by
      have head : ∀ c ∈ (mnemonic ++ rest).head?, isSpace c = false := by
        intro c mem
        cases mnemonic with
        | nil => exact absurd rfl ne
        | cons d m => exact solid c (List.mem_of_mem_head? mem)
      rw [strip, lstrip_append blank, lstrip_of_head head, rstrip_solid solid]
    have start' : StartsBlank (rstrip rest) := by
      obtain ⟨r, -, e, -⟩ := rstrip_spec rest
      intro c mem
      refine start c ?_
      rw [e, List.head?_append, Option.mem_def.mp mem]
      rfl
    have full : ¬(mnemonic ++ rstrip rest).isEmpty = true := by
      cases mnemonic with
      | nil => exact absurd rfl ne
      | cons d m => exact Bool.false_ne_true
    have operands : (split 44 (lstrip (rstrip rest))).map strip = parts := by
      obtain ⟨l, hl, e, -⟩ := lstrip_spec (rstrip rest)
      obtain ⟨r, hr, e', -⟩ := rstrip_spec rest
      have left : (split 44 (l ++ lstrip (rstrip rest))).map strip =
          (split 44 (lstrip (rstrip rest))).map strip := map_strip_split_left (by decide) hl
      have right : (split 44 (rstrip rest ++ r)).map strip = (split 44 (rstrip rest)).map strip :=
        map_strip_split_right (by decide) hr
      rw [← parts_iff.mp sep]
      conv_rhs => rw [e', right, e, left]
    obtain ⟨items, tokens, remainder⟩ := splitNone1_solid ne solid start'
    constructor
    · intro well
      have well' : isalnum (mnemonic.filter (!isUnderscore ·)) = true := well
      simp only [parseLine, code_iff.mp c, peeled, work, if_neg full, splitMnemonic, tokens,
        if_pos well', remainder, bind, Except.bind, operands]
    · intro ill
      have ill' : ¬isalnum (mnemonic.filter (!isUnderscore ·)) = true := ill
      simp only [parseLine, code_iff.mp c, peeled, work, if_neg full, splitMnemonic, tokens,
        if_neg ill', bind, Except.bind]

/-- What the parser read comes from the reading of the line. -/
lemma parseLine_lineText {k : ℕ} {line : LineDto} (h : parseLine k raw = .ok line) :
    (LineText raw line.labels none ∧ line.mnemonic = none ∧ line.operands = []) ∨
      ∃ mnemonic parts, LineText raw line.labels (some (mnemonic, parts)) ∧
        WellFormedMnemonic mnemonic ∧ line.mnemonic = some mnemonic ∧
        line.operands = parts.filter (!·.isEmpty) := by
  obtain ⟨names, statement, text⟩ := lineText_exists raw
  cases statement with
  | none =>
    cases (parseLine_labels text).symm.trans h
    exact .inl ⟨text, rfl, rfl⟩
  | some statement =>
    obtain ⟨mnemonic, parts⟩ := statement
    by_cases well : WellFormedMnemonic mnemonic
    · cases ((parseLine_statement text).1 well).symm.trans h
      exact .inr ⟨mnemonic, parts, text, well, rfl, rfl⟩
    · cases ((parseLine_statement text).2 well).symm.trans h

end Labels

end MinCpuForth.Assembler
