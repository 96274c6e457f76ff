import MinCpuForth.Assembler.Printing

/-!
# Names replaced in place

A text in which every label and every operand is replaced where it stands, and everything else is
kept: the spacing, the commas, the mnemonics, the comments. Its lines are read as before, with the
names replaced.
-/

namespace MinCpuForth.Assembler
open Python Domain

section Statements

variable (ρ : PyStr → PyStr)

/-- An operand, replaced; where there is none, there is none. -/
def renameToken (token : PyStr) : PyStr := if token.isEmpty then token else ρ token

/-- The text between two commas, with its operand replaced and its padding kept. -/
def renamePart (text : PyStr) : PyStr :=
  if (strip text).isEmpty then text
  else text.takeWhile isSpace ++ (ρ (strip text) ++ text.rtakeWhile isSpace)

/-- Texts between commas, with their operands replaced. -/
def renameParts (text : PyStr) : PyStr := [44].intercalate ((split 44 text).map (renamePart ρ))

/-- A statement with its operands replaced. -/
def renameStatement (text : PyStr) : PyStr :=
  let code := lstrip text
  text.takeWhile isSpace ++
    (code.takeWhile (!isSpace ·) ++ renameParts ρ (code.dropWhile (!isSpace ·)))

/-- A statement that is read, with its operands replaced. -/
def renameReading (statement : Option (PyStr × List PyStr)) : Option (PyStr × List PyStr) :=
  statement.map fun s => (s.1, s.2.map (renameToken ρ))

variable {ρ} {l r s text : PyStr} {c : PyChar}

/-- Neither a semicolon nor a line boundary. -/
def Inline (s : PyStr) : Prop := 59 ∉ s ∧ SingleLine s

lemma Inline.append {s t : PyStr} : Inline (s ++ t) ↔ Inline s ∧ Inline t := by
  unfold Inline SingleLine
  rw [List.mem_append, not_or, List.forall_mem_append]
  exact and_and_and_comm

lemma Inline.cons {s : PyStr} : Inline (c :: s) ↔ Inline [c] ∧ Inline s := Inline.append (s := [c])

/-- The white space in front of a text. -/
lemma takeWhile_blank (h : Blank l) (head : ∀ c ∈ s.head?, isSpace c = false) :
    (l ++ s).takeWhile isSpace = l := by
  rw [List.takeWhile_append_of_pos h]
  cases s with
  | nil => exact List.append_nil l
  | cons c s =>
    have solid : isSpace c = false := head c rfl
    rw [List.takeWhile_cons_of_neg (by simp [solid]), List.append_nil]

/-- The white space behind a text. -/
lemma rtakeWhile_blank (h : Blank r) (last : ∀ c ∈ s.getLast?, isSpace c = false) :
    (s ++ r).rtakeWhile isSpace = r := by
  rw [List.rtakeWhile, List.reverse_append,
    takeWhile_blank h.reverse (by rwa [List.head?_reverse]), List.reverse_reverse]

/-- A part that begins with white space still does. -/
lemma renamePart_cons (space : isSpace c = true) (text : PyStr) :
    ∃ text', renamePart ρ (c :: text) = c :: text' := by
  rw [renamePart]
  split
  · exact ⟨text, rfl⟩
  · rw [List.takeWhile_cons_of_pos space]
    exact ⟨_, rfl⟩

lemma commas_cons {part : PyStr} {parts : List PyStr} (more : parts ≠ []) :
    [44].intercalate (part :: parts) = part ++ 44 :: ([44] : PyStr).intercalate parts := by
  obtain ⟨next, parts, rfl⟩ := List.exists_cons_of_ne_nil more
  simp [List.intercalate]

/-- Texts between commas are replaced one by one. -/
lemma renameParts_append {rest : PyStr} (comma : 44 ∉ text) :
    renameParts ρ (text ++ 44 :: rest) = renamePart ρ text ++ 44 :: renameParts ρ rest := by
  have more : (split 44 rest).map (renamePart ρ) ≠ [] := by
    rcases split_cases 44 rest with ⟨-, e⟩ | ⟨part, rest, -, -, e⟩ <;> rw [e] <;> simp
  rw [renameParts, split_append comma, List.map_cons, commas_cons more, renameParts]

lemma renameParts_one (comma : 44 ∉ text) : renameParts ρ text = renamePart ρ text := by
  rw [renameParts, split_one comma]
  simp [List.intercalate]

/-- What follows a mnemonic still begins with white space. -/
lemma renameParts_start (start : StartsBlank text) : StartsBlank (renameParts ρ text) := by
  have first : ∀ {part rest : PyStr}, StartsBlank (part ++ 44 :: rest) →
      StartsBlank (renamePart ρ part ++ 44 :: renameParts ρ rest) := by
    intro part rest start
    cases part with
    | nil =>
      have space : isSpace 44 = true := start 44 rfl
      cases space
    | cons c part =>
      obtain ⟨part', e⟩ := renamePart_cons (ρ := ρ) (start c rfl) part
      rw [e]
      exact start
  rcases split_cases 44 text with ⟨comma, -⟩ | ⟨part, rest, comma, rfl, -⟩
  · rw [renameParts_one comma]
    cases text with
    | nil => exact start
    | cons c text =>
      obtain ⟨text', e⟩ := renamePart_cons (ρ := ρ) (start c rfl) text
      rw [e]
      exact start
  · rw [renameParts_append comma]
    exact first start

/-- The shape of a statement, and of the statement with its operands replaced. -/
lemma renameStatement_shape {gap mnemonic rest : PyStr} (blank : Blank gap) (full : mnemonic ≠ [])
    (solid : Solid mnemonic) (start : StartsBlank rest) :
    renameStatement ρ (gap ++ (mnemonic ++ rest)) = gap ++ (mnemonic ++ renameParts ρ rest) := by
  have head : ∀ c ∈ (mnemonic ++ rest).head?, isSpace c = false := by
    intro c mem
    cases mnemonic with
    | nil => exact absurd rfl full
    | cons d m => exact solid c (List.mem_of_mem_head? mem)
  have code : lstrip (gap ++ (mnemonic ++ rest)) = mnemonic ++ rest := by
    rw [lstrip_append blank, lstrip_of_head head]
  rw [renameStatement, code, takeWhile_blank blank head, takeWhile_solid solid start,
    dropWhile_solid solid start]

lemma renameStatement_blank (blank : Blank text) : renameStatement ρ text = text := by
  have front : text.takeWhile isSpace = text := List.takeWhile_eq_self_iff.mpr blank
  rw [renameStatement, lstrip_blank blank, front]
  exact List.append_nil text

end Statements

section Texts

variable [UnicodeData]

/-- A renaming of operands that the assembler cannot tell from the names themselves. -/
structure Renaming (ρ : PyStr → PyStr) : Prop where
  injective : Function.Injective ρ
  number : ∀ token n, int0 token = some n → ρ token = token
  name : ∀ token, int0 token = none → int0 (ρ token) = none
  identifier : ∀ token, isidentifier (ρ token) = isidentifier token
  label : ∀ name, LabelName name → LabelName (ρ name)
  operand : ∀ text, OperandText text → OperandText (ρ text)
  single : ∀ text, SingleLine text → SingleLine (ρ text)

/-- What the Unicode database says of white space: none of it is a word character. -/
def SpacesAreNoWords : Prop := ∀ c : PyChar, isSpace c = true → isWord c = false

/-- Label definitions and a statement, with their names replaced. As in `peelLabels`, the length of
    the text bounds the number of definitions. -/
def renameCode (ρ : PyStr → PyStr) : ℕ → PyStr → PyStr
  | 0, text => renameStatement ρ text
  | fuel + 1, text =>
    match labelPrefix text with
    | none => renameStatement ρ text
    | some (name, rest) => text.takeWhile isSpace ++ (ρ name ++ 58 :: renameCode ρ fuel rest)

/-- A line with its names replaced; its comment is kept. -/
def renameLine (ρ : PyStr → PyStr) (raw : PyStr) : PyStr :=
  let code := raw.takeWhile (·.val != 59)
  renameCode ρ code.length code ++ raw.dropWhile (·.val != 59)

/-- A text with its names replaced, each of its lines ended by a line feed. -/
def renameText (ρ : PyStr → PyStr) (source : PyStr) : PyStr :=
  unlines ((splitlines source).map (renameLine ρ))

variable {ρ : PyStr → PyStr} {token text raw : PyStr} {parts labels : List PyStr}
  {statement : Option (PyStr × List PyStr)}

/-! ## Operands -/

/-- A padded operand is replaced, with its padding kept. -/
lemma renamePart_spec (ren : Renaming ρ) (padded : Padded token text) (comma : 44 ∉ text)
    (inl : Inline text) : Padded (renameToken ρ token) (renamePart ρ text) ∧
      44 ∉ renamePart ρ text ∧ Inline (renamePart ρ text) := by
  have stripped := padded_iff.mp padded
  rw [renamePart, stripped, renameToken]
  cases empty : token.isEmpty with
  | true =>
    rw [if_pos rfl, if_pos rfl]
    exact ⟨padded, comma, inl⟩
  | false =>
    rw [if_neg Bool.false_ne_true, if_neg Bool.false_ne_true]
    obtain ⟨trimmed, l, r, hl, hr, rfl⟩ := padded
    have full : token ≠ [] := by
      rintro rfl
      cases empty
    obtain ⟨inl_l, inl_r⟩ := Inline.append.mp inl
    obtain ⟨inl_t, inl_r⟩ := Inline.append.mp inl_r
    simp only [List.mem_append, not_or] at comma
    have ok := ren.operand token ⟨trimmed, full, comma.2.1, inl_t.1⟩
    have head : ∀ c ∈ (token ++ r).head?, isSpace c = false := by
      cases token with
      | nil => exact absurd rfl full
      | cons c token => exact trimmed.head
    have last : ∀ c ∈ (l ++ token).getLast?, isSpace c = false := by
      rw [List.getLast?_append_of_ne_nil l full]
      exact trimmed.last
    have front : (l ++ (token ++ r)).takeWhile isSpace = l := takeWhile_blank hl head
    have back : (l ++ (token ++ r)).rtakeWhile isSpace = r := by
      rw [← List.append_assoc]
      exact rtakeWhile_blank hr last
    rw [front, back]
    have inl' : Inline (ρ token) := ⟨ok.semicolon, ren.single token inl_t.2⟩
    refine ⟨⟨ok.trimmed, l, r, hl, hr, rfl⟩, ?_, Inline.append.mpr ⟨inl_l, ?_⟩⟩
    · simp only [List.mem_append, not_or]
      exact ⟨comma.1, ok.comma, comma.2.2⟩
    · exact Inline.append.mpr ⟨inl', inl_r⟩

/-- The operands are read as what they are replaced with. -/
lemma renameParts_spec (ren : Renaming ρ) (sep : Parts text parts) (inl : Inline text) :
    Parts (renameParts ρ text) (parts.map (renameToken ρ)) ∧ Inline (renameParts ρ text) := by
  induction sep with
  | one comma padded =>
    obtain ⟨padded', comma', inl'⟩ := renamePart_spec ren padded comma inl
    rw [renameParts_one comma]
    exact ⟨.one comma' padded', inl'⟩
  | cons comma padded _ ih =>
    obtain ⟨inl_text, inl_rest⟩ := Inline.append.mp inl
    obtain ⟨inl_comma, inl_rest⟩ := Inline.cons.mp inl_rest
    obtain ⟨padded', comma', inl'⟩ := renamePart_spec ren padded comma inl_text
    obtain ⟨sep', inl_rest'⟩ := ih inl_rest
    rw [renameParts_append comma]
    exact ⟨.cons comma' padded' sep',
      Inline.append.mpr ⟨inl', Inline.cons.mpr ⟨inl_comma, inl_rest'⟩⟩⟩

/-! ## Statements -/

/-- A statement is read with its operands replaced. -/
lemma renameStatement_spec (ren : Renaming ρ) (s : Statement text statement) (inl : Inline text) :
    Statement (renameStatement ρ text) (renameReading ρ statement) ∧
      Inline (renameStatement ρ text) := by
  cases s with
  | blank blank =>
    rw [renameStatement_blank blank]
    exact ⟨.blank blank, inl⟩
  | instruction blank full solid start sep =>
    obtain ⟨inl_gap, inl_rest⟩ := Inline.append.mp inl
    obtain ⟨inl_mnemonic, inl_rest⟩ := Inline.append.mp inl_rest
    obtain ⟨sep', inl'⟩ := renameParts_spec ren sep inl_rest
    rw [renameStatement_shape blank full solid start]
    exact ⟨.instruction blank full solid (renameParts_start start) sep',
      Inline.append.mpr ⟨inl_gap, Inline.append.mpr ⟨inl_mnemonic, inl'⟩⟩⟩

/-- The characters of a name are word characters. -/
lemma LabelName.word {name : PyStr} (h : LabelName name) : ∀ c ∈ name, isWord c = true := by
  obtain ⟨c, cs, rfl, start, words⟩ := h
  refine List.forall_mem_cons.mpr ⟨?_, words⟩
  have ascii := start.facts.1
  have start' : (isAsciiLetter c || isUnderscore c) = true := start
  rw [isWord, isAlnumChar, if_pos ascii]
  rcases Bool.or_eq_true_iff.mp start' with letter | under
  · rw [letter, Bool.true_or, Bool.true_or]
  · rw [under, Bool.or_true]

/-- A name begins with no white space. -/
lemma LabelName.head {name : PyStr} (h : LabelName name) (rest : PyStr) :
    ∀ c ∈ (name ++ rest).head?, isSpace c = false := by
  obtain ⟨c, cs, rfl, start, -⟩ := h
  intro d mem
  cases mem
  exact start.solid

/-- A definition lies within the first token of a text. -/
lemma labelDef_token (spaces : SpacesAreNoWords) {gap mnemonic rest name after : PyStr}
    (blank : Blank gap) (full : mnemonic ≠ []) (solid : Solid mnemonic) (start : StartsBlank rest)
    (h : LabelDef (gap ++ (mnemonic ++ rest)) name after) :
    ∃ after', mnemonic = name ++ 58 :: after' := by
  obtain ⟨gap', blank', named, e⟩ := h
  have name_solid : Solid (name ++ [58]) := by
    refine List.forall_mem_append.mpr ⟨fun c mem => ?_, List.forall_mem_singleton.mpr rfl⟩
    by_contra space
    have word := named.word c mem
    rw [spaces c (Bool.not_eq_false _ ▸ space)] at word
    cases word
  have head : ∀ c ∈ (mnemonic ++ rest).head?, isSpace c = false := by
    intro c mem
    cases mnemonic with
    | nil => exact absurd rfl full
    | cons d m => exact solid c (List.mem_of_mem_head? mem)
  have head' : ∀ c ∈ (name ++ [58] ++ after).head?, isSpace c = false := by
    rw [List.append_assoc]
    exact named.head _
  -- Without the white space in front, both texts begin with a token.
  have same : mnemonic ++ rest = name ++ [58] ++ after :=
    calc
      mnemonic ++ rest = lstrip (gap ++ (mnemonic ++ rest)) := by
        rw [lstrip_append blank, lstrip_of_head head]
      _ = lstrip (gap' ++ (name ++ [58] ++ after)) := by rw [e, List.append_assoc name]; rfl
      _ = name ++ [58] ++ after := by rw [lstrip_append blank', lstrip_of_head head']
  refine ⟨after.takeWhile (!isSpace ·), ?_⟩
  rw [← takeWhile_solid solid start, same,
    List.takeWhile_append_of_pos fun c mem => by simp [name_solid c mem], List.append_assoc]
  rfl

/-- Where no label is defined, none is when the operands are replaced. -/
lemma renameStatement_labels (spaces : SpacesAreNoWords)
    (none : ∀ name rest, ¬LabelDef text name rest) (name after : PyStr) :
    ¬LabelDef (renameStatement ρ text) name after := by
  intro h
  have s : Statement text (statementOf text) := statement_iff.mpr rfl
  generalize statementOf text = statement at s
  cases s with
  | blank blank =>
    rw [renameStatement_blank blank] at h
    exact none name after h
  | @instruction gap mnemonic rest parts blank full solid start sep =>
    rw [renameStatement_shape blank full solid start] at h
    obtain ⟨after', rfl⟩ := labelDef_token spaces blank full solid (renameParts_start start) h
    obtain ⟨-, -, named, -⟩ := h
    exact none name (after' ++ rest) ⟨gap, blank, named, by simp⟩

/-! ## Lines -/

/-- Code is read with its names replaced. -/
lemma renameCode_spec (ren : Renaming ρ) (spaces : SpacesAreNoWords) {fuel : ℕ} {body : PyStr}
    (enough : text.length ≤ fuel) (defs : LabelDefs text labels body)
    (s : Statement body statement) (inl : Inline text) :
    ∃ body', LabelDefs (renameCode ρ fuel text) (labels.map ρ) body' ∧
      Statement body' (renameReading ρ statement) ∧ Inline (renameCode ρ fuel text) := by
  induction defs generalizing fuel with
  | @nil text none =>
    have same : renameCode ρ fuel text = renameStatement ρ text := by
      cases fuel with
      | zero => rfl
      | succ fuel =>
        have missing : labelPrefix text = Option.none := by
          refine Option.eq_none_iff_forall_ne_some.mpr fun found e => ?_
          exact none found.1 found.2 (labelDef_iff.mpr e)
        rw [renameCode, missing]
    obtain ⟨s', inl'⟩ := renameStatement_spec ren s inl
    rw [same]
    exact ⟨_, .nil (renameStatement_labels spaces none), s', inl'⟩
  | @cons text name rest names body first _ ih =>
    have shorter := first.shorter
    obtain ⟨fuel, rfl⟩ : ∃ k, fuel = k + 1 := ⟨fuel - 1, by omega⟩
    have enough' : rest.length ≤ fuel := by omega
    rw [renameCode, labelDef_iff.mp first]
    obtain ⟨gap, blank, named, rfl⟩ := first
    obtain ⟨inl_gap, inl_rest⟩ := Inline.append.mp inl
    obtain ⟨inl_name, inl_rest⟩ := Inline.append.mp inl_rest
    obtain ⟨inl_colon, inl_rest⟩ := Inline.cons.mp inl_rest
    obtain ⟨body', defs', s', inl'⟩ := ih enough' s inl_rest
    have named' := ren.label name named
    have inl_name' : Inline (ρ name) :=
      ⟨named'.not_mem (by decide) (by decide), ren.single name inl_name.2⟩
    rw [takeWhile_blank blank (named.head _)]
    exact ⟨body', .cons ⟨gap, blank, named', rfl⟩ defs', s', Inline.append.mpr ⟨inl_gap,
      Inline.append.mpr ⟨inl_name', Inline.cons.mpr ⟨inl_colon, inl'⟩⟩⟩⟩

/-- A line is read with its names replaced, and stays one line. -/
lemma renameLine_spec (ren : Renaming ρ) (spaces : SpacesAreNoWords)
    (h : LineText raw labels statement) (single : SingleLine raw) :
    LineText (renameLine ρ raw) (labels.map ρ) (renameReading ρ statement) ∧
      SingleLine (renameLine ρ raw) := by
  obtain ⟨code, body, c, d, s⟩ := h
  have parts : ∃ comment, raw = code ++ comment ∧ (comment = [] ∨ ∃ t, comment = 59 :: t) := by
    rcases c.2 with rfl | ⟨comment, rfl⟩
    · exact ⟨[], (List.append_nil _).symm, .inl rfl⟩
    · exact ⟨_, rfl, .inr ⟨comment, rfl⟩⟩
  obtain ⟨comment, e, shape⟩ := parts
  have same : renameLine ρ raw = renameCode ρ code.length code ++ comment := by
    have front := code_iff.mp c
    have whole := List.takeWhile_append_dropWhile (p := fun c : PyChar => c.val != 59) (l := raw)
    rw [front] at whole
    rw [renameLine, front, List.append_cancel_left (whole.trans e)]
  rw [e] at single
  obtain ⟨code_single, comment_single⟩ := List.forall_mem_append.mp single
  obtain ⟨body', defs', s', clean, code_single'⟩ :=
    renameCode_spec ren spaces (Nat.le_refl _) d s ⟨c.1, code_single⟩
  rw [same]
  refine ⟨⟨_, body', ⟨clean, ?_⟩, defs', s'⟩, code_single'.append comment_single⟩
  rcases shape with rfl | ⟨t, rfl⟩
  · exact .inl (List.append_nil _)
  · exact .inr ⟨t, rfl⟩

end Texts

end MinCpuForth.Assembler
