import MinCpuForth.Python.Str

/-!
# Trimming and splitting

What `strip`, `split` and `splitNone1` make of a text that is given as a concatenation: padding
disappears, separators separate.
-/

namespace MinCpuForth.Python

/-- White space only. -/
def Blank (s : PyStr) : Prop := ∀ c ∈ s, isSpace c = true

/-- No white space at all. -/
def Solid (s : PyStr) : Prop := ∀ c ∈ s, isSpace c = false

/-- No white space at either end. -/
structure Trimmed (s : PyStr) : Prop where
  head : ∀ c ∈ s.head?, isSpace c = false
  last : ∀ c ∈ s.getLast?, isSpace c = false

/-- Empty, or white space first. -/
def StartsBlank (s : PyStr) : Prop := ∀ c ∈ s.head?, isSpace c = true

variable {s t l r gap token : PyStr}

lemma Blank.nil : Blank [] := List.forall_mem_nil _

/-- One blank. -/
lemma Blank.space : Blank [32] := by
  intro c mem
  cases List.mem_singleton.mp mem
  decide

lemma Blank.not_mem {s : PyStr} {c : PyChar} (h : Blank s) (solid : isSpace c = false) : c ∉ s := by
  intro mem
  rw [h c mem] at solid
  cases solid

lemma Blank.append (h : Blank s) (h' : Blank t) : Blank (s ++ t) := List.forall_mem_append.mpr ⟨h, h'⟩

lemma Blank.reverse (h : Blank s) : Blank s.reverse := fun c mem => h c (List.mem_reverse.mp mem)

lemma Trimmed.nil : Trimmed [] := ⟨fun _ mem => (by cases mem), fun _ mem => by cases mem⟩

lemma Trimmed.reverse (h : Trimmed s) : Trimmed s.reverse :=
  ⟨by rw [List.head?_reverse]; exact h.last, by rw [List.getLast?_reverse]; exact h.head⟩

lemma Solid.trimmed (h : Solid s) : Trimmed s :=
  ⟨fun c mem => h c (List.mem_of_mem_head? mem), fun c mem => h c (List.mem_of_mem_getLast? mem)⟩

/-- Leading white space goes. -/
lemma lstrip_append (h : Blank l) : lstrip (l ++ s) = lstrip s := by
  induction l with
  | nil => rfl
  | cons c l ih =>
    obtain ⟨hc, hl⟩ := List.forall_mem_cons.mp h
    rw [List.cons_append, lstrip, List.dropWhile_cons_of_pos hc]
    exact ih hl

lemma lstrip_blank (h : Blank s) : lstrip s = [] := by
  have e := lstrip_append (s := []) h
  rwa [List.append_nil] at e

/-- A text that does not begin with white space is left alone. -/
lemma lstrip_of_head (h : ∀ c ∈ s.head?, isSpace c = false) : lstrip s = s := by
  cases s with
  | nil => rfl
  | cons c s =>
    have solid : isSpace c = false := h c rfl
    rw [lstrip, List.dropWhile_cons_of_neg (by simp [solid])]

/-- What `lstrip` takes off. -/
lemma lstrip_spec (s : PyStr) :
    ∃ l, Blank l ∧ s = l ++ lstrip s ∧ ∀ c ∈ (lstrip s).head?, isSpace c = false := by
  induction s with
  | nil => exact ⟨[], .nil, rfl, fun _ mem => by cases mem⟩
  | cons c s ih =>
    cases space : isSpace c with
    | true =>
      obtain ⟨l, blank, e, head⟩ := ih
      have step : lstrip (c :: s) = lstrip s := List.dropWhile_cons_of_pos space
      rw [step]
      exact ⟨c :: l, List.forall_mem_cons.mpr ⟨space, blank⟩, congrArg _ e, head⟩
    | false =>
      have head : ∀ d ∈ (c :: s).head?, isSpace d = false := by
        intro d mem
        cases mem
        exact space
      rw [lstrip_of_head head]
      exact ⟨[], .nil, rfl, head⟩

lemma rstrip_eq (s : PyStr) : rstrip s = (lstrip s.reverse).reverse := rfl

/-- Trailing white space goes. -/
lemma rstrip_append (h : Blank r) : rstrip (s ++ r) = rstrip s := by
  rw [rstrip_eq, List.reverse_append, lstrip_append h.reverse, rstrip_eq]

/-- A text that does not end in white space is left alone. -/
lemma rstrip_of_last (h : ∀ c ∈ s.getLast?, isSpace c = false) : rstrip s = s := by
  rw [rstrip_eq, lstrip_of_head (by rwa [List.head?_reverse]), List.reverse_reverse]

/-- What `rstrip` takes off. -/
lemma rstrip_spec (s : PyStr) :
    ∃ r, Blank r ∧ s = rstrip s ++ r ∧ ∀ c ∈ (rstrip s).getLast?, isSpace c = false := by
  obtain ⟨l, blank, e, head⟩ := lstrip_spec s.reverse
  refine ⟨l.reverse, blank.reverse, ?_, ?_⟩
  · rw [rstrip_eq, ← List.reverse_append, ← e, List.reverse_reverse]
  · rw [rstrip_eq, List.getLast?_reverse]
    exact head

/-- Padding goes. -/
lemma strip_padded (hl : Blank l) (hr : Blank r) (h : Trimmed token) :
    strip (l ++ (token ++ r)) = token := by
  rw [strip, lstrip_append hl]
  cases token with
  | nil => rw [List.nil_append, lstrip_blank hr]; rfl
  | cons c token =>
    have head : ∀ d ∈ (c :: token ++ r).head?, isSpace d = false := h.head
    rw [lstrip_of_head head, rstrip_append hr, rstrip_eq, lstrip_of_head h.reverse.head,
      List.reverse_reverse]

/-- A text is what `strip` leaves of it, padded. -/
lemma strip_spec (s : PyStr) :
    ∃ l r, Blank l ∧ Blank r ∧ s = l ++ (strip s ++ r) ∧ Trimmed (strip s) := by
  obtain ⟨l, hl, e, head⟩ := lstrip_spec s
  obtain ⟨r, hr, e', last⟩ := rstrip_spec (lstrip s)
  refine ⟨l, r, hl, hr, e.trans (congrArg _ e'), fun c mem => head c ?_, last⟩
  have first : strip s = rstrip (lstrip s) := rfl
  rw [first] at mem
  rw [e', List.head?_append]
  cases h : (rstrip (lstrip s)).head? with
  | none => rw [h] at mem; cases mem
  | some d => rw [h] at mem; exact mem

lemma strip_blank (h : Blank s) : strip s = [] := by
  rw [strip, lstrip_blank h]
  rfl

/-- Padding in front does not matter. -/
lemma strip_append_left (hl : Blank l) : strip (l ++ s) = strip s := by
  rw [strip, lstrip_append hl, strip]

/-- Padding behind does not matter. -/
lemma strip_append_right (hr : Blank r) : strip (s ++ r) = strip s := by
  obtain ⟨l, r', hl, hr', e, trimmed⟩ := strip_spec s
  rw [e, List.append_assoc, List.append_assoc, strip_padded hl (hr'.append hr) trimmed,
    strip_padded hl hr' trimmed]

/-! ## Splitting at a separator -/

section Split

variable {sep : PyChar} {part : PyStr}

lemma split_cons_of_ne {c : PyChar} (ne : c ≠ sep) {p : PyStr} {ps : List PyStr}
    (e : split sep s = p :: ps) : split sep (c :: s) = (c :: p) :: ps := by
  rw [split, if_neg ne, e]

/-- A text without separators is one part. -/
lemma split_one (h : sep ∉ part) : split sep part = [part] := by
  induction part with
  | nil => rfl
  | cons c part ih =>
    obtain ⟨ne, rest⟩ := not_or.mp (mt List.mem_cons.mpr h)
    exact split_cons_of_ne (Ne.symm ne) (ih rest)

/-- A part, a separator, and the other parts. -/
lemma split_append (h : sep ∉ part) : split sep (part ++ sep :: s) = part :: split sep s := by
  induction part with
  | nil => rw [List.nil_append, split, if_pos rfl]
  | cons c part ih =>
    obtain ⟨ne, rest⟩ := not_or.mp (mt List.mem_cons.mpr h)
    exact split_cons_of_ne (Ne.symm ne) (ih rest)

/-- Every text is parts with separators between them. -/
lemma split_cases (sep : PyChar) (s : PyStr) :
    (sep ∉ s ∧ split sep s = [s]) ∨
      ∃ part rest, sep ∉ part ∧ s = part ++ sep :: rest ∧ split sep s = part :: split sep rest := by
  induction s with
  | nil => exact .inl ⟨List.not_mem_nil, rfl⟩
  | cons c s ih =>
    by_cases here : c = sep
    · subst here
      exact .inr ⟨[], s, List.not_mem_nil, rfl, split_append List.not_mem_nil⟩
    · rcases ih with ⟨absent, e⟩ | ⟨part, rest, absent, e, e'⟩
      · have absent' : sep ∉ c :: s := List.not_mem_cons_of_ne_of_not_mem (Ne.symm here) absent
        exact .inl ⟨absent', split_one absent'⟩
      · have absent' : sep ∉ c :: part := List.not_mem_cons_of_ne_of_not_mem (Ne.symm here) absent
        exact .inr ⟨c :: part, rest, absent', congrArg _ e, split_cons_of_ne here e'⟩

/-- Padding in front of a text pads its first part. -/
lemma map_strip_split_left (space : isSpace sep = false) (hl : Blank l) :
    (split sep (l ++ s)).map strip = (split sep s).map strip := by
  have absent : sep ∉ l := fun mem => by rw [hl sep mem] at space; cases space
  rcases split_cases sep s with ⟨none, e⟩ | ⟨part, rest, none, e, e'⟩
  · rw [e, split_one (by simp [absent, none])]
    simp only [List.map_cons, strip_append_left hl]
  · rw [e', e, ← List.append_assoc, split_append (by simp [absent, none])]
    simp only [List.map_cons, strip_append_left hl]

/-- Padding behind a text pads its last part. -/
lemma map_strip_split_right (space : isSpace sep = false) (hr : Blank r) :
    (split sep (s ++ r)).map strip = (split sep s).map strip := by
  have absent : sep ∉ r := fun mem => by rw [hr sep mem] at space; cases space
  induction h : s.length using Nat.strongRecOn generalizing s with
  | _ n ih =>
    rcases split_cases sep s with ⟨none, e⟩ | ⟨part, rest, none, e, e'⟩
    · rw [e, split_one (by simp [absent, none])]
      simp only [List.map_cons, strip_append_right hr]
    · have shorter : rest.length < n := by
        rw [← h, e, List.length_append, List.length_cons]
        omega
      have step : s ++ r = part ++ sep :: (rest ++ r) := by rw [e]; simp
      rw [step, split_append none, e', List.map_cons, List.map_cons, ih _ shorter rfl]

end Split

/-! ## The first token -/

section Token

variable {m rest : PyStr}

lemma takeWhile_solid (h : Solid m) (start : StartsBlank rest) :
    (m ++ rest).takeWhile (!isSpace ·) = m := by
  rw [List.takeWhile_append_of_pos fun c mem => by simp [h c mem]]
  cases rest with
  | nil => simp
  | cons c rest =>
    have space : isSpace c = true := start c rfl
    rw [List.takeWhile_cons_of_neg (by simp [space]), List.append_nil]

lemma dropWhile_solid (h : Solid m) (start : StartsBlank rest) :
    (m ++ rest).dropWhile (!isSpace ·) = rest := by
  rw [List.dropWhile_append_of_pos fun c mem => by simp [h c mem]]
  cases rest with
  | nil => rfl
  | cons c rest =>
    have space : isSpace c = true := start c rfl
    exact List.dropWhile_cons_of_neg (by simp [space])

/-- What the first token and the rest of a text are. -/
lemma token_spec (s : PyStr) : Solid (s.takeWhile (!isSpace ·)) ∧
    StartsBlank (s.dropWhile (!isSpace ·)) := by
  induction s with
  | nil => exact ⟨List.forall_mem_nil _, fun _ mem => by cases mem⟩
  | cons c s ih =>
    cases space : isSpace c with
    | true =>
      rw [List.takeWhile_cons_of_neg (by simp [space]), List.dropWhile_cons_of_neg (by simp [space])]
      refine ⟨List.forall_mem_nil _, fun d mem => ?_⟩
      cases mem
      exact space
    | false =>
      rw [List.takeWhile_cons_of_pos (by simp [space]), List.dropWhile_cons_of_pos (by simp [space])]
      exact ⟨List.forall_mem_cons.mpr ⟨space, ih.1⟩, ih.2⟩

/-- Trailing white space of a text goes with what follows its first token. -/
lemma rstrip_solid (h : Solid m) : rstrip (m ++ rest) = m ++ rstrip rest := by
  obtain ⟨r, hr, e, last⟩ := rstrip_spec rest
  have last' : ∀ c ∈ (m ++ rstrip rest).getLast?, isSpace c = false := by
    intro c mem
    rw [List.getLast?_append] at mem
    cases found : (rstrip rest).getLast? with
    | none =>
      rw [found] at mem
      exact h.trimmed.last c mem
    | some d =>
      rw [found] at mem last
      exact last c mem
  conv_lhs => rw [e, ← List.append_assoc, rstrip_append hr]
  exact rstrip_of_last last'

/-- The first token of a trimmed text, and what follows it. -/
lemma splitNone1_solid (ne : m ≠ []) (h : Solid m) (start : StartsBlank rest) :
    ∃ parts, splitNone1 (m ++ rest) = m :: parts ∧ parts.headD [] = lstrip rest := by
  have head : ∀ c ∈ (m ++ rest).head?, isSpace c = false := by
    intro c mem
    cases m with
    | nil => exact absurd rfl ne
    | cons d m => exact h c (List.mem_of_mem_head? mem)
  have full : (m ++ rest).isEmpty = false := by
    cases m with
    | nil => exact absurd rfl ne
    | cons d m => rfl
  simp only [splitNone1, lstrip_of_head head, takeWhile_solid h start, dropWhile_solid h start, full,
    Bool.false_eq_true, if_false]
  split
  · rename_i nil
    exact ⟨[], rfl, (List.isEmpty_iff.mp nil).symm⟩
  · exact ⟨[lstrip rest], rfl, rfl⟩

end Token

end MinCpuForth.Python
