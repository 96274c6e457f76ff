import MinCpuForth.Adapters.DictionaryHistory

/-!
# Hidden words

A word whose smudge cell is not zero is hidden. `Built` follows a dictionary through any appends and
any changes of smudge cells, and lists the headers of its words; the memory then represents an
abstract dictionary with these headers.
-/

namespace MinCpuForth.Adapters
open Python Domain Layout Lib ListMemoryAdapter

/-- What the links point to. -/
def DictionaryHeaderDto.name_field (h : DictionaryHeaderDto) : ℤ := h.cfa - 1 - h.name.length

/-- The cell that hides the word. -/
def DictionaryHeaderDto.smudge_cell (h : DictionaryHeaderDto) : ℤ :=
  h.name_field - (HeaderField.NAME_LENGTH - HeaderField.SMUDGE)

namespace Entry

/-- The word with another value in its smudge cell. -/
def mark (e : Entry) (value : ℤ) : Entry := { e with smudge := value }

variable (e : Entry) (value : ℤ)

@[simp] lemma mark_start : (e.mark value).start = e.start := rfl

@[simp] lemma mark_link : (e.mark value).link = e.link := rfl

@[simp] lemma mark_name_field : (e.mark value).name_field = e.name_field := rfl

@[simp] lemma mark_stop : (e.mark value).stop = e.stop := by
  simp [stop, mark]

lemma header_name_field : e.header.name_field = e.name_field := by
  simp only [DictionaryHeaderDto.name_field, header, cfa]
  omega

lemma header_smudge_cell : e.header.smudge_cell = e.start + 2 := by
  rw [DictionaryHeaderDto.smudge_cell, header_name_field, name_field_eq]
  simp only [HeaderField.NAME_LENGTH, HeaderField.SMUDGE]
  omega

lemma header_mark : (e.mark value).header = { e.header with smudge := value != 0 } := rfl

/-- The cells of a marked word. -/
lemma mark_cellsAt {cell : ℤ → ℤ} (h : CellsAt cell e.start e.cells) :
    CellsAt (Function.update cell (e.start + 2) value) (e.mark value).start
      (e.mark value).cells := by
  obtain ⟨link, immediate, -, name, code⟩ := cellsAt_iff.mp h
  refine cellsAt_iff.mpr ⟨?_, ?_, Function.update_self .., ?_, ?_⟩
  · rw [mark_start, Function.update_of_ne (by omega), link, mark_link]
  · rw [mark_start, Function.update_of_ne (by omega), immediate]
    rfl
  · refine name.congr fun i lo _ => Function.update_of_ne ?_ ..
    rw [name_field_eq] at lo
    omega
  · refine code.congr fun i lo _ => Function.update_of_ne ?_ ..
    have le : e.name_field + 1 + e.name.length ≤ i := lo
    rw [name_field_eq] at le
    omega

end Entry

/-- Words do not overlap. -/
lemma Linked.pairwise {es : List Entry} {limit : ℤ} (h : Linked es limit) :
    es.Pairwise fun e e' => e'.stop ≤ e.start := by
  induction es generalizing limit with
  | nil => exact .nil
  | cons e es ih => exact .cons (fun e' mem => (h.2.2.bounds mem).2) (ih h.2.2)

/-- Marking a word does not move any. -/
lemma Linked.mark {newer older : List Entry} {e : Entry} {limit : ℤ}
    (h : Linked (newer ++ e :: older) limit) (value : ℤ) :
    Linked (newer ++ e.mark value :: older) limit := by
  induction newer generalizing limit with
  | nil => exact ⟨h.1, by rw [Entry.mark_stop]; exact h.2.1, h.2.2⟩
  | cons e' newer ih =>
    refine ⟨?_, h.2.1, ih h.2.2⟩
    rw [h.1]
    cases newer <;> rfl

namespace MemoryDictionaryAdapter

variable {n : ℕ}

/-- The name field of the newest word, zero if there is none. -/
def latestField : List DictionaryHeaderDto → ℤ
  | [] => 0
  | h :: _ => h.name_field

/-- The memory comes from a fresh dictionary by any successful appends, by any stores to the smudge
    cells of words that are installed, and by any changes elsewhere. The headers of the words are
    listed newest first. -/
inductive Built : ListMemoryAdapter n → List DictionaryHeaderDto → Prop
  | init {m m'} : init m = .ok () m' → Built m' []
  | cell {m m' headers value address} : Built m headers → append_cell value m = .ok address m' →
    Built m' headers
  | word {m m' headers name code_field thread immediate cfa} : Built m headers →
    append_word name code_field thread immediate m = .ok cfa m' →
    Built m' ({ name := name, link := latestField headers, immediate := immediate,
                smudge := false, cfa := cfa } :: headers)
  | smudge {m m' newer older header value} : Built m (newer ++ header :: older) →
    store header.smudge_cell value m = .ok () m' →
    Built m' (newer ++ { header with smudge := value != 0 } :: older)
  | other {m m' headers} : Built m headers →
    (∀ a, a = DP_ADDR ∨ a = LATEST_ADDR ∨ DICTIONARY_BASE ≤ a ∧ a < m.cell DP_ADDR →
      m'.cell a = m.cell a) → Built m' headers

variable {m m' : ListMemoryAdapter n}

lemma latestField_header (es : List Entry) : latestField (es.map Entry.header) = latestOf es := by
  cases es with
  | nil => rfl
  | cons e es => exact e.header_name_field

/-- A store to the smudge cell of a word. -/
lemma Represents.mark {dp : ℤ} {newer older : List Entry} {e : Entry}
    {linked : Linked (newer ++ e :: older) dp} (rep : Represents m ⟨dp, newer ++ e :: older, linked⟩)
    (value : ℤ) :
    Represents (m.set (e.start + 2) value) ⟨dp, newer ++ e.mark value :: older, linked.mark value⟩ := by
  have lay := Layout.values
  obtain ⟨ready, latest, stored⟩ := rep
  obtain ⟨lo, hi⟩ := linked.bounds (List.mem_append_right newer (List.mem_cons_self ..))
  have size : dp ≤ n := ready.le_size
  simp only [Entry.stop, Entry.length_cells] at hi
  have cell : (m.set (e.start + 2) value).cell = Function.update m.cell (e.start + 2) value :=
    m.cell_set_of_lt value (by omega) (by omega)
  obtain ⟨-, apart, across⟩ := List.pairwise_append.mp linked.pairwise
  refine ⟨⟨?_, ready.base_le, size⟩, ?_, fun e' mem => ?_⟩
  · rw [cell, Function.update_of_ne (by omega), ready.dp]
  · rw [cell, Function.update_of_ne (by omega), latest]
    cases newer <;> rfl
  · rw [cell]
    rcases List.mem_append.mp mem with newest | rest
    · have past := across e' newest e (List.mem_cons_self ..)
      simp only [Entry.stop, Entry.length_cells] at past
      refine (stored e' (List.mem_append_left _ newest)).congr fun i lo' _ => ?_
      exact Function.update_of_ne (by omega) ..
    · cases rest with
      | head => exact e.mark_cellsAt value (stored e (List.mem_append_right _ (.head _)))
      | tail _ oldest =>
        have before := (List.pairwise_cons.mp apart).1 e' oldest
        refine (stored e' (List.mem_append_right _ (.tail _ oldest))).congr fun i _ hi' => ?_
        simp only [Entry.stop] at before
        exact Function.update_of_ne (by omega) ..

/-- Another memory with the same dictionary cells. -/
lemma Represents.copied {d : Dictionary} (rep : Represents m d) {size : ℕ}
    {m' : ListMemoryAdapter size} (le : d.dp ≤ size)
    (same : ∀ a, a = DP_ADDR ∨ a = LATEST_ADDR ∨ DICTIONARY_BASE ≤ a ∧ a < m.cell DP_ADDR →
      m'.cell a = m.cell a) : Represents m' d := by
  obtain ⟨ready, latest, stored⟩ := rep
  refine ⟨⟨?_, ready.base_le, le⟩, ?_, fun e mem => ?_⟩
  · rw [same _ (.inl rfl), ready.dp]
  · rw [same _ (.inr (.inl rfl)), latest]
  · obtain ⟨lo, hi⟩ := d.linked.bounds mem
    refine (stored e mem).congr fun i lo' hi' => same i (.inr (.inr ⟨by omega, ?_⟩))
    rw [ready.dp]
    simp only [Entry.stop] at hi
    omega

/-- Changes outside the dictionary. -/
lemma Represents.other {d : Dictionary} (rep : Represents m d)
    (same : ∀ a, a = DP_ADDR ∨ a = LATEST_ADDR ∨ DICTIONARY_BASE ≤ a ∧ a < m.cell DP_ADDR →
      m'.cell a = m.cell a) : Represents m' d :=
  rep.copied rep.ready.le_size same

/-- Such a memory represents a dictionary with these headers. -/
lemma Built.represents {headers : List DictionaryHeaderDto} (h : Built m headers)
    (room : DICTIONARY_BASE ≤ n) : ∃ d, Represents m d ∧ d.entries.map Entry.header = headers := by
  induction h with
  | @init m m' e =>
    obtain ⟨m₁, e₁, rep, -⟩ := init_represents m room
    obtain ⟨-, rfl⟩ := EStateM.Result.ok.inj (e₁.symm.trans e)
    exact ⟨_, rep, rfl⟩
  | @cell m m' headers value address _ e ih =>
    obtain ⟨d, rep, eq⟩ := ih
    have app := append_cell_appends rep.ready value
    by_cases fit : d.dp + ([value] : List ℤ).length ≤ n
    · obtain ⟨m₁, e₁, g⟩ := app.fits fit
      obtain ⟨-, rfl⟩ := EStateM.Result.ok.inj (e₁.symm.trans e)
      exact ⟨_, rep.skip g fit, eq⟩
    · obtain ⟨m₁, e₁, -⟩ := app.overflows (by omega)
      exact absurd (e₁.symm.trans e) (by simp)
  | @word m m' headers name code_field thread immediate cfa _ e ih =>
    obtain ⟨d, rep, eq⟩ := ih
    by_cases fit : (d.next name code_field thread immediate).stop ≤ n
    · obtain ⟨m₁, e₁, rep', -⟩ := append_word_ok rep fit
      obtain ⟨rfl, rfl⟩ := EStateM.Result.ok.inj (e₁.symm.trans e)
      refine ⟨_, rep', ?_⟩
      rw [← eq, latestField_header]
      rfl
    · obtain ⟨m₁, e₁, -⟩ := append_word_overflow rep (by omega :
        (n : ℤ) < (d.next name code_field thread immediate).stop)
      exact absurd (e₁.symm.trans e) (by simp)
  | @smudge m m' newer older header value _ e ih =>
    obtain ⟨⟨dp, entries, linked⟩, rep, eq⟩ := ih
    obtain ⟨es, rest, rfl, rfl, eq'⟩ := List.map_eq_append_iff.mp eq
    obtain ⟨w, es', rfl, rfl, rfl⟩ := List.map_eq_cons_iff.mp eq'
    have le : dp ≤ n := rep.ready.le_size
    obtain ⟨lo, hi⟩ := linked.bounds (List.mem_append_right es (List.mem_cons_self ..))
    have lay := Layout.values
    simp only [Entry.stop, Entry.length_cells] at hi
    rw [Entry.header_smudge_cell, store_of_lt (by omega) (by omega)] at e
    obtain ⟨-, rfl⟩ := EStateM.Result.ok.inj e
    refine ⟨_, rep.mark value, ?_⟩
    simp only [List.map_append, List.map_cons, Entry.header_mark]
  | other _ same ih =>
    obtain ⟨d, rep, eq⟩ := ih
    exact ⟨d, rep.other same, eq⟩

end MemoryDictionaryAdapter

end MinCpuForth.Adapters
