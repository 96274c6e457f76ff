import MinCpuForth.Adapters.DictionaryGrowth

/-!
# What the dictionary holds

The abstract dictionary is a list of words, newest first, each with the place where it lies. The
memory represents it: the cells of every word are in place, the links run from `LATEST` down to the
oldest word, and appending a word to the memory appends it to the list. Walking the links yields the
list back.
-/

namespace MinCpuForth.Adapters
open Python Domain Layout Lib ListMemoryAdapter MemorySystemVariablesAdapter

/-- A word and the place of its header. -/
structure Entry where
  start : ℤ
  link : ℤ
  immediate : Bool
  smudge : ℤ
  name : PyStr
  code_field : ℤ
  thread : List ℤ
  deriving DecidableEq

namespace Entry

/-- What the links point to. -/
def name_field (e : Entry) : ℤ := e.start + HeaderField.NAME_LENGTH

/-- The code field address. -/
def cfa (e : Entry) : ℤ := e.name_field + 1 + e.name.length

/-- The cells of the word: header, code field and thread. -/
def cells (e : Entry) : List ℤ :=
  [e.link, if e.immediate then 1 else 0, e.smudge] ++
    (MemoryCountedStringAdapter.cells e.name ++ e.code_field :: e.thread)

/-- The first address past the word. -/
def stop (e : Entry) : ℤ := e.start + e.cells.length

lemma name_field_eq (e : Entry) : e.name_field = e.start + 3 := rfl

/-- The header as the adapter decodes it. -/
def header (e : Entry) : DictionaryHeaderDto :=
  { name := e.name, link := e.link, immediate := e.immediate, smudge := e.smudge != 0,
    cfa := e.cfa }

@[simp] lemma length_cells (e : Entry) : e.cells.length = e.name.length + e.thread.length + 5 := by
  simp only [cells, List.length_append, List.length_cons, List.length_nil,
    MemoryCountedStringAdapter.length_cells]
  omega

/-- The cells of a word, one part at a time. -/
lemma cellsAt_iff {cell : ℤ → ℤ} {e : Entry} : CellsAt cell e.start e.cells ↔
    cell e.start = e.link ∧ cell (e.start + 1) = (if e.immediate then 1 else 0) ∧
      cell (e.start + 2) = e.smudge ∧
      CellsAt cell e.name_field (MemoryCountedStringAdapter.cells e.name) ∧
      CellsAt cell e.cfa (e.code_field :: e.thread) := by
  have e1 : e.start + 1 + 1 = e.start + 2 := by omega
  have e2 : e.start + 2 + 1 = e.name_field := by
    rw [name_field_eq]
    omega
  have e3 : e.name_field + (MemoryCountedStringAdapter.cells e.name).length = e.cfa := by
    simp only [cfa, MemoryCountedStringAdapter.length_cells]
    omega
  simp only [cells, List.cons_append, List.nil_append, CellsAt.cons, e1, e2, CellsAt.append, e3]

end Entry

/-- The name field of the newest word, zero if there is none. -/
def latestOf : List Entry → ℤ
  | [] => 0
  | e :: _ => e.name_field

/-- The words lie in `[DICTIONARY_BASE, limit)`, each before the newer ones, and each links to the
    word before it. -/
def Linked : List Entry → ℤ → Prop
  | [], limit => DICTIONARY_BASE ≤ limit
  | e :: es, limit => e.link = latestOf es ∧ e.stop ≤ limit ∧ Linked es e.start

/-- The words of a dictionary that ends at `limit` end at any later address. -/
lemma Linked.mono {es : List Entry} {limit limit' : ℤ} (h : Linked es limit)
    (le : limit ≤ limit') : Linked es limit' := by
  cases es with
  | nil => exact Int.le_trans h le
  | cons e es => exact ⟨h.1, Int.le_trans h.2.1 le, h.2.2⟩

/-- The dictionary does not reach below its base. -/
lemma Linked.base_le {es : List Entry} {limit : ℤ} (h : Linked es limit) :
    DICTIONARY_BASE ≤ limit := by
  induction es generalizing limit with
  | nil => exact h
  | cons e es ih =>
    have base := ih h.2.2
    have le := h.2.1
    simp only [Entry.stop] at le
    omega

/-- Where a word of a dictionary lies. -/
lemma Linked.bounds {es : List Entry} {limit : ℤ} (h : Linked es limit) {e : Entry}
    (mem : e ∈ es) : DICTIONARY_BASE ≤ e.start ∧ e.stop ≤ limit := by
  induction es generalizing limit with
  | nil => cases mem
  | cons e' es ih =>
    cases mem with
    | head => exact ⟨h.2.2.base_le, h.2.1⟩
    | tail _ mem =>
      obtain ⟨lo, hi⟩ := ih h.2.2 mem
      have le := h.2.1
      simp only [Entry.stop] at le
      exact ⟨lo, by omega⟩

/-- The newest word is the one nearest to the limit. -/
lemma Linked.latestOf_lt {es : List Entry} {limit : ℤ} (h : Linked es limit) :
    latestOf es < limit := by
  have lay := Layout.values
  cases es with
  | nil =>
    have base : DICTIONARY_BASE ≤ limit := h
    simp only [latestOf]
    omega
  | cons e es =>
    have le := h.2.1
    simp only [Entry.stop, Entry.length_cells] at le
    simp only [latestOf, Entry.name_field_eq]
    omega

/-- The chain of links: `LATEST` and the link cells, newest first, strictly decreasing. -/
lemma Linked.decreasing {es : List Entry} {limit : ℤ} (h : Linked es limit) :
    (latestOf es :: es.map Entry.link).Pairwise (· > ·) ∧
      ∀ l ∈ latestOf es :: es.map Entry.link, l < limit := by
  induction es generalizing limit with
  | nil =>
    refine ⟨List.pairwise_singleton _ _, ?_⟩
    intro l mem
    simp only [List.map_nil, List.mem_singleton] at mem
    exact mem ▸ h.latestOf_lt
  | cons e es ih =>
    obtain ⟨dec, below⟩ := ih h.2.2
    have lt : e.name_field < limit := h.latestOf_lt
    have below' : ∀ l ∈ (e :: es).map Entry.link, l < e.name_field := by
      intro l mem
      have lt' : l < e.start := by
        refine below l ?_
        rwa [← h.1]
      rw [Entry.name_field_eq]
      omega
    constructor
    · refine List.pairwise_cons.mpr ⟨below', ?_⟩
      rw [List.map_cons, h.1]
      exact dec
    · intro l mem
      cases mem with
      | head => exact lt
      | tail _ mem => exact Int.lt_trans (below' l mem) lt

/-- The abstract dictionary: its words, newest first, below the next free cell. -/
structure Dictionary where
  dp : ℤ
  entries : List Entry
  linked : Linked entries dp

namespace Dictionary

/-- A dictionary without words. -/
def empty : Dictionary := ⟨DICTIONARY_BASE, [], Int.le_refl _⟩

/-- The dictionary after `count` raw cells. -/
def skip (d : Dictionary) (count : ℕ) : Dictionary :=
  ⟨d.dp + count, d.entries, d.linked.mono (by omega)⟩

/-- The word that the next append makes. -/
def next (d : Dictionary) (name : PyStr) (code_field : ℤ) (thread : List ℤ) (immediate : Bool) :
    Entry :=
  { start := d.dp, link := latestOf d.entries, immediate := immediate, smudge := 0, name := name,
    code_field := code_field, thread := thread }

/-- The dictionary with one more word. -/
def install (d : Dictionary) (name : PyStr) (code_field : ℤ) (thread : List ℤ)
    (immediate : Bool) : Dictionary :=
  ⟨(d.next name code_field thread immediate).stop, d.next name code_field thread immediate ::
    d.entries, rfl, Int.le_refl _, d.linked⟩

end Dictionary

variable {n : ℕ} {m m' : ListMemoryAdapter n}

namespace MemoryDictionaryAdapter

/-- The memory holds the dictionary. -/
structure Represents (m : ListMemoryAdapter n) (d : Dictionary) : Prop where
  ready : Ready m d.dp
  latest : m.cell LATEST_ADDR = latestOf d.entries
  stored : ∀ e ∈ d.entries, CellsAt m.cell e.start e.cells

/-- A fresh dictionary is empty. -/
lemma init_represents (m : ListMemoryAdapter n) (room : DICTIONARY_BASE ≤ n) :
    ∃ m', init m = .ok () m' ∧ Represents m' Dictionary.empty ∧
      ∀ i, DICTIONARY_BASE ≤ i → m'.cell i = m.cell i := by
  have lay := Layout.values
  refine ⟨(m.set DP_ADDR DICTIONARY_BASE).set LATEST_ADDR 0, ?_, ⟨⟨?_, Int.le_refl _, room⟩, ?_, ?_⟩,
    fun i le => ?_⟩
  · have e : set_dp DICTIONARY_BASE m = .ok () (m.set DP_ADDR DICTIONARY_BASE) :=
      store_of_lt (by omega) (by omega)
    rw [init, bind_ok e]
    exact store_of_lt (by omega) (by omega)
  · rw [cell_set_of_ne _ _ (by omega), cell_set_self _ _ (by omega) (by omega)]
    rfl
  · exact cell_set_self _ _ (by omega) (by omega)
  · intro e mem
    cases mem
  · rw [cell_set_of_ne _ _ (by omega), cell_set_of_ne _ _ (by omega)]

/-- Growing the memory past the dictionary keeps the words. -/
lemma Represents.skip {d : Dictionary} {xs : List ℤ} (rep : Represents m d)
    (g : Grown m m' d.dp xs) (le : d.dp + xs.length ≤ n) : Represents m' (d.skip xs.length) := by
  have lay := Layout.values
  have base := d.linked.base_le
  constructor
  · exact g.ready rep.ready le
  · rw [g.frame _ (by omega) (by omega)]
    exact rep.latest
  · intro e mem
    obtain ⟨lo, hi⟩ := d.linked.bounds mem
    refine (rep.stored e mem).congr fun i lo' hi' => ?_
    simp only [Entry.stop] at hi
    exact g.frame i (by omega) (by omega)

/-- The part of `append_word` that lays down cells; it returns the name field and the code field
    address. -/
def append_parts (name : PyStr) (code_field : ℤ) (thread : List ℤ) (immediate : Bool) :
    EStateM PyError (ListMemoryAdapter n) (ℤ × ℤ) := do
  let _ ← append_cell (← latest)
  let _ ← append_cell (if immediate then 1 else 0)
  let _ ← append_cell 0
  let name_field ← append_name name
  let cfa ← here
  let _ ← append_cell code_field
  append_thread thread
  return (name_field, cfa)

/-- `append_word` lays down its cells, and then moves `LATEST`. -/
lemma append_word_eq (name : PyStr) (code_field : ℤ) (thread : List ℤ) (immediate : Bool) :
    (append_word name code_field thread immediate : EStateM PyError (ListMemoryAdapter n) ℤ) = do
      let (name_field, cfa) ← append_parts name code_field thread immediate
      set_latest name_field
      return cfa := by
  simp only [append_word, append_parts, bind_assoc, pure_bind]

/-- The cells of a word are laid down at `DP`. -/
lemma append_parts_appends {d : Dictionary} (rep : Represents m d) (name : PyStr) (code_field : ℤ)
    (thread : List ℤ) (immediate : Bool) :
    let e := d.next name code_field thread immediate
    Appends (append_parts name code_field thread immediate) m d.dp e.cells (e.name_field, e.cfa) := by
  intro e
  have link : m.cell LATEST_ADDR = e.link := rep.latest
  have shape : e.cells = [e.link] ++ ([if immediate then 1 else 0] ++ ([0] ++
      (MemoryCountedStringAdapter.cells name ++ ([code_field] ++ (thread ++ []))))) := by
    simp [e, Entry.cells, Dictionary.next]
  rw [shape]
  refine Appends.after rep.ready.latest_run ?_
  rw [link]
  refine (append_cell_appends rep.ready e.link).bind rep.ready fun m₁ _ rd₁ => ?_
  refine (append_cell_appends rd₁ _).bind rd₁ fun m₂ _ rd₂ => ?_
  refine (append_cell_appends rd₂ 0).bind rd₂ fun m₃ _ rd₃ => ?_
  have at₃ : d.dp + ([e.link] : List ℤ).length + ([if immediate then 1 else 0] : List ℤ).length +
      ([0] : List ℤ).length = e.name_field := by
    simp only [e, Entry.name_field_eq, Dictionary.next, List.length_singleton]
    omega
  rw [at₃] at rd₃ ⊢
  refine (append_name_appends rd₃ name).bind rd₃ fun m₄ _ rd₄ => ?_
  have at₄ : e.name_field + (MemoryCountedStringAdapter.cells name).length = e.cfa := by
    simp only [e, Entry.cfa, Dictionary.next, MemoryCountedStringAdapter.length_cells]
    omega
  rw [at₄] at rd₄ ⊢
  refine Appends.after rd₄.dp_run ?_
  refine (append_cell_appends rd₄ code_field).bind rd₄ fun m₅ _ rd₅ => ?_
  exact (append_thread_appends rd₅ thread).bind rd₅ fun m₆ _ rd₆ => Appends.pure rd₆ _

/-- Moving `LATEST` to the word that has just been laid down completes its installation. -/
lemma Represents.install {d : Dictionary} {name : PyStr} {code_field : ℤ} {thread : List ℤ}
    {immediate : Bool} (rep : Represents m d)
    (g : Grown m m' d.dp (d.next name code_field thread immediate).cells)
    (le : (d.next name code_field thread immediate).stop ≤ n) :
    Represents (m'.set LATEST_ADDR (d.next name code_field thread immediate).name_field)
      (d.install name code_field thread immediate) := by
  have lay := Layout.values
  have base := d.linked.base_le
  have room := rep.ready.size_pos
  constructor
  · refine ⟨?_, ?_, le⟩
    · rw [m'.cell_set_of_ne _ (by omega), g.dp]
      rfl
    · exact Linked.base_le (d.install name code_field thread immediate).linked
  · exact m'.cell_set_self _ (by omega) (by omega)
  · intro e mem
    have same : ∀ i, DICTIONARY_BASE ≤ i → (m'.set LATEST_ADDR
        (d.next name code_field thread immediate).name_field).cell i = m'.cell i :=
      fun i lo => m'.cell_set_of_ne _ (by omega)
    cases mem with
    | head => exact g.cells.congr fun i lo _ => same i (Int.le_trans base lo)
    | tail _ mem =>
      obtain ⟨lo, hi⟩ := d.linked.bounds mem
      refine (rep.stored e mem).congr fun i lo' hi' => ?_
      simp only [Entry.stop] at hi
      rw [same i (by omega), g.frame i (by omega) (by omega)]

/-- Appending a word that fits installs it. -/
lemma append_word_ok {d : Dictionary} {name : PyStr} {code_field : ℤ} {thread : List ℤ}
    {immediate : Bool} (rep : Represents m d)
    (le : (d.next name code_field thread immediate).stop ≤ n) :
    ∃ m', append_word name code_field thread immediate m =
        .ok (d.next name code_field thread immediate).cfa m' ∧
      Represents m' (d.install name code_field thread immediate) ∧
      ∀ i, DICTIONARY_BASE ≤ i →
        ¬(d.dp ≤ i ∧ i < (d.next name code_field thread immediate).stop) →
        m'.cell i = m.cell i := by
  have lay := Layout.values
  obtain ⟨m₁, e, g⟩ := (append_parts_appends rep name code_field thread immediate).fits le
  have rd := g.ready rep.ready le
  refine ⟨_, ?_, rep.install g le, fun i lo out => ?_⟩
  · rw [append_word_eq, bind_ok e]
    exact bind_ok (rd.set_latest_run _)
  · rw [m₁.cell_set_of_ne _ (by omega)]
    exact g.frame i (by omega) out

/-- Appending a word that does not fit leaves the words, and `LATEST`, as they were. -/
lemma append_word_overflow {d : Dictionary} {name : PyStr} {code_field : ℤ} {thread : List ℤ}
    {immediate : Bool} (rep : Represents m d)
    (lt : n < (d.next name code_field thread immediate).stop) :
    ∃ m', append_word name code_field thread immediate m = .error .indexError m' ∧
      SameBelow m m' d.dp := by
  obtain ⟨m₁, e, same⟩ := (append_parts_appends rep name code_field thread immediate).overflows lt
  exact ⟨m₁, by rw [append_word_eq, bind_error e], same⟩

/-- Decoding the header of a stored word. -/
lemma read_header_run {e : Entry} (cells : CellsAt m.cell e.start e.cells)
    (lo : DICTIONARY_BASE ≤ e.start) (hi : e.stop ≤ n) :
    read_header e.name_field m = .ok e.header m := by
  have lay := Layout.values
  have off := HeaderField.values
  obtain ⟨link, immediate, smudge, name, -⟩ := Entry.cellsAt_iff.mp cells
  simp only [Entry.stop, Entry.length_cells] at hi
  have nf := e.name_field_eq
  have at_link : e.name_field - HeaderField.NAME_LENGTH + HeaderField.LINK = e.start := by omega
  have at_immediate :
      e.name_field - HeaderField.NAME_LENGTH + HeaderField.IMMEDIATE = e.start + 1 := by omega
  have at_smudge :
      e.name_field - HeaderField.NAME_LENGTH + HeaderField.SMUDGE = e.start + 2 := by omega
  have hn := MemoryCountedStringAdapter.read_of_cellsAt name (by omega) (by omega)
  have flag : (m.cell (e.start + 1) != 0) = e.immediate := by
    rw [immediate]
    cases e.immediate <;> rfl
  simp only [read_header, bind_ok hn, at_link, at_immediate, at_smudge]
  rw [bind_ok (load_of_lt (by omega) (by omega)), bind_ok (load_of_lt (by omega) (by omega)),
    bind_ok (load_of_lt (by omega) (by omega)), flag, link, smudge]
  rfl

/-- Following the link of a stored word. -/
lemma load_link_run {e : Entry} (cells : CellsAt m.cell e.start e.cells)
    (lo : DICTIONARY_BASE ≤ e.start) (hi : e.stop ≤ n) :
    load (e.name_field - HeaderField.NAME_LENGTH) m = .ok e.link m := by
  have lay := Layout.values
  have off := HeaderField.values
  obtain ⟨link, -⟩ := Entry.cellsAt_iff.mp cells
  simp only [Entry.stop, Entry.length_cells] at hi
  have nf := e.name_field_eq
  have at_link : e.name_field - HeaderField.NAME_LENGTH = e.start := by omega
  rw [at_link, load_of_lt (by omega) (by omega), link]

/-- A word's name field is not the end of the chain. -/
lemma name_field_ne_zero {e : Entry} (lo : DICTIONARY_BASE ≤ e.start) : e.name_field ≠ 0 := by
  have lay := Layout.values
  rw [e.name_field_eq]
  omega

/-- Walking the links yields the headers, newest first. -/
lemma headersFrom_run {es : List Entry} {limit : ℤ} {fuel : ℕ} (linked : Linked es limit)
    (stored : ∀ e ∈ es, CellsAt m.cell e.start e.cells) (le : limit ≤ n)
    (enough : es.length < fuel) :
    headersFrom fuel (latestOf es) m = .ok (some (es.map Entry.header)) m := by
  induction es generalizing limit fuel with
  | nil =>
    cases fuel with
    | zero => cases enough
    | succ fuel => rfl
  | cons e es ih =>
    cases fuel with
    | zero => cases enough
    | succ fuel =>
      obtain ⟨lo, hi⟩ := linked.bounds (List.mem_cons_self ..)
      have cells := stored e (List.mem_cons_self ..)
      have rest := ih linked.2.2 (fun e' mem => stored e' (List.mem_cons_of_mem _ mem))
        (by simp only [Entry.stop] at hi; omega) (Nat.lt_of_succ_lt_succ enough)
      rw [latestOf, headersFrom, if_neg (name_field_ne_zero lo),
        bind_ok (read_header_run cells lo (Int.le_trans hi le)),
        bind_ok (load_link_run cells lo (Int.le_trans hi le)), linked.1, bind_ok rest]
      rfl

/-- Searching along the links finds the newest word of the name. -/
lemma findFrom_run {name : PyStr} {es : List Entry} {limit : ℤ} {fuel : ℕ}
    (linked : Linked es limit) (stored : ∀ e ∈ es, CellsAt m.cell e.start e.cells) (le : limit ≤ n)
    (enough : es.length < fuel) :
    findFrom name fuel (latestOf es) m =
      .ok (some ((es.map Entry.header).find? (·.name = name))) m := by
  induction es generalizing limit fuel with
  | nil =>
    cases fuel with
    | zero => cases enough
    | succ fuel => rfl
  | cons e es ih =>
    cases fuel with
    | zero => cases enough
    | succ fuel =>
      obtain ⟨lo, hi⟩ := linked.bounds (List.mem_cons_self ..)
      have cells := stored e (List.mem_cons_self ..)
      have rest := ih linked.2.2 (fun e' mem => stored e' (List.mem_cons_of_mem _ mem))
        (by simp only [Entry.stop] at hi; omega) (Nat.lt_of_succ_lt_succ enough)
      rw [latestOf, findFrom, if_neg (name_field_ne_zero lo),
        bind_ok (read_header_run cells lo (Int.le_trans hi le))]
      by_cases same : e.header.name = name
      · simp [same]
      · simp only [same, if_false, List.map_cons, List.find?_cons, decide_false]
        rw [bind_ok (load_link_run cells lo (Int.le_trans hi le)), linked.1, rest]

/-- `headers` yields the words of the dictionary. -/
lemma headers_run {d : Dictionary} {fuel : ℕ} (rep : Represents m d)
    (enough : d.entries.length < fuel) :
    headers fuel m = .ok (some (d.entries.map Entry.header)) m := by
  rw [headers, bind_ok rep.ready.latest_run, rep.latest]
  exact headersFrom_run d.linked rep.stored rep.ready.le_size enough

/-- `find` returns the newest word of the name. -/
lemma find_run {d : Dictionary} {fuel : ℕ} (rep : Represents m d) (name : PyStr)
    (enough : d.entries.length < fuel) :
    find fuel name m = .ok (some ((d.entries.map Entry.header).find? (·.name = name))) m := by
  rw [find, bind_ok rep.ready.latest_run, rep.latest]
  exact findFrom_run d.linked rep.stored rep.ready.le_size enough

end MemoryDictionaryAdapter

end MinCpuForth.Adapters
