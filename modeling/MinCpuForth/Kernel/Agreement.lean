import MinCpuForth.Kernel.Extent

/-!
# The image agrees with the dictionary in memory

The builder keeps a table from names to code field addresses beside the linked dictionary. Both
resolve a name to the newest word of that name, and a thread stays bound to the words that its names
denoted when it was compiled.
-/

namespace MinCpuForth.Kernel
open Python Domain Layout Adapters Assembler Lib ListMemoryAdapter MemoryDictionaryAdapter

def WordSpecDto.immediate : WordSpecDto → Bool
  | code word => word.immediate
  | colon word => word.immediate

namespace KernelBuilder

variable {n : ℕ} {m m' : ListMemoryAdapter n} {d d' : Dictionary} {word_cfas word_cfas' : PyDict ℤ}

/-- The table resolves its names as the dictionary does. -/
def Tabulates (word_cfas : PyDict ℤ) (d : Dictionary) : Prop :=
  ∀ name cfa, word_cfas.lookup name = some cfa →
    ∃ e, d.entries.find? (·.name = name) = some e ∧ e.cfa = cfa

/-- The empty table. -/
lemma Tabulates.nil : Tabulates [] d := by
  intro name cfa found
  cases found

/-- The word that an append adds. -/
lemma appendOf_entry {word : WordSpecDto} {op : Append} (h : appendOf word_cfas word = .ok op) :
    ∃ e, (d.append op).entries = e :: d.entries ∧ e.name = word.name ∧
      e.immediate = word.immediate ∧ e.cfa = d.returned op := by
  cases word with
  | code w =>
    obtain ⟨routine, -, rfl⟩ := appendOf_code h
    exact ⟨d.next w.name routine [] w.immediate, rfl, rfl, rfl, rfl⟩
  | colon w =>
    obtain ⟨thread, -, rfl⟩ := appendOf_colon h
    exact ⟨d.next w.name ENTER_INDEX thread w.immediate, rfl, rfl, rfl, rfl⟩

/-- Installing a word keeps the table and the dictionary together. -/
lemma Tabulates.append (h : Tabulates word_cfas d) {word : WordSpecDto} {op : Append}
    (e : appendOf word_cfas word = .ok op) :
    Tabulates (word_cfas.setItem word.name (d.returned op)) (d.append op) := by
  obtain ⟨entry, entries, name_eq, -, cfa_eq⟩ := appendOf_entry (d := d) e
  intro name cfa found
  rw [PyDict.lookup_setItem] at found
  rw [entries, List.find?_cons, name_eq]
  by_cases same : name = word.name
  · rw [if_pos same] at found
    cases found
    exact ⟨entry, by simp [same], cfa_eq⟩
  · rw [if_neg same] at found
    obtain ⟨older, hit, cfa_eq⟩ := h name cfa found
    exact ⟨older, by simp [Ne.symm same, hit], cfa_eq⟩

/-- Installing words keeps the table and the dictionary together. -/
lemma Tabulates.laidOut (h : Tabulates word_cfas d) {words : List WordSpecDto}
    (laid : laidOut d word_cfas words = .ok (d', word_cfas')) : Tabulates word_cfas' d' := by
  induction words generalizing d word_cfas with
  | nil =>
    cases laid
    exact h
  | cons word words ih =>
    obtain ⟨op, e, laid⟩ := laidOut_cons laid
    exact ih (h.append e) laid

/-- Installing words adds one entry for each. -/
lemma laidOut_entries {words : List WordSpecDto}
    (laid : laidOut d word_cfas words = .ok (d', word_cfas')) :
    ∃ newer, d'.entries = newer ++ d.entries ∧ newer.length = words.length := by
  induction words generalizing d word_cfas with
  | nil =>
    cases laid
    exact ⟨[], rfl, rfl⟩
  | cons word words ih =>
    obtain ⟨op, e, laid⟩ := laidOut_cons laid
    obtain ⟨newer, entries, len⟩ := ih laid
    obtain ⟨entry, first, -⟩ := appendOf_entry (d := d) e
    exact ⟨newer ++ [entry], by simp [entries, first], by simp [len]⟩

/-- One of the words that are laid out: what it found, its append, and where its entry stands. -/
structure Placed (d : Dictionary) (word_cfas : PyDict ℤ) (before : List WordSpecDto)
    (word : WordSpecDto) (after : List WordSpecDto) (d' : Dictionary) (word_cfas' : PyDict ℤ)
    (d₁ : Dictionary) (cfas : PyDict ℤ) (op : Append) (entry : Entry) : Prop where
  found : laidOut d word_cfas before = .ok (d₁, cfas)
  append : appendOf cfas word = .ok op
  first : (d₁.append op).entries = entry :: d₁.entries
  name : entry.name = word.name
  cfa : entry.cfa = d₁.returned op
  newer : ∃ newer, d'.entries = newer ++ entry :: d₁.entries ∧ newer.length = after.length
  rest : laidOut (d₁.append op) (cfas.setItem word.name (d₁.returned op)) after =
    .ok (d', word_cfas')

/-- Every word that is laid out has its place. -/
lemma laidOut_placed {before after : List WordSpecDto} {word : WordSpecDto}
    (laid : laidOut d word_cfas (before ++ word :: after) = .ok (d', word_cfas')) :
    ∃ d₁ cfas op entry, Placed d word_cfas before word after d' word_cfas' d₁ cfas op entry := by
  rw [laidOut_append] at laid
  obtain ⟨⟨d₁, cfas⟩, found, laid⟩ := Fallible.bind_eq_ok.mp laid
  obtain ⟨op, append, rest⟩ := laidOut_cons laid
  obtain ⟨newer, entries, len⟩ := laidOut_entries rest
  obtain ⟨entry, first, name, -, cfa⟩ := appendOf_entry (d := d₁) append
  rw [first] at entries
  exact ⟨d₁, cfas, op, entry, found, append, first, name, cfa, ⟨newer, entries, len⟩, rest⟩

namespace Placed

variable {before after : List WordSpecDto} {word : WordSpecDto} {d₁ : Dictionary} {cfas : PyDict ℤ}
  {op : Append} {entry : Entry}

/-- The entry is one of the dictionary. -/
lemma mem (h : Placed d word_cfas before word after d' word_cfas' d₁ cfas op entry) :
    entry ∈ d'.entries := by
  obtain ⟨newer, entries, -⟩ := h.newer
  rw [entries]
  simp

/-- The header of the word, among all headers. -/
lemma header (h : Placed d word_cfas before word after d' word_cfas' d₁ cfas op entry) :
    (d'.entries.map Entry.header).drop after.length =
      entry.header :: d₁.entries.map Entry.header := by
  obtain ⟨newer, entries, len⟩ := h.newer
  rw [entries, List.map_append, ← len]
  simp

end Placed

/-- The code field of a word that is installed lies above the older words and below the next. -/
lemma returned_bounds {word : WordSpecDto} {op : Append} (h : appendOf word_cfas word = .ok op) :
    d.dp ≤ d.returned op ∧ d.returned op < (d.append op).dp := by
  have at_cfa : ∀ name code_field thread immediate,
      d.returned (.word name code_field thread immediate) = d.dp + 3 + 1 + name.length :=
    fun _ _ _ _ => rfl
  rw [d.append_dp]
  cases word with
  | code w =>
    obtain ⟨routine, -, rfl⟩ := appendOf_code h
    rw [at_cfa, Append.size]
    omega
  | colon w =>
    obtain ⟨thread, -, rfl⟩ := appendOf_colon h
    rw [at_cfa, Append.size]
    omega

/-- Words of other names leave alone what a name denotes. -/
lemma laidOut_lookup_old {words : List WordSpecDto} {name : PyStr}
    (laid : laidOut d word_cfas words = .ok (d', word_cfas'))
    (other : ∀ word ∈ words, word.name ≠ name) :
    word_cfas'.lookup name = word_cfas.lookup name := by
  induction words generalizing d word_cfas with
  | nil =>
    cases laid
    rfl
  | cons word words ih =>
    obtain ⟨op, -, rest⟩ := laidOut_cons laid
    rw [ih rest fun w mem => other w (List.mem_cons_of_mem _ mem), PyDict.lookup_setItem]
    exact if_neg (Ne.symm (other word (List.mem_cons_self ..)))

/-- A word that is installed takes its name over. -/
lemma laidOut_lookup_new {words : List WordSpecDto} {name : PyStr}
    (laid : laidOut d word_cfas words = .ok (d', word_cfas'))
    (named : ∃ word ∈ words, word.name = name) :
    ∃ cfa, word_cfas'.lookup name = some cfa ∧ d.dp ≤ cfa := by
  induction words generalizing d word_cfas with
  | nil =>
    obtain ⟨word, mem, -⟩ := named
    cases mem
  | cons w words ih =>
    obtain ⟨op, e, rest⟩ := laidOut_cons laid
    obtain ⟨low, high⟩ := returned_bounds (d := d) e
    by_cases again : ∃ word ∈ words, word.name = name
    · obtain ⟨cfa, found, le⟩ := ih rest again
      exact ⟨cfa, found, by omega⟩
    · have other : ∀ word ∈ words, word.name ≠ name := fun word mem same => again ⟨word, mem, same⟩
      obtain ⟨word, mem, same⟩ := named
      have newest : w.name = name := by
        cases mem with
        | head => exact same
        | tail _ mem => exact absurd same (other word mem)
      refine ⟨d.returned op, ?_, low⟩
      rw [laidOut_lookup_old rest other, PyDict.lookup_setItem, if_pos newest.symm]

/-- What the memory holds at a word of the build, given the headers of the older words. -/
structure Compiled (cell : ℤ → ℤ) (older : List DictionaryHeaderDto) (word : WordSpecDto)
    (header : DictionaryHeaderDto) : Prop where
  name : header.name = word.name
  immediate : header.immediate = word.immediate
  /-- The code field of a CODE word holds the program index of its routine. -/
  code : ∀ w, word = .code w → kernelLabels.lookup w.routine_label = some (cell header.cfa)
  /-- The code field of a colon word holds the program index of `ENTER`. -/
  enter : ∀ w, word = .colon w → kernelLabels.lookup ENTER_LABEL = some (cell header.cfa)
  /-- The thread of a colon word holds what its names denoted among the older words. -/
  thread : ∀ (k : ℕ) name, word.references[k]? = some name →
    (older.find? (·.name = name)).map (·.cfa) = some (cell (header.cfa + 1 + k))

/-- The program index of `ENTER`, as the kernel's labels have it. -/
lemma lookup_ENTER : kernelLabels.lookup ENTER_LABEL = some ENTER_INDEX :=
  lookup_kernelLabels (r := ⟨CORE_LINES, 0, Routines.CORE_code 0,
    [("START", 0), ("NEXT", 3), ("ENTER", 7)]⟩) (List.mem_cons_self ..)
    (.tail _ (.tail _ (.head _)))

/-- A header that is found decodes the entry that is found. -/
lemma find?_header {es : List Entry} {name : PyStr} {e : Entry}
    (h : es.find? (·.name = name) = some e) :
    (es.map Entry.header).find? (·.name = name) = some e.header := by
  rw [List.find?_map]
  exact congrArg (Option.map Entry.header) h

/-- A word that has been laid out, in a memory that holds it. -/
lemma Tabulates.compiled (h : Tabulates word_cfas d) {cell : ℤ → ℤ} {word : WordSpecDto}
    {op : Append} (e : KernelBuilder.appendOf word_cfas word = .ok op) {entry : Entry}
    (first : (d.append op).entries = entry :: d.entries)
    (stored : CellsAt cell entry.start entry.cells) :
    Compiled cell (d.entries.map Entry.header) word entry.header := by
  obtain ⟨-, -, -, -, at_cfa, thread_at⟩ := Entry.cellsAt_iff.mp stored
  cases word with
  | code w =>
    obtain ⟨routine, label, rfl⟩ := appendOf_code e
    obtain rfl : d.next w.name routine [] w.immediate = entry := (List.cons.inj first).1
    refine ⟨rfl, rfl, ?_, ?_, ?_⟩
    · intro w' same
      cases same
      rw [label_index] at label
      split at label
      · rename_i found
        cases label
        rw [found]
        exact congrArg some at_cfa.symm
      · cases label
    · intro w' same
      cases same
    · intro k name known
      cases known
  | colon w =>
    obtain ⟨thread, resolved, rfl⟩ := appendOf_colon e
    obtain rfl : d.next w.name ENTER_INDEX thread w.immediate = entry := (List.cons.inj first).1
    refine ⟨rfl, rfl, ?_, ?_, ?_⟩
    · intro w' same
      cases same
    · intro _ _
      rw [lookup_ENTER]
      exact congrArg some at_cfa.symm
    · intro k name known
      obtain ⟨cfa, hit, found⟩ := Fallible.mapM_getElem? resolved known
      obtain ⟨older, hit', cfa_eq⟩ := h name cfa (cfa_of_eq_ok.mp found)
      obtain ⟨lt, item⟩ := List.getElem?_eq_some_iff.mp hit
      rw [find?_header hit', Option.map_some]
      have there := thread_at.get lt
      refine congrArg some (cfa_eq.trans (item.symm.trans there.symm))

/-- After a build, the table, the headers and the cells agree. For every memory and dictionary that
    the build starts from, and all colon words and boot threads on which it returns: `find` answers a
    name of the table with the address in the table; the words of the build are the newest headers,
    in order, and each is compiled against the words before it; and the boot thread lies from
    `boot_ip` up to `DP`. -/
theorem build_agrees [UnicodeData] (rep : Represents m d) {colon_words : List ColonWordDto}
    {boot : List ThreadItemDto} {image : KernelImageDto}
    (run : build colon_words boot m = .ok image m') :
    ∃ hs : List DictionaryHeaderDto,
      (∀ fuel, hs.length < fuel → headers fuel m' = .ok (some hs) m') ∧
      (∀ name cfa, image.word_cfas.lookup name = some cfa →
        ∃ header, header.cfa = cfa ∧
          ∀ fuel, hs.length < fuel → find fuel name m' = .ok (some (some header)) m') ∧
      (∀ before word after, specs colon_words = before ++ word :: after →
        ∃ header older, hs.drop after.length = header :: older ∧
          Compiled m'.cell older word header) ∧
      m'.cell DP_ADDR = image.boot_ip + boot.length ∧
      (∀ (k : ℕ) name, boot[k]? = some (.reference name) →
        image.word_cfas.lookup name = some (m'.cell (image.boot_ip + k))) ∧
      ∀ (k : ℕ) value, boot[k]? = some (.literal value) →
        m'.cell (image.boot_ip + k) = value := by
  obtain ⟨d', word_cfas, cells, laid, hb, rfl, rep', boot_at⟩ := build_inv rep run
  have count := Fallible.length_of_mapM hb
  have table := Tabulates.nil.laidOut laid
  have size : (d'.skip cells.length).entries.length = (d'.entries.map Entry.header).length :=
    (List.length_map _).symm
  have thread : ∀ (k : ℕ) item, boot[k]? = some item →
      item_cell word_cfas item = .ok (m'.cell (d'.dp + k)) := by
    intro k item known
    obtain ⟨cell, hit, e⟩ := Fallible.mapM_getElem? hb known
    obtain ⟨lt, rfl⟩ := List.getElem?_eq_some_iff.mp hit
    rw [e, boot_at.get lt]
  refine ⟨d'.entries.map Entry.header, ?_, ?_, ?_, ?_, ?_, ?_⟩
  · intro fuel enough
    rw [← size] at enough
    have answer := headers_run rep' enough
    exact answer
  · intro name cfa found
    obtain ⟨e, hit, rfl⟩ := table name cfa found
    refine ⟨e.header, rfl, fun fuel enough => ?_⟩
    rw [← size] at enough
    rw [find_run rep' name enough]
    exact congrArg (fun x => EStateM.Result.ok (some x) m') (find?_header hit)
  · rintro before word after split
    rw [split] at laid
    obtain ⟨d₁, cfas, op, entry, placed⟩ := laidOut_placed laid
    have table₁ := Tabulates.nil.laidOut placed.found
    have stored := rep'.stored entry placed.mem
    exact ⟨entry.header, d₁.entries.map Entry.header, placed.header,
      table₁.compiled placed.append placed.first stored⟩
  · rw [rep'.ready.dp, ← count]
    rfl
  · intro k name known
    exact cfa_of_eq_ok.mp (thread k (.reference name) known)
  · intro k value known
    exact (Except.ok.inj (thread k (.literal value) known)).symm

section Instances

attribute [local instance] UnicodeData.ascii

/-- A colon word that shadows a primitive and uses it, one that uses the new one, and a boot thread
    with a literal. -/
theorem build_agrees_shadow : ∃ image m', buildFresh
      [⟨"DUP", ["DUP", "DUP"], false⟩, ⟨"A", ["DUP"], true⟩]
      [.reference "LIT", .literal 7, .reference "A", .reference "BYE"]
      (.zeroed MEMORY_SIZE.toNat) = .ok image m' ∧
    m'.cell DP_ADDR = image.boot_ip + 4 ∧ m'.cell (image.boot_ip + 1) = 7 ∧
    (∃ fuel header, find fuel "A" m' = .ok (some (some header)) m' ∧
      header.cfa = m'.cell (image.boot_ip + 2)) ∧
    ∃ fuel dup a older, headers fuel m' = .ok (some (a :: dup :: older)) m' ∧
      Compiled m'.cell older (.colon ⟨"DUP", ["DUP", "DUP"], false⟩) dup ∧
      Compiled m'.cell (dup :: older) (.colon ⟨"A", ["DUP"], true⟩) a := by
  obtain ⟨m₀, e₀, rep, -⟩ := init_represents (.zeroed MEMORY_SIZE.toNat) (by decide)
  have resolvable : Resolvable [⟨"DUP", ["DUP", "DUP"], false⟩, ⟨"A", ["DUP"], true⟩]
      [.reference "LIT", .literal 7, .reference "A", .reference "BYE"] := by
    refine ⟨by decide +kernel, ?_⟩
    simp only [List.forall_mem_cons, ThreadItemDto.refersTo, Option.some.injEq, forall_eq']
    decide +kernel
  have size : buildSize [⟨"DUP", ["DUP", "DUP"], false⟩, ⟨"A", ["DUP"], true⟩]
      [.reference "LIT", .literal 7, .reference "A", .reference "BYE"] = 326 := by decide +kernel
  obtain ⟨image, m', run⟩ := (build_returns rep).mpr
    (fresh_laid.mpr ⟨resolvable, by rw [size]; decide⟩)
  obtain ⟨hs, all, table, words, dp, names, literals⟩ := build_agrees rep run
  obtain ⟨dup, older, rest, dup_compiled⟩ := words (CODE_WORDS.map .code)
    (.colon ⟨"DUP", ["DUP", "DUP"], false⟩) [.colon ⟨"A", ["DUP"], true⟩] rfl
  obtain ⟨a, newer, rfl, a_compiled⟩ := words (CODE_WORDS.map .code ++
    [.colon ⟨"DUP", ["DUP", "DUP"], false⟩]) (.colon ⟨"A", ["DUP"], true⟩) [] rfl
  obtain rfl : newer = dup :: older := rest
  obtain ⟨header, e, found⟩ := table _ _ (names 2 "A" rfl)
  exact ⟨image, m', (bind_ok e₀).trans run, dp, literals 1 7 rfl,
    ⟨_, header, found _ (Nat.lt_succ_self _), e⟩,
    _, dup, a, older, all _ (Nat.lt_succ_self _), dup_compiled, a_compiled⟩

end Instances

end KernelBuilder

end MinCpuForth.Kernel
