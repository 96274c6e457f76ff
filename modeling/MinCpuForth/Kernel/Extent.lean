import MinCpuForth.Kernel.Image

/-!
# How far a build reaches

Nothing checks the dictionary's upper bound. A build into a fresh dictionary returns exactly when
every name that it uses has been installed before and all its cells fit in the memory; it then
leaves `DP` past the last cell.
-/

namespace MinCpuForth.Kernel
open Python Domain Layout Adapters Lib ListMemoryAdapter MemoryDictionaryAdapter

/-- How many cells installing the word takes. -/
def WordSpecDto.cells : WordSpecDto → ℕ
  | .code word => word.name.length + 5
  | .colon word => word.name.length + word.words.length + 6

/-- The names that installing the word looks up. -/
def WordSpecDto.references : WordSpecDto → List PyStr
  | .code _ => []
  | .colon word => word.words ++ [KernelBuilder.EXIT_WORD]

/-- Every name is known when it is looked up. -/
def Resolves (known : List PyStr) : List WordSpecDto → Prop
  | [] => True
  | word :: words =>
    (∀ name ∈ word.references, name ∈ known) ∧ Resolves (word.name :: known) words

instance (known : List PyStr) (words : List WordSpecDto) : Decidable (Resolves known words) :=
  match words with
  | [] => isTrue trivial
  | word :: words =>
    have := instDecidableResolves (word.name :: known) words
    inferInstanceAs (Decidable (_ ∧ _))

/-- The name that a thread item refers to, if any. -/
def ThreadItemDto.refersTo : ThreadItemDto → Option PyStr
  | .reference name => some name
  | .literal _ => none

/-- How many cells a build lays down. -/
def buildSize (colon_words : List ColonWordDto) (boot : List ThreadItemDto) : ℕ :=
  ((KernelBuilder.specs colon_words).map WordSpecDto.cells).sum + boot.length

/-- Every name that a build looks up is the name of a word installed before. -/
def Resolvable (colon_words : List ColonWordDto) (boot : List ThreadItemDto) : Prop :=
  Resolves [] (KernelBuilder.specs colon_words) ∧
    ∀ item ∈ boot, ∀ name, item.refersTo = some name →
      name ∈ (KernelBuilder.specs colon_words).map WordSpecDto.name

namespace KernelBuilder

/-- The label of every CODE word is defined by the kernel. -/
lemma label_index_code_words {w : CodeWordDto} (mem : w ∈ CODE_WORDS) :
    ∃ routine, label_index kernelLabels w.routine_label = .ok routine := by
  have pairs : List.Forall₂ (fun (p : KernelPrimitive) (r : Routine) =>
      (p.word.routine_label, r.base) ∈ r.labels) PRIMITIVES ROUTINES.tail := by
    repeat' first
      | exact .nil
      | refine .cons (.head _) ?_
  obtain ⟨p, hp, rfl⟩ := List.mem_map.mp mem
  obtain ⟨r, hr, own⟩ : ∃ r ∈ ROUTINES.tail, (p.word.routine_label, r.base) ∈ r.labels := by
    clear mem
    generalize PRIMITIVES = ps at pairs hp
    generalize ROUTINES.tail = rs at pairs
    induction pairs with
    | nil => cases hp
    | cons own _ ih =>
      cases hp with
      | head => exact ⟨_, List.mem_cons_self .., own⟩
      | tail _ hp =>
        obtain ⟨r, hr, own⟩ := ih hp
        exact ⟨r, List.mem_cons_of_mem _ hr, own⟩
  exact ⟨r.base, by rw [label_index, lookup_kernelLabels (List.mem_of_mem_tail hr) own]⟩

variable {n : ℕ} {m : ListMemoryAdapter n} {d d' : Dictionary} {word_cfas word_cfas' : PyDict ℤ}

/-- The names in the table. -/
def Knows (word_cfas : PyDict ℤ) (known : List PyStr) : Prop :=
  ∀ name, name ∈ known ↔ ∃ cfa, word_cfas.lookup name = some cfa

/-- A name resolves when it is in the table. -/
lemma cfa_of_eq_ok {name : PyStr} {cfa : ℤ} :
    cfa_of word_cfas name = .ok cfa ↔ word_cfas.lookup name = some cfa := by
  rw [cfa_of]
  split
  · rename_i found
    rw [found]
    simp
  · rename_i missing
    rw [missing]
    simp

/-- Installing a word makes its name known. -/
lemma Knows.setItem {known : List PyStr} (h : Knows word_cfas known) (name : PyStr) (cfa : ℤ) :
    Knows (word_cfas.setItem name cfa) (name :: known) := by
  intro other
  rw [PyDict.lookup_setItem, List.mem_cons, h other]
  by_cases same : other = name
  · simp [same]
  · simp [same]

/-- What a word takes, once its names resolve. -/
lemma appendOf_size {word : WordSpecDto} {op : Append} (h : appendOf word_cfas word = .ok op) :
    op.size = word.cells := by
  cases word with
  | code word =>
    obtain ⟨routine, -, h⟩ := Fallible.bind_eq_ok.mp h
    cases h
    rfl
  | colon word =>
    obtain ⟨thread, e, h⟩ := Fallible.bind_eq_ok.mp h
    cases h
    have len := Fallible.length_of_mapM e
    simp only [List.length_append, List.length_singleton] at len
    simp only [Append.size, WordSpecDto.cells, len]
    omega

/-- Names resolve exactly when they are known. -/
lemma Knows.resolve {known names : List PyStr} (h : Knows word_cfas known) :
    (∃ thread, names.mapM (cfa_of word_cfas) = .ok thread) ↔ ∀ name ∈ names, name ∈ known := by
  rw [Fallible.mapM_succeeds]
  refine forall₂_congr fun name _ => ?_
  rw [h name]
  exact exists_congr fun cfa => cfa_of_eq_ok

/-- A word is laid out when the names that it looks up are known. -/
lemma Knows.appendOf {known : List PyStr} (h : Knows word_cfas known) {word : WordSpecDto}
    (code : word ∈ CODE_WORDS.map .code ∨ ∃ w, word = .colon w) :
    (∃ op, appendOf word_cfas word = .ok op) ↔ ∀ name ∈ word.references, name ∈ known := by
  cases word with
  | code w =>
    have mem : w ∈ CODE_WORDS := by simpa using code
    obtain ⟨routine, e⟩ := label_index_code_words mem
    refine iff_of_true ⟨_, Fallible.bind_eq_ok.mpr ⟨routine, e, rfl⟩⟩ ?_
    intro name none
    cases none
  | colon w =>
    rw [WordSpecDto.references, ← h.resolve]
    constructor
    · rintro ⟨op, e⟩
      obtain ⟨thread, resolved, -⟩ := Fallible.bind_eq_ok.mp e
      exact ⟨thread, resolved⟩
    · rintro ⟨thread, resolved⟩
      exact ⟨_, Fallible.bind_eq_ok.mpr ⟨thread, resolved, rfl⟩⟩

/-- Words of a build are laid out exactly when their names resolve. -/
lemma Knows.laidOut {known : List PyStr} (h : Knows word_cfas known) {words : List WordSpecDto}
    (code : ∀ word ∈ words, word ∈ CODE_WORDS.map .code ∨ ∃ w, word = .colon w) :
    (∃ d' word_cfas', laidOut d word_cfas words = .ok (d', word_cfas')) ↔
      Resolves known words := by
  induction words generalizing d word_cfas known with
  | nil => exact iff_of_true ⟨d, word_cfas, rfl⟩ trivial
  | cons word words ih =>
    rw [Resolves, ← h.appendOf (code word (List.mem_cons_self ..))]
    have rest : ∀ op, _ := fun op =>
      ih (d := d.append op) (h.setItem word.name (d.returned op))
        fun w mem => code w (List.mem_cons_of_mem _ mem)
    constructor
    · rintro ⟨d', word_cfas', laid⟩
      obtain ⟨op, e, laid⟩ := laidOut_cons laid
      exact ⟨⟨op, e⟩, (rest op).mp ⟨d', word_cfas', laid⟩⟩
    · rintro ⟨⟨op, e⟩, resolves⟩
      obtain ⟨d', word_cfas', laid⟩ := (rest op).mpr resolves
      refine ⟨d', word_cfas', ?_⟩
      rw [KernelBuilder.laidOut, e]
      exact laid

/-- What laying out words leaves: their cells are taken, and their names known. -/
lemma laidOut_extent {known : List PyStr} (h : Knows word_cfas known) {words : List WordSpecDto}
    (laid : laidOut d word_cfas words = .ok (d', word_cfas')) :
    d'.dp = d.dp + (words.map WordSpecDto.cells).sum ∧
      Knows word_cfas' ((words.map WordSpecDto.name).reverse ++ known) := by
  induction words generalizing d word_cfas known with
  | nil =>
    cases laid
    exact ⟨by simp, h⟩
  | cons word words ih =>
    obtain ⟨op, e, laid⟩ := laidOut_cons laid
    obtain ⟨dp, knows⟩ := ih (h.setItem word.name (d.returned op)) laid
    constructor
    · rw [dp, d.append_dp, appendOf_size e, List.map_cons, List.sum_cons]
      omega
    · simpa using knows

/-- The words of a build are CODE words and colon words. -/
lemma specs_code {colon_words : List ColonWordDto} {word : WordSpecDto}
    (mem : word ∈ specs colon_words) :
    word ∈ CODE_WORDS.map .code ∨ ∃ w, word = .colon w := by
  rcases List.mem_append.mp mem with code | colon
  · exact .inl code
  · obtain ⟨w, -, rfl⟩ := List.mem_map.mp colon
    exact .inr ⟨w, rfl⟩

lemma Knows.nil : Knows [] [] := by
  intro name
  simp

/-- The boot thread's names resolve exactly when they are known. -/
lemma Knows.bootCells {known : List PyStr} (h : Knows word_cfas known)
    {boot : List ThreadItemDto} : (∃ cells, bootCells word_cfas boot = .ok cells) ↔
      ∀ item ∈ boot, ∀ name, item.refersTo = some name → name ∈ known := by
  rw [KernelBuilder.bootCells, Fallible.mapM_succeeds]
  refine forall₂_congr fun item _ => ?_
  cases item with
  | reference name =>
    simp only [item_cell, cfa_of_eq_ok, ← h name, ThreadItemDto.refersTo, Option.some.injEq,
      forall_eq']
  | literal value => simp [item_cell, ThreadItemDto.refersTo]

/-- A build into a fresh dictionary is laid out in the memory exactly when its names resolve and
    its cells fit. -/
lemma fresh_laid {colon_words : List ColonWordDto} {boot : List ThreadItemDto} :
    (∃ d' word_cfas cells, laidOut .empty [] (specs colon_words) = .ok (d', word_cfas) ∧
        bootCells word_cfas boot = .ok cells ∧ d'.dp + cells.length ≤ n) ↔
      Resolvable colon_words boot ∧ DICTIONARY_BASE + buildSize colon_words boot ≤ n := by
  have names : ∀ {name : PyStr}, name ∈ ((specs colon_words).map WordSpecDto.name).reverse ++ [] ↔
      name ∈ (specs colon_words).map WordSpecDto.name := by
    intro name
    simp
  have base : Dictionary.empty.dp = DICTIONARY_BASE := rfl
  constructor
  · rintro ⟨d', word_cfas, cells, laid, hb, fits⟩
    obtain ⟨dp, knows⟩ := laidOut_extent .nil laid
    refine ⟨⟨Knows.nil.laidOut (fun _ => specs_code) |>.mp ⟨d', word_cfas, laid⟩, ?_⟩, ?_⟩
    · intro item mem name refers
      exact names.mp (knows.bootCells.mp ⟨cells, hb⟩ item mem name refers)
    · rw [Fallible.length_of_mapM hb] at fits
      simp only [buildSize]
      omega
  · rintro ⟨⟨resolves, known⟩, fits⟩
    obtain ⟨d', word_cfas, laid⟩ := Knows.nil.laidOut (fun _ => specs_code) |>.mpr resolves
    obtain ⟨dp, knows⟩ := laidOut_extent .nil laid
    obtain ⟨cells, hb⟩ := knows.bootCells.mpr
      fun item mem name refers => names.mpr (known item mem name refers)
    refine ⟨d', word_cfas, cells, laid, hb, ?_⟩
    rw [Fallible.length_of_mapM hb]
    simp only [buildSize] at fits
    omega

/-- A word that is not laid out has a name that is not known. -/
lemma appendOf_error {word : WordSpecDto} {e : PyError}
    (code : word ∈ CODE_WORDS.map .code ∨ ∃ w, word = .colon w)
    (h : appendOf word_cfas word = .error e) : ∃ name ∈ word.references,
      word_cfas.lookup name = none ∧ e = .notInstalled name := by
  cases word with
  | code w =>
    obtain ⟨routine, label⟩ := label_index_code_words (by simpa using code)
    rw [KernelBuilder.appendOf, label] at h
    cases h
  | colon w =>
    cases resolved : (w.words ++ [EXIT_WORD]).mapM (cfa_of word_cfas) with
    | ok thread =>
      rw [KernelBuilder.appendOf, resolved] at h
      cases h
    | error e' =>
      rw [KernelBuilder.appendOf, resolved] at h
      cases h
      obtain ⟨name, mem, missing⟩ := Fallible.mapM_eq_error resolved
      rw [cfa_of] at missing
      split at missing
      · cases missing
      · rename_i none
        cases missing
        exact ⟨name, mem, none, rfl⟩

/-- What a build can raise. -/
lemma BuildStops.error {m' : ListMemoryAdapter n} {colon_words : List ColonWordDto}
    {boot : List ThreadItemDto} {e : PyError} (h : BuildStops m m' d colon_words boot e) :
    e = .indexError ∨ ∃ name, e = .notInstalled name := by
  cases h with
  | word stops =>
    cases stops with
    | unresolved split _ _ err =>
      have mem : _ ∈ specs colon_words := split ▸ List.mem_append_right _ (List.mem_cons_self ..)
      obtain ⟨name, -, -, e⟩ := appendOf_error (specs_code mem) err
      exact .inr ⟨name, e⟩
    | overflow => exact .inl rfl
  | boot _ _ _ _ stops =>
    cases stops with
    | @unresolved _ _ item _ _ _ _ _ err =>
      cases item with
      | reference name =>
        rw [item_cell, cfa_of] at err
        split at err <;> cases err
        exact .inr ⟨name, rfl⟩
      | literal value => cases err
    | overflow => exact .inl rfl

/-- A build into a fresh dictionary: it returns exactly when its names resolve and its cells fit,
    and raises a `KernelError` or an `IndexError` otherwise. -/
lemma buildFresh_extent [UnicodeData] (m : ListMemoryAdapter n) (room : DICTIONARY_BASE ≤ n)
    (colon_words : List ColonWordDto) (boot : List ThreadItemDto) :
    (Resolvable colon_words boot ∧ DICTIONARY_BASE + buildSize colon_words boot ≤ n →
      ∃ image m', buildFresh colon_words boot m = .ok image m' ∧
        m'.cell DP_ADDR = DICTIONARY_BASE + buildSize colon_words boot ∧
        ∀ i, DICTIONARY_BASE + buildSize colon_words boot ≤ i → m'.cell i = m.cell i) ∧
      (¬(Resolvable colon_words boot ∧ DICTIONARY_BASE + buildSize colon_words boot ≤ n) →
        ∃ e m', buildFresh colon_words boot m = .error e m' ∧
          (e = .indexError ∨ ∃ name, e = .notInstalled name)) := by
  obtain ⟨m₀, e₀, rep, frame₀⟩ := init_represents m room
  have base : Dictionary.empty.dp = DICTIONARY_BASE := rfl
  constructor
  · intro h
    obtain ⟨d', word_cfas, cells, laid, hb, fits⟩ := fresh_laid.mpr h
    obtain ⟨m', run, rep', -, frame⟩ := build_ok rep laid hb fits
    have size : d'.dp + cells.length = DICTIONARY_BASE + buildSize colon_words boot := by
      rw [(laidOut_extent .nil laid).1, Fallible.length_of_mapM hb, buildSize]
      omega
    refine ⟨_, m', (bind_ok e₀).trans run, ?_, fun i lo => ?_⟩
    · rw [rep'.ready.dp]
      exact size
    · rw [frame i (by omega) (by omega), frame₀ i (by omega)]
  · intro h
    rcases build_cases rep colon_words boot with laid | ⟨e, m', run, stops⟩
    · exact absurd (fresh_laid.mp laid) h
    · exact ⟨e, m', (bind_ok e₀).trans run, stops.error⟩

/-- The dictionary is bounded by the memory only. Appends to a fresh dictionary return exactly when
    their cells fit in the memory, and a build when its names resolve besides; they leave `DP` past
    the last cell, wherever that is, and no cell from there on is written. Otherwise the appends
    raise an `IndexError`, and the build a `KernelError` or an `IndexError`. -/
theorem dictionary_extent [UnicodeData] (m : ListMemoryAdapter n) (room : DICTIONARY_BASE ≤ n) :
    (∀ ops : List Append,
      (DICTIONARY_BASE + totalSize ops ≤ n →
        ∃ addresses m', performFresh ops m = .ok addresses m' ∧
          m'.cell DP_ADDR = DICTIONARY_BASE + totalSize ops ∧
          ∀ i, DICTIONARY_BASE + totalSize ops ≤ i → m'.cell i = m.cell i) ∧
      (n < DICTIONARY_BASE + totalSize ops → ∃ m', performFresh ops m = .error .indexError m')) ∧
    ∀ (colon_words : List ColonWordDto) (boot : List ThreadItemDto),
      (Resolvable colon_words boot ∧ DICTIONARY_BASE + buildSize colon_words boot ≤ n →
        ∃ image m', buildFresh colon_words boot m = .ok image m' ∧
          m'.cell DP_ADDR = DICTIONARY_BASE + buildSize colon_words boot ∧
          ∀ i, DICTIONARY_BASE + buildSize colon_words boot ≤ i → m'.cell i = m.cell i) ∧
      (¬(Resolvable colon_words boot ∧ DICTIONARY_BASE + buildSize colon_words boot ≤ n) →
        ∃ e m', buildFresh colon_words boot m = .error e m' ∧
          (e = .indexError ∨ ∃ name, e = .notInstalled name)) := by
  refine ⟨fun ops => ⟨fun fits => ?_, fun large => ?_⟩, buildFresh_extent m room⟩
  · obtain ⟨addresses, m', d, run, -, rep, -, dp, frame⟩ := performFresh_ok m ops fits
    exact ⟨addresses, m', run, rep.ready.dp.trans dp, frame⟩
  · obtain ⟨m₀, e₀, rep, -⟩ := init_represents m room
    obtain ⟨m', run⟩ := performAll_overflow rep (show (n : ℤ) < Dictionary.empty.dp + totalSize ops from large)
    exact ⟨m', (bind_ok e₀).trans run⟩

section Instances

attribute [local instance] UnicodeData.ascii

/-- In a memory of 20 cells there is room for two words of one letter. -/
theorem dictionary_extent_small :
    (∃ addresses m', performFresh [.word "A" 7 [] false, .word "B" 9 [] true]
        (.zeroed 20 : ListMemoryAdapter 20) = .ok addresses m' ∧ m'.cell DP_ADDR = 20) ∧
      ∃ m', performFresh [.word "A" 7 [] false, .word "B" 9 [1] true]
        (.zeroed 20 : ListMemoryAdapter 20) = .error .indexError m' := by
  have extent := (dictionary_extent (.zeroed 20 : ListMemoryAdapter 20) (by decide)).1
  obtain ⟨addresses, m', run, dp, -⟩ :=
    (extent [.word "A" 7 [] false, .word "B" 9 [] true]).1 (by decide)
  exact ⟨⟨addresses, m', run, dp⟩, (extent [.word "A" 7 [] false, .word "B" 9 [1] true]).2 (by decide)⟩

/-- Nothing stops the dictionary at its upper bound: 2041 raw cells, or a boot thread of 2041
    literals, reach into the data stack. -/
theorem dictionary_overruns :
    (∃ addresses m', performFresh (List.replicate 2041 (.cell 5)) (.zeroed MEMORY_SIZE.toNat) =
        .ok addresses m' ∧ DICTIONARY_TOP < m'.cell DP_ADDR) ∧
      ∃ image m', buildFresh [] (List.replicate 2041 (.literal 5)) (.zeroed MEMORY_SIZE.toNat) =
        .ok image m' ∧ DICTIONARY_TOP < m'.cell DP_ADDR := by
  have lay := Layout.values
  have cells : totalSize (List.replicate 2041 (Append.cell 5)) = 2041 := by
    rw [totalSize, List.map_replicate, List.sum_replicate]
    rfl
  obtain ⟨addresses, m₁, d, run₁, -, rep, -, dp₁, -⟩ := performFresh_ok (.zeroed MEMORY_SIZE.toNat)
    (List.replicate 2041 (Append.cell 5)) (by rw [cells]; decide)
  have size : buildSize [] (List.replicate 2041 (.literal 5)) = 2344 := by
    have words : ((specs []).map WordSpecDto.cells).sum = 303 := by decide +kernel
    rw [buildSize, words, List.length_replicate]
  have resolvable : Resolvable [] (List.replicate 2041 (.literal 5)) := by
    refine ⟨by decide +kernel, fun item mem name refers => ?_⟩
    rw [List.eq_of_mem_replicate mem] at refers
    cases refers
  obtain ⟨image, m₂, run₂, dp₂, -⟩ := (buildFresh_extent (.zeroed MEMORY_SIZE.toNat) (by decide) []
    (List.replicate 2041 (.literal 5))).1 ⟨resolvable, by rw [size]; decide⟩
  refine ⟨⟨addresses, m₁, run₁, ?_⟩, image, m₂, run₂, ?_⟩
  · rw [rep.ready.dp, dp₁, cells]
    decide
  · rw [dp₂, size]
    decide

end Instances

end KernelBuilder

end MinCpuForth.Kernel
