import MinCpuForth.Kernel.Builder
import MinCpuForth.Kernel.Listing

/-!
# What a build lays down

The words of a build and its boot thread, as appends to an abstract dictionary. A build returns
exactly when every reference is to a word installed before it and the cells fit in the memory.
-/

namespace MinCpuForth.Kernel
open Python Domain Layout Adapters Assembler Lib ListMemoryAdapter MemoryDictionaryAdapter

/-- The label of a routine is defined once, by that routine. -/
lemma lookup_kernelLabels {r : Routine} (mem : r ∈ ROUTINES) {label : PyStr} {address : ℤ}
    (own : (label, address) ∈ r.labels) : kernelLabels.lookup label = some address := by
  have within : (label, address) ∈ kernelLabels :=
    List.mem_flatten.mpr ⟨r.labels, List.mem_map_of_mem mem, own⟩
  suffices h : ∀ labels : Labels, (labels.map Prod.fst).Nodup → (label, address) ∈ labels →
      labels.lookup label = some address from h _ kernelLabels_nodup within
  intro labels
  induction labels with
  | nil =>
    intro _ mem
    cases mem
  | cons l labels ih =>
    intro nodup mem
    obtain ⟨fresh, nodup⟩ := List.nodup_cons.mp nodup
    rcases List.mem_cons.mp mem with rfl | mem
    · simp
    · have ne : label ≠ l.1 := by
        rintro rfl
        exact fresh (List.mem_map.mpr ⟨_, mem, rfl⟩)
      rw [List.lookup_cons, beq_false_of_ne ne]
      exact ih nodup mem

namespace KernelBuilder

variable {n : ℕ}

/-- The program index of `ENTER`. -/
abbrev ENTER_INDEX : ℤ := 7

/-- The append that installs a word. -/
def appendOf (word_cfas : PyDict ℤ) : WordSpecDto → Except PyError Append
  | .code word => do
    let routine ← label_index kernelLabels word.routine_label
    return .word word.name routine [] word.immediate
  | .colon word => do
    let thread ← (word.words ++ [EXIT_WORD]).mapM (cfa_of word_cfas)
    return .word word.name ENTER_INDEX thread word.immediate

/-- The dictionary and the table of code field addresses after some words. -/
def laidOut (d : Dictionary) (word_cfas : PyDict ℤ) :
    List WordSpecDto → Except PyError (Dictionary × PyDict ℤ)
  | [] => .ok (d, word_cfas)
  | word :: words => do
    let op ← appendOf word_cfas word
    laidOut (d.append op) (word_cfas.setItem word.name (d.returned op)) words

/-- The cells of a boot thread. -/
def bootCells (word_cfas : PyDict ℤ) (boot : List ThreadItemDto) : Except PyError (List ℤ) :=
  boot.mapM (item_cell word_cfas)

@[simp] lemma lift_ok {α : Type} (a : α) :
    (lift (.ok a) : EStateM PyError (ListMemoryAdapter n) α) = pure a := rfl

@[simp] lemma lift_error {α : Type} (e : PyError) :
    (lift (.error e) : EStateM PyError (ListMemoryAdapter n) α) = throw e := rfl

/-- Installing a word is the append that `appendOf` says. -/
lemma install_eq (word_cfas : PyDict ℤ) (word : WordSpecDto) :
    (install kernelLabels ENTER_INDEX word_cfas word :
      EStateM PyError (ListMemoryAdapter n) (PyDict ℤ)) = do
        let op ← lift (appendOf word_cfas word)
        let cfa ← op.perform
        return word_cfas.setItem word.name cfa := by
  cases word with
  | code word =>
    simp only [install, appendOf]
    cases label_index kernelLabels word.routine_label with
    | ok routine => rfl
    | error e => rfl
  | colon word =>
    simp only [install, appendOf]
    cases (word.words ++ [EXIT_WORD]).mapM (cfa_of word_cfas) with
    | ok thread => rfl
    | error e => rfl

lemma installAll_cons (word_cfas : PyDict ℤ) (word : WordSpecDto) (words : List WordSpecDto) :
    (installAll kernelLabels ENTER_INDEX word_cfas (word :: words) :
      EStateM PyError (ListMemoryAdapter n) (PyDict ℤ)) =
      lift (appendOf word_cfas word) >>= fun op => op.perform >>= fun cfa =>
        installAll kernelLabels ENTER_INDEX (word_cfas.setItem word.name cfa) words := by
  simp only [installAll, install_eq, bind_assoc, pure_bind]

variable {m : ListMemoryAdapter n} {d d' : Dictionary} {word_cfas word_cfas' : PyDict ℤ}

/-- A CODE word's label is defined by the kernel, and its code field holds the index. -/
lemma appendOf_code {w : CodeWordDto} {op : Append} (h : appendOf word_cfas (.code w) = .ok op) :
    ∃ routine, label_index kernelLabels w.routine_label = .ok routine ∧
      op = .word w.name routine [] w.immediate := by
  obtain ⟨routine, e, h⟩ := Fallible.bind_eq_ok.mp h
  cases h
  exact ⟨routine, e, rfl⟩

/-- A colon word's code field holds the index of `ENTER`, and its thread follows. -/
lemma appendOf_colon {w : ColonWordDto} {op : Append} (h : appendOf word_cfas (.colon w) = .ok op) :
    ∃ thread, (w.words ++ [EXIT_WORD]).mapM (cfa_of word_cfas) = .ok thread ∧
      op = .word w.name ENTER_INDEX thread w.immediate := by
  obtain ⟨thread, e, h⟩ := Fallible.bind_eq_ok.mp h
  cases h
  exact ⟨thread, e, rfl⟩

/-- The words come one after the other. -/
lemma laidOut_cons {word : WordSpecDto} {words : List WordSpecDto}
    (h : laidOut d word_cfas (word :: words) = .ok (d', word_cfas')) :
    ∃ op, appendOf word_cfas word = .ok op ∧
      laidOut (d.append op) (word_cfas.setItem word.name (d.returned op)) words =
        .ok (d', word_cfas') := by
  exact Fallible.bind_eq_ok.mp h

/-- Installing words only moves `DP` up. -/
lemma laidOut_dp_le {words : List WordSpecDto}
    (h : laidOut d word_cfas words = .ok (d', word_cfas')) : d.dp ≤ d'.dp := by
  induction words generalizing d word_cfas with
  | nil =>
    cases h
    exact Int.le_refl _
  | cons word words ih =>
    obtain ⟨op, -, rest⟩ := laidOut_cons h
    have le := ih rest
    rw [d.append_dp] at le
    omega

/-- Words that are laid out and fit are installed. -/
lemma installAll_ok (rep : Represents m d) {words : List WordSpecDto}
    (h : laidOut d word_cfas words = .ok (d', word_cfas')) (fits : d'.dp ≤ n) :
    ∃ m', installAll kernelLabels ENTER_INDEX word_cfas words m = .ok word_cfas' m' ∧
      Represents m' d' ∧
      ∀ i, DICTIONARY_BASE ≤ i → ¬(d.dp ≤ i ∧ i < d'.dp) → m'.cell i = m.cell i := by
  induction words generalizing m d word_cfas with
  | nil =>
    cases h
    exact ⟨m, rfl, rep, fun _ _ _ => rfl⟩
  | cons word words ih =>
    obtain ⟨op, e, rest⟩ := laidOut_cons h
    have le := laidOut_dp_le rest
    have base := d.linked.base_le
    rw [d.append_dp] at le
    obtain ⟨m₁, e₁, rep₁, frame₁⟩ := perform_ok rep op (by omega)
    obtain ⟨m₂, e₂, rep₂, frame₂⟩ := ih rep₁ rest
    rw [d.append_dp] at frame₂
    refine ⟨m₂, ?_, rep₂, fun i lo out => ?_⟩
    · rw [installAll_cons, e, lift_ok, pure_bind, bind_ok e₁, e₂]
    · rw [frame₂ i lo (by omega), frame₁ i lo (by omega)]

/-- Where installing words stops: the words before are installed, and the next one has a name that
    does not resolve, or its cells do not fit. -/
inductive Stops (m m' : ListMemoryAdapter n) (d : Dictionary) (word_cfas : PyDict ℤ)
    (words : List WordSpecDto) : PyError → Prop
  | unresolved {done rest : List WordSpecDto} {word : WordSpecDto} {d₁ : Dictionary}
      {cfas : PyDict ℤ} {e : PyError} (split : words = done ++ word :: rest)
      (laid : laidOut d word_cfas done = .ok (d₁, cfas)) (fits : d₁.dp ≤ n)
      (err : appendOf cfas word = .error e) (rep : Represents m' d₁)
      (frame : ∀ i, DICTIONARY_BASE ≤ i → ¬(d.dp ≤ i ∧ i < d₁.dp) → m'.cell i = m.cell i) :
      Stops m m' d word_cfas words e
  | overflow {done rest : List WordSpecDto} {word : WordSpecDto} {d₁ : Dictionary}
      {cfas : PyDict ℤ} {op : Append} (split : words = done ++ word :: rest)
      (laid : laidOut d word_cfas done = .ok (d₁, cfas)) (fits : d₁.dp ≤ n)
      (resolved : appendOf cfas word = .ok op) (large : n < d₁.dp + op.size) :
      Stops m m' d word_cfas words .indexError

/-- Installing words succeeds or stops. -/
lemma installAll_cases (rep : Represents m d) (words : List WordSpecDto) :
    (∃ d' word_cfas', laidOut d word_cfas words = .ok (d', word_cfas') ∧ d'.dp ≤ n) ∨
      ∃ e m', installAll kernelLabels ENTER_INDEX word_cfas words m = .error e m' ∧
        Stops m m' d word_cfas words e := by
  induction words generalizing m d word_cfas with
  | nil => exact .inl ⟨d, word_cfas, rfl, rep.ready.le_size⟩
  | cons word words ih =>
    rw [installAll_cons]
    cases e : appendOf word_cfas word with
    | error err =>
      refine .inr ⟨err, m, bind_error rfl, ?_⟩
      have split : word :: words = [] ++ word :: words := rfl
      exact .unresolved split rfl rep.ready.le_size e rep fun _ _ _ => rfl
    | ok op =>
      rw [lift_ok, pure_bind]
      have extend : ∀ {done : List WordSpecDto} {result : Dictionary × PyDict ℤ},
          laidOut (d.append op) (word_cfas.setItem word.name (d.returned op)) done = .ok result →
            laidOut d word_cfas (word :: done) = .ok result := by
        intro done result l
        rw [laidOut, e]
        exact l
      by_cases fit : d.dp + op.size ≤ n
      · obtain ⟨m₁, e₁, rep₁, frame₁⟩ := perform_ok rep op fit
        rw [bind_ok e₁]
        rcases ih rep₁ with ⟨d', word_cfas', laid, le⟩ | ⟨err, m₂, e₂, stops⟩
        · exact .inl ⟨d', word_cfas', extend laid, le⟩
        · refine .inr ⟨err, m₂, e₂, ?_⟩
          cases stops with
          | @unresolved done rest w d₁ _ _ split laid fits err rep' frame =>
            have le := laidOut_dp_le laid
            rw [d.append_dp] at le frame
            refine .unresolved (congrArg (word :: ·) split) (extend laid) fits err rep' ?_
            intro i lo out
            rw [frame i lo (by omega), frame₁ i lo (by omega)]
          | overflow split laid fits resolved large =>
            exact .overflow (congrArg (word :: ·) split) (extend laid) fits resolved large
      · obtain ⟨m₁, e₁, -⟩ := perform_overflow rep (by omega : (n : ℤ) < d.dp + op.size)
        refine .inr ⟨.indexError, m₁, bind_error e₁, ?_⟩
        have split : word :: words = [] ++ word :: words := rfl
        exact .overflow split rfl rep.ready.le_size e (by omega)

/-- Some words, and then the others. -/
lemma laidOut_append {done rest : List WordSpecDto} : laidOut d word_cfas (done ++ rest) =
    laidOut d word_cfas done >>= fun (d₁, cfas) => laidOut d₁ cfas rest := by
  induction done generalizing d word_cfas with
  | nil => rfl
  | cons word done ih => simp only [List.cons_append, laidOut, bind_assoc, ih]

/-- The boot thread is laid down cell by cell. -/
lemma append_boot_appends {a : ℤ} {boot : List ThreadItemDto} {cells : List ℤ} (rd : Ready m a)
    (h : bootCells word_cfas boot = .ok cells) :
    Appends (append_boot word_cfas boot) m a cells () := by
  induction boot generalizing m a cells with
  | nil =>
    cases h
    exact Appends.pure rd ()
  | cons item boot ih =>
    obtain ⟨cell, cells', e, e', rfl⟩ := Fallible.mapM_cons_eq_ok.mp h
    rw [append_boot, e, lift_ok, pure_bind]
    exact (append_cell_appends rd cell).bind rd fun m' _ rd' => ih rd' e'

/-- Where laying down the boot thread stops: the cells before are in place, and the next item has a
    name that does not resolve, or there is no cell for it. -/
inductive BootStops (m m' : ListMemoryAdapter n) (a : ℤ) (word_cfas : PyDict ℤ)
    (boot : List ThreadItemDto) : PyError → Prop
  | unresolved {before after : List ThreadItemDto} {item : ThreadItemDto} {cells : List ℤ}
      {e : PyError} (split : boot = before ++ item :: after)
      (resolved : bootCells word_cfas before = .ok cells) (fits : a + cells.length ≤ n)
      (err : item_cell word_cfas item = .error e) (grown : Grown m m' a cells) :
      BootStops m m' a word_cfas boot e
  | overflow {before after : List ThreadItemDto} {item : ThreadItemDto} {cells : List ℤ}
      (split : boot = before ++ item :: after)
      (resolved : bootCells word_cfas (before ++ [item]) = .ok cells)
      (large : n < a + cells.length) : BootStops m m' a word_cfas boot .indexError

/-- Laying down the boot thread succeeds or stops. -/
lemma append_boot_cases {a : ℤ} (rd : Ready m a) (boot : List ThreadItemDto) :
    (∃ cells, bootCells word_cfas boot = .ok cells ∧ a + cells.length ≤ n) ∨
      ∃ e m', append_boot word_cfas boot m = .error e m' ∧ BootStops m m' a word_cfas boot e := by
  induction boot generalizing m a with
  | nil => exact .inl ⟨[], rfl, by simpa using rd.le_size⟩
  | cons item boot ih =>
    have whole : item :: boot = [] ++ item :: boot := rfl
    rw [append_boot]
    cases first : item_cell word_cfas item with
    | error e =>
      refine .inr ⟨e, m, bind_error rfl, ?_⟩
      exact .unresolved whole rfl (by simpa using rd.le_size) first (.refl rd.dp)
    | ok cell =>
      have extend : ∀ {items : List ThreadItemDto} {cells : List ℤ},
          bootCells word_cfas items = .ok cells →
            bootCells word_cfas (item :: items) = .ok (cell :: cells) :=
        fun h => Fallible.mapM_cons_eq_ok.mpr ⟨_, _, first, h, rfl⟩
      rw [lift_ok, pure_bind]
      by_cases fit : a + 1 ≤ n
      · obtain ⟨m₁, e₁, g⟩ := (append_cell_appends rd cell).fits fit
        have at₁ : a + ([cell] : List ℤ).length = a + 1 := rfl
        have rd₁ := g.ready rd fit
        rw [bind_ok e₁]
        rw [at₁] at rd₁
        rcases ih rd₁ with ⟨cells, h, le⟩ | ⟨e, m₂, e₂, stops⟩
        · exact .inl ⟨cell :: cells, extend h, by rw [List.length_cons]; omega⟩
        · refine .inr ⟨e, m₂, e₂, ?_⟩
          cases stops with
          | unresolved split resolved fits err grown =>
            refine .unresolved (congrArg (item :: ·) split) (extend resolved) ?_ err ?_
            · rw [List.length_cons]
              omega
            · exact g.trans grown rd.base_le
          | @overflow before after item' cells split resolved large =>
            have resolved' : bootCells word_cfas ((item :: before) ++ [item']) =
                .ok (cell :: cells) := extend resolved
            refine .overflow (congrArg (item :: ·) split) resolved' ?_
            rw [List.length_cons]
            omega
      · obtain ⟨m₁, e₁, -⟩ := (append_cell_appends rd cell).overflows
          (by simp only [List.length_singleton]; omega)
        refine .inr ⟨.indexError, m₁, bind_error e₁, ?_⟩
        have resolved : bootCells word_cfas ([] ++ [item]) = .ok [cell] := extend rfl
        exact .overflow whole resolved (by rw [List.length_singleton]; omega)

/-- A build, once the kernel is assembled. -/
lemma build_eq [UnicodeData] (colon_words : List ColonWordDto) (boot : List ThreadItemDto) :
    (build colon_words boot : EStateM PyError (ListMemoryAdapter n) KernelImageDto) =
      installAll kernelLabels ENTER_INDEX [] (specs colon_words) >>= fun word_cfas =>
        here >>= fun boot_ip => append_boot word_cfas boot >>= fun _ =>
          pure ⟨kernelProgram, word_cfas, boot_ip⟩ := by
  have core : (⟨CORE_LINES, 0, Routines.CORE_code 0, [("START", 0), ("NEXT", 3), ("ENTER", 7)]⟩ :
      Routine) ∈ ROUTINES := List.mem_cons_self ..
  have start : kernelLabels.lookup START_LABEL = some 0 :=
    lookup_kernelLabels core (List.mem_cons_self ..)
  have enter : kernelLabels.lookup ENTER_LABEL = some ENTER_INDEX :=
    lookup_kernelLabels core (.tail _ (.tail _ (.head _)))
  have assembled : (assemble KERNEL_SOURCE).mapError PyError.assembler =
      .ok ⟨kernelProgram, kernelLabels⟩ := by
    rw [assemble_kernel]
    rfl
  have index : label_index kernelLabels ENTER_LABEL = .ok ENTER_INDEX := by
    rw [label_index, enter]
  rw [build, assembled, lift_ok, pure_bind]
  simp only [start, ne_eq, not_true_eq_false, if_false, index, lift_ok, pure_bind]

/-- A build whose references resolve and whose cells fit. -/
lemma build_ok [UnicodeData] (rep : Represents m d) {colon_words : List ColonWordDto}
    {boot : List ThreadItemDto} {cells : List ℤ}
    (h : laidOut d [] (specs colon_words) = .ok (d', word_cfas))
    (hb : bootCells word_cfas boot = .ok cells) (fits : d'.dp + cells.length ≤ n) :
    ∃ m', build colon_words boot m = .ok ⟨kernelProgram, word_cfas, d'.dp⟩ m' ∧
      Represents m' (d'.skip cells.length) ∧ CellsAt m'.cell d'.dp cells ∧
      ∀ i, DICTIONARY_BASE ≤ i → ¬(d.dp ≤ i ∧ i < d'.dp + cells.length) →
        m'.cell i = m.cell i := by
  have lay := Layout.values
  have base := d.linked.base_le
  have le := laidOut_dp_le h
  obtain ⟨m₁, e₁, rep₁, frame₁⟩ := installAll_ok rep h (by omega)
  obtain ⟨m₂, e₂, g⟩ := (append_boot_appends rep₁.ready hb).fits fits
  refine ⟨m₂, ?_, rep₁.skip g fits, g.cells, fun i lo out => ?_⟩
  · rw [build_eq, bind_ok e₁, bind_ok (show here m₁ = .ok d'.dp m₁ from rep₁.ready.dp_run),
      bind_ok e₂]
    rfl
  · rw [g.frame i (by omega) (by omega), frame₁ i lo (by omega)]

/-- Where a build stops: at a word, or in the boot thread. -/
inductive BuildStops (m m' : ListMemoryAdapter n) (d : Dictionary) (colon_words : List ColonWordDto)
    (boot : List ThreadItemDto) (e : PyError) : Prop
  | word (stops : Stops m m' d [] (specs colon_words) e)
  | boot {m₁ : ListMemoryAdapter n} {d₁ : Dictionary} {cfas : PyDict ℤ}
      (laid : laidOut d [] (specs colon_words) = .ok (d₁, cfas)) (fits : d₁.dp ≤ n)
      (rep : Represents m₁ d₁)
      (frame : ∀ i, DICTIONARY_BASE ≤ i → ¬(d.dp ≤ i ∧ i < d₁.dp) → m₁.cell i = m.cell i)
      (stops : BootStops m₁ m' d₁.dp cfas boot e)

/-- A build succeeds or stops. -/
lemma build_cases [UnicodeData] (rep : Represents m d) (colon_words : List ColonWordDto)
    (boot : List ThreadItemDto) :
    (∃ d' word_cfas cells, laidOut d [] (specs colon_words) = .ok (d', word_cfas) ∧
        bootCells word_cfas boot = .ok cells ∧ d'.dp + cells.length ≤ n) ∨
      ∃ e m', build colon_words boot m = .error e m' ∧ BuildStops m m' d colon_words boot e := by
  rw [build_eq]
  rcases installAll_cases rep (specs colon_words) with ⟨d₁, cfas, laid, fits⟩ | ⟨e, m₁, run, stops⟩
  · obtain ⟨m₁, e₁, rep₁, frame₁⟩ := installAll_ok rep laid fits
    rw [bind_ok e₁, bind_ok (show here m₁ = .ok d₁.dp m₁ from rep₁.ready.dp_run)]
    rcases append_boot_cases rep₁.ready boot with ⟨cells, hb, le⟩ | ⟨e, m₂, run, stops⟩
    · exact .inl ⟨d₁, cfas, cells, laid, hb, le⟩
    · exact .inr ⟨e, m₂, bind_error run, .boot laid fits rep₁ frame₁ stops⟩
  · exact .inr ⟨e, m₁, bind_error run, .word stops⟩

/-- A build returns exactly when its references resolve and its cells fit. -/
theorem build_returns [UnicodeData] (rep : Represents m d) {colon_words : List ColonWordDto}
    {boot : List ThreadItemDto} :
    (∃ image m', build colon_words boot m = .ok image m') ↔
      ∃ d' word_cfas cells, laidOut d [] (specs colon_words) = .ok (d', word_cfas) ∧
        bootCells word_cfas boot = .ok cells ∧ d'.dp + cells.length ≤ n := by
  constructor
  · rintro ⟨image, m', run⟩
    rcases build_cases rep colon_words boot with laid | ⟨e, m₁, failed, -⟩
    · exact laid
    · cases run.symm.trans failed
  · rintro ⟨d', word_cfas, cells, h, hb, fits⟩
    obtain ⟨m', run, -⟩ := build_ok rep h hb fits
    exact ⟨_, m', run⟩

/-- What a build that returns has done. -/
lemma build_inv [UnicodeData] (rep : Represents m d) {m' : ListMemoryAdapter n}
    {colon_words : List ColonWordDto} {boot : List ThreadItemDto} {image : KernelImageDto}
    (run : build colon_words boot m = .ok image m') :
    ∃ d' word_cfas cells, laidOut d [] (specs colon_words) = .ok (d', word_cfas) ∧
      bootCells word_cfas boot = .ok cells ∧ image = ⟨kernelProgram, word_cfas, d'.dp⟩ ∧
      Represents m' (d'.skip cells.length) ∧ CellsAt m'.cell d'.dp cells := by
  obtain ⟨d', word_cfas, cells, laid, hb, fits⟩ := (build_returns rep).mp ⟨image, m', run⟩
  obtain ⟨m₁, run₁, rep', boot_at, -⟩ := build_ok rep laid hb fits
  cases run.symm.trans run₁
  exact ⟨d', word_cfas, cells, laid, hb, rfl, rep', boot_at⟩

end KernelBuilder

end MinCpuForth.Kernel
