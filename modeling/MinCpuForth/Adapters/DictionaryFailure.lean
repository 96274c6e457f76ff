import MinCpuForth.Adapters.DictionaryHistory

/-!
# Appends that fail

An append that runs out of memory may have laid down cells past the dictionary and have moved `DP`
over them, but it publishes a word in `LATEST` only when all of its cells are in place. What it
leaves is the same dictionary with some raw cells behind it, on which the next append works as well.
-/

namespace MinCpuForth.Adapters.MemoryDictionaryAdapter
open Python Domain Layout Lib ListMemoryAdapter MemorySystemVariablesAdapter

variable {n : ℕ} {α β : Type} {m m' m'' : ListMemoryAdapter n} {a : ℤ} {xs : List ℤ}

/-- Nothing below `a` changed but `DP`, which is at `a` or has moved on inside the memory. -/
structure Spilled (m m' : ListMemoryAdapter n) (a : ℤ) : Prop where
  below : SameBelow m m' a
  dp_ge : a ≤ m'.cell DP_ADDR
  dp_le : m'.cell DP_ADDR ≤ n

/-- When the action raises, the memory ended, and only cells from `a` on have been written. -/
def Spills (act : EStateM PyError (ListMemoryAdapter n) α) (m : ListMemoryAdapter n) (a : ℤ) :
    Prop :=
  ∀ e m', act m = .error e m' → e = .indexError ∧ Spilled m m' a

section Parts

variable {act : EStateM PyError (ListMemoryAdapter n) α}
  {f : α → EStateM PyError (ListMemoryAdapter n) β} {ret : α}

/-- Nothing written. -/
lemma Ready.spilled (rd : Ready m a) : Spilled m m a :=
  ⟨fun _ _ _ => rfl, Int.le_of_eq rd.dp.symm, rd.dp.symm ▸ rd.le_size⟩

/-- Cells written after some were laid down. -/
lemma Spilled.after (g : Grown m m' a xs) (s : Spilled m' m'' (a + xs.length)) :
    Spilled m m'' a := by
  have ge := s.dp_ge
  refine ⟨fun i ne lt => ?_, by omega, s.dp_le⟩
  rw [s.below i ne (by omega), g.sameBelow i ne lt]

/-- An action that does not raise. -/
lemma Spills.of_ok (ok : act m = .ok ret m') : Spills act m a := by
  intro e m'' run
  cases ok.symm.trans run

/-- Appending after appending. -/
lemma Spills.bind (rd : Ready m a) (h : Appends act m a xs ret) (s : Spills act m a)
    (rest : ∀ m', Grown m m' a xs → Ready m' (a + xs.length) →
      Spills (f ret) m' (a + xs.length)) : Spills (act >>= f) m a := by
  intro e m' run
  rcases bind_eq_error.mp run with run | ⟨r, m₁, run, run'⟩
  · exact s e m' run
  · by_cases fit : a + xs.length ≤ n
    · obtain ⟨m₂, ok, g⟩ := h.fits fit
      cases ok.symm.trans run
      obtain ⟨index, spilled⟩ := rest m₁ g (g.ready rd fit) e m' run'
      exact ⟨index, spilled.after g⟩
    · obtain ⟨m₂, error, -⟩ := h.overflows (by omega)
      cases error.symm.trans run

/-- An action that reads the memory and changes nothing, before appending. -/
lemma Spills.read (ok : act m = .ok ret m) (rest : Spills (f ret) m a) :
    Spills (act >>= f) m a := by
  intro e m' run
  rw [bind_ok ok] at run
  exact rest e m' run

/-- One raw cell. -/
lemma append_cell_spills (rd : Ready m a) (value : ℤ) : Spills (append_cell value) m a := by
  have base := rd.base_le
  have lay := Layout.values
  by_cases fit : a < n
  · obtain ⟨m', ok, -⟩ := (append_cell_appends rd value).fits
      (by simp only [List.length_singleton]; omega)
    exact .of_ok ok
  · refine Spills.read rd.dp_run fun e m' run => ?_
    rw [bind_error (store_of_ge (by omega))] at run
    cases run
    exact ⟨rfl, rd.spilled⟩

/-- A thread. -/
lemma append_thread_spills (rd : Ready m a) (thread : List ℤ) :
    Spills (append_thread thread) m a := by
  induction thread generalizing m a with
  | nil => exact .of_ok rfl
  | cons item thread ih =>
    exact Spills.bind rd (append_cell_appends rd item) (append_cell_spills rd item)
      fun m' _ rd' => ih rd'

/-- A name. -/
lemma append_name_spills (rd : Ready m a) (name : PyStr) : Spills (append_name name) m a := by
  have base := rd.base_le
  have lay := Layout.values
  have len := MemoryCountedStringAdapter.length_cells name
  by_cases fit : a + (MemoryCountedStringAdapter.cells name).length ≤ n
  · obtain ⟨m', ok, -⟩ := (append_name_appends rd name).fits fit
    exact .of_ok ok
  · -- `DP` is set once the whole name has been written, so that it is still where it was.
    refine Spills.read rd.dp_run ?_
    rw [len] at fit
    obtain ⟨m₁, error, same⟩ :=
      @MemoryCountedStringAdapter.write_error n m a name (by omega) (by omega)
    intro e m' run
    rw [bind_error error] at run
    cases run
    have dp : m₁.cell DP_ADDR = a := by rw [same _ (by omega), rd.dp]
    exact ⟨rfl, fun i _ lt => same i lt, Int.le_of_eq dp.symm, dp.symm ▸ rd.le_size⟩

end Parts

/-- The cells of a word. -/
lemma append_parts_spills (rd : Ready m a) (name : PyStr) (code_field : ℤ) (thread : List ℤ)
    (immediate : Bool) : Spills (append_parts name code_field thread immediate) m a := by
  refine Spills.read rd.latest_run ?_
  refine Spills.bind rd (append_cell_appends rd _) (append_cell_spills rd _) fun m₁ _ rd₁ => ?_
  refine Spills.bind rd₁ (append_cell_appends rd₁ _) (append_cell_spills rd₁ _) fun m₂ _ rd₂ => ?_
  refine Spills.bind rd₂ (append_cell_appends rd₂ 0) (append_cell_spills rd₂ 0) fun m₃ _ rd₃ => ?_
  refine Spills.bind rd₃ (append_name_appends rd₃ name) (append_name_spills rd₃ name)
    fun m₄ _ rd₄ => ?_
  refine Spills.read rd₄.dp_run ?_
  refine Spills.bind rd₄ (append_cell_appends rd₄ code_field) (append_cell_spills rd₄ code_field)
    fun m₅ _ rd₅ => ?_
  exact Spills.bind rd₅ (append_thread_appends rd₅ thread) (append_thread_spills rd₅ thread)
    fun m₆ _ _ => .of_ok rfl

/-- A word. -/
lemma append_word_spills {d : Dictionary} (rep : Represents m d) (name : PyStr) (code_field : ℤ)
    (thread : List ℤ) (immediate : Bool) :
    Spills (append_word name code_field thread immediate) m d.dp := by
  by_cases fit : (d.next name code_field thread immediate).stop ≤ n
  · obtain ⟨m', ok, -⟩ := append_word_ok rep fit
    exact .of_ok ok
  · obtain ⟨m₁, error, -⟩ := (append_parts_appends rep name code_field thread immediate).overflows
      (Int.lt_of_not_ge fit)
    intro e m' run
    rw [append_word_eq, bind_error error] at run
    cases run
    exact append_parts_spills rep.ready name code_field thread immediate _ _ error

/-- Raw cells past the dictionary keep its words. -/
lemma Spilled.represents {d : Dictionary} (rep : Represents m d) (s : Spilled m m' d.dp) :
    ∃ d', Represents m' d' ∧ d'.entries = d.entries := by
  have lay := Layout.values
  have base := d.linked.base_le
  have ge := s.dp_ge
  refine ⟨d.skip (m'.cell DP_ADDR - d.dp).toNat, ⟨⟨?_, ?_, ?_⟩, ?_, ?_⟩, rfl⟩
  · simp only [Dictionary.skip]
    omega
  · simp only [Dictionary.skip]
    omega
  · have le := s.dp_le
    simp only [Dictionary.skip]
    omega
  · rw [s.below _ (by omega) (by omega)]
    exact rep.latest
  · intro e mem
    obtain ⟨lo, hi⟩ := d.linked.bounds mem
    simp only [Entry.stop] at hi
    exact (rep.stored e mem).congr fun i lo' hi' => s.below i (by omega) (by omega)

/-- The memory after the call, whether it returns or raises. -/
def Append.attempt (op : Append) (m : ListMemoryAdapter n) : ListMemoryAdapter n :=
  match op.perform m with
  | .ok _ m' => m'
  | .error _ m' => m'

/-- The memory after the calls, each made whatever became of those before it. -/
def attemptAll : List Append → ListMemoryAdapter n → ListMemoryAdapter n
  | [], m => m
  | op :: ops, m => attemptAll ops (op.attempt m)

lemma Append.attempt_of_ok {op : Append} {address : ℤ} (run : op.perform m = .ok address m') :
    op.attempt m = m' := by
  rw [Append.attempt, run]

lemma Append.attempt_of_error {op : Append} {e : PyError} (run : op.perform m = .error e m') :
    op.attempt m = m' := by
  rw [Append.attempt, run]

/-- The words that the memory holds, newest first. A memory that ends before the dictionary begins
    holds none. -/
inductive Holds : ListMemoryAdapter n → List Entry → Prop
  | words {m : ListMemoryAdapter n} {d : Dictionary} : Represents m d → Holds m d.entries
  | cramped {m : ListMemoryAdapter n} : LATEST_ADDR < n → n < DICTIONARY_BASE →
    m.cell DP_ADDR = DICTIONARY_BASE → m.cell LATEST_ADDR = 0 → Holds m []

/-- A fresh dictionary holds no word, however small the memory. -/
lemma init_holds (run : init m = .ok () m') : Holds m' [] := by
  have lay := Layout.values
  by_cases room : DICTIONARY_BASE ≤ n
  · obtain ⟨m₁, ok, rep, -⟩ := init_represents m room
    cases ok.symm.trans run
    exact .words rep
  · by_cases first : 0 < n
    · have dp : set_dp DICTIONARY_BASE m = .ok () (m.set DP_ADDR DICTIONARY_BASE) :=
        store_of_lt (by omega) (by omega)
      rw [init, bind_ok dp] at run
      by_cases second : LATEST_ADDR < n
      · rw [set_latest, store_of_lt (by omega) second] at run
        cases run
        refine .cramped second (by omega) ?_ ?_
        · rw [cell_set_of_ne _ _ (by omega), cell_set_self _ _ (by omega) (by omega)]
        · rw [cell_set_self _ _ (by omega) second]
      · rw [set_latest, store_of_ge (by omega)] at run
        cases run
    · rw [init, set_dp, bind_error (store_of_ge (by omega))] at run
      cases run

namespace Holds

variable {es : List Entry}

/-- `headers` yields the words. -/
lemma headers_run (h : Holds m es) {fuel : ℕ} (enough : es.length < fuel) :
    headers fuel m = .ok (some (es.map Entry.header)) m := by
  cases h with
  | words rep => exact MemoryDictionaryAdapter.headers_run rep enough
  | cramped second _ _ latest =>
    have run : MemorySystemVariablesAdapter.latest m = .ok 0 m := by
      rw [MemorySystemVariablesAdapter.latest, load_of_lt (by decide) second, latest]
    rw [headers, bind_ok run]
    cases fuel with
    | zero => cases enough
    | succ fuel => rfl

/-- `find` returns the newest word of the name. -/
lemma find_run (h : Holds m es) (name : PyStr) {fuel : ℕ} (enough : es.length < fuel) :
    find fuel name m = .ok (some ((es.map Entry.header).find? (·.name = name))) m := by
  cases h with
  | words rep => exact MemoryDictionaryAdapter.find_run rep name enough
  | cramped second _ _ latest =>
    have run : MemorySystemVariablesAdapter.latest m = .ok 0 m := by
      rw [MemorySystemVariablesAdapter.latest, load_of_lt (by decide) second, latest]
    rw [find, bind_ok run]
    cases fuel with
    | zero => cases enough
    | succ fuel => rfl

/-- A memory that ends before the dictionary begins takes no cell. -/
lemma append_cell_cramped (small : n < DICTIONARY_BASE) (second : LATEST_ADDR < n)
    (dp : m.cell DP_ADDR = DICTIONARY_BASE) (value : ℤ) :
    append_cell value m = .error .indexError m := by
  have lay := Layout.values
  have run : MemorySystemVariablesAdapter.dp m = .ok DICTIONARY_BASE m := by
    rw [MemorySystemVariablesAdapter.dp, load_of_lt (by decide) (by omega), dp]
  rw [append_cell, bind_ok run, bind_error (store_of_ge (by omega))]

/-- A word that could not be appended. -/
lemma word_error (h : Holds m es) {name : PyStr} {code_field : ℤ} {thread : List ℤ}
    {immediate : Bool} {e : PyError}
    (run : append_word name code_field thread immediate m = .error e m') :
    e = .indexError ∧ Holds m' es ∧ m'.cell LATEST_ADDR = m.cell LATEST_ADDR ∧
      ∀ i, DICTIONARY_BASE ≤ i → i < m.cell DP_ADDR → m'.cell i = m.cell i := by
  have lay := Layout.values
  cases h with
  | @words d rep =>
    have base := d.linked.base_le
    obtain ⟨index, spilled⟩ := append_word_spills rep name code_field thread immediate e m' run
    obtain ⟨d', rep', same⟩ := spilled.represents rep
    refine ⟨index, same ▸ .words rep', spilled.below _ (by omega) (by omega), fun i lo hi => ?_⟩
    rw [rep.ready.dp] at hi
    exact spilled.below i (by omega) hi
  | cramped second small dp latest =>
    have link : MemorySystemVariablesAdapter.latest m = .ok 0 m := by
      rw [MemorySystemVariablesAdapter.latest, load_of_lt (by decide) second, latest]
    rw [append_word, bind_ok link, bind_error (append_cell_cramped small second dp _)] at run
    cases run
    exact ⟨rfl, .cramped second small dp latest, rfl, fun _ _ _ => rfl⟩

/-- A cell, appended or not. -/
lemma append_cell (h : Holds m es) (value : ℤ) : Holds ((Append.cell value).attempt m) es := by
  cases h with
  | @words d rep =>
    have app := append_cell_appends rep.ready value
    by_cases fit : d.dp + ([value] : List ℤ).length ≤ n
    · obtain ⟨m₁, ok, g⟩ := app.fits fit
      have run : (Append.cell value).perform m = .ok d.dp m₁ := ok
      rw [Append.attempt_of_ok run]
      have h' : Holds m₁ (d.skip 1).entries := .words (rep.skip g fit)
      exact h'
    · obtain ⟨m₁, error, -⟩ := app.overflows (by omega)
      have run : (Append.cell value).perform m = .error .indexError m₁ := error
      rw [Append.attempt_of_error run]
      obtain ⟨d', rep', same⟩ :=
        (append_cell_spills rep.ready value _ _ error).2.represents rep
      exact same ▸ .words rep'
  | cramped second small dp latest =>
    have run : (Append.cell value).perform m = .error .indexError m :=
      append_cell_cramped small second dp value
    rw [Append.attempt_of_error run]
    exact .cramped second small dp latest

/-- A word, appended or not. -/
lemma append_word (h : Holds m es) (name : PyStr) (code_field : ℤ) (thread : List ℤ)
    (immediate : Bool) : ∃ es', es'.length ≤ es.length + 1 ∧
      Holds ((Append.word name code_field thread immediate).attempt m) es' := by
  cases run : (Append.word name code_field thread immediate).perform m with
  | error e m' =>
    rw [Append.attempt_of_error run]
    exact ⟨es, Nat.le_succ _, (h.word_error run).2.1⟩
  | ok cfa m' =>
    rw [Append.attempt_of_ok run]
    cases h with
    | @words d rep =>
      by_cases fit : (d.next name code_field thread immediate).stop ≤ n
      · obtain ⟨m₁, ok, rep', -⟩ := append_word_ok rep fit
        cases ok.symm.trans run
        exact ⟨_, Nat.le_refl _, .words rep'⟩
      · obtain ⟨m₁, error, -⟩ := append_word_overflow rep (Int.lt_of_not_ge fit)
        cases error.symm.trans run
    | cramped second small dp latest =>
      have link : MemorySystemVariablesAdapter.latest m = .ok 0 m := by
        rw [MemorySystemVariablesAdapter.latest, load_of_lt (by decide) second, latest]
      rw [Append.perform, MemoryDictionaryAdapter.append_word, bind_ok link,
        bind_error (append_cell_cramped small second dp _)] at run
      cases run

/-- Any calls, whatever became of each. -/
lemma attemptAll (h : Holds m es) (ops : List Append) :
    ∃ es', es'.length ≤ es.length + ops.length ∧ Holds (attemptAll ops m) es' := by
  induction ops generalizing m es with
  | nil => exact ⟨es, Nat.le_refl _, h⟩
  | cons op ops ih =>
    have first : ∃ es', es'.length ≤ es.length + 1 ∧ Holds (op.attempt m) es' := by
      cases op with
      | cell value => exact ⟨es, Nat.le_succ _, h.append_cell value⟩
      | word name code_field thread immediate => exact h.append_word ..
    obtain ⟨es₁, len₁, h₁⟩ := first
    obtain ⟨es₂, len₂, h₂⟩ := ih h₁
    exact ⟨es₂, by simp only [List.length_cons]; omega, h₂⟩

end Holds

/-- In a memory of any size, after any calls on a fresh dictionary, whether they returned or raised:
    an `append_word` that raises does so because the memory ends, and leaves `LATEST`, the answers
    of `headers` and of `find`, and every cell of the dictionary below `DP` as they were. -/
theorem failed_append_word_hidden {m₀ m m' : ListMemoryAdapter n} (fresh : init m₀ = .ok () m)
    (ops : List Append) {name : PyStr} {code_field : ℤ} {thread : List ℤ} {immediate : Bool}
    {e : PyError}
    (fails : append_word name code_field thread immediate (attemptAll ops m) = .error e m') :
    let before := attemptAll ops m
    e = .indexError ∧ m'.cell LATEST_ADDR = before.cell LATEST_ADDR ∧
      (∃ words : List DictionaryHeaderDto, ∀ fuel, ops.length < fuel →
        (headers fuel before = .ok (some words) before ∧ headers fuel m' = .ok (some words) m') ∧
        ∀ name, find fuel name before = .ok (some (words.find? (·.name = name))) before ∧
          find fuel name m' = .ok (some (words.find? (·.name = name))) m') ∧
      ∀ i, DICTIONARY_BASE ≤ i → i < before.cell DP_ADDR → m'.cell i = before.cell i := by
  intro before
  obtain ⟨es, len, h⟩ := (init_holds fresh).attemptAll ops
  obtain ⟨index, h', latest, frame⟩ := h.word_error fails
  refine ⟨index, latest, ⟨es.map Entry.header, fun fuel enough => ?_⟩, frame⟩
  have enough' : es.length < fuel := by
    simp only [List.length_nil] at len
    omega
  exact ⟨⟨h.headers_run enough', h'.headers_run enough'⟩,
    fun name => ⟨h.find_run name enough', h'.find_run name enough'⟩⟩

/-- The memory ends in the thread of the second word. -/
theorem failed_append_word_hidden_thread : ∃ m m' : ListMemoryAdapter 24,
    let before := attemptAll [.word "A" 7 [] false] m
    append_word "B" 7 [1, 2, 3, 4, 5] false before = .error .indexError m' ∧
      m'.cell LATEST_ADDR = before.cell LATEST_ADDR := by
  obtain ⟨m, fresh, rep, -⟩ := init_represents (.zeroed 24) (by decide)
  obtain ⟨m₁, first, rep₁, -⟩ := @append_word_ok _ _ _ "A" 7 [] false rep (by decide)
  have before : attemptAll [.word "A" 7 [] false] m = m₁ := Append.attempt_of_ok first
  obtain ⟨m', fails, -⟩ := @append_word_overflow _ _ _ "B" 7 [1, 2, 3, 4, 5] false rep₁ (by decide)
  rw [← before] at fails
  exact ⟨m, m', fails, (failed_append_word_hidden fresh _ fails).2.1⟩

end MinCpuForth.Adapters.MemoryDictionaryAdapter
