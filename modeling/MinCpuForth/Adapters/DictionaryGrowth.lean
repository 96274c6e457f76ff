import MinCpuForth.Adapters.Dictionary

/-!
# How the dictionary grows

Every append lays down a run of cells at `DP` and moves `DP` past it. `Grown` says what that does
to the memory, `Appends` when an action does it and what is left of the memory when the cells do
not fit. Appends compose, so that a word is the concatenation of its parts.
-/

namespace MinCpuForth.Adapters.MemoryDictionaryAdapter
open Python Domain Layout Lib ListMemoryAdapter MemorySystemVariablesAdapter

variable {n : ℕ} {α β : Type} {m m' m'' : ListMemoryAdapter n} {a : ℤ} {xs ys : List ℤ}

/-- The cells `xs` have been laid down at `a`, `DP` points past them, and nothing else changed. -/
structure Grown (m m' : ListMemoryAdapter n) (a : ℤ) (xs : List ℤ) : Prop where
  dp : m'.cell DP_ADDR = a + xs.length
  cells : CellsAt m'.cell a xs
  frame : ∀ i, i ≠ DP_ADDR → ¬(a ≤ i ∧ i < a + xs.length) → m'.cell i = m.cell i

/-- Nothing below `a` changed but `DP`. -/
def SameBelow (m m' : ListMemoryAdapter n) (a : ℤ) : Prop :=
  ∀ i, i ≠ DP_ADDR → i < a → m'.cell i = m.cell i

/-- A memory whose `DP` is `a`, past the system variables. -/
structure Ready (m : ListMemoryAdapter n) (a : ℤ) : Prop where
  dp : m.cell DP_ADDR = a
  base_le : DICTIONARY_BASE ≤ a
  le_size : a ≤ n

/-- The action lays down `xs` at `a` and returns `ret`; when the cells do not fit in the memory it
    raises an `IndexError` and leaves what lies below `a`. -/
structure Appends (act : EStateM PyError (ListMemoryAdapter n) α) (m : ListMemoryAdapter n) (a : ℤ)
    (xs : List ℤ) (ret : α) : Prop where
  fits : a + xs.length ≤ n → ∃ m', act m = .ok ret m' ∧ Grown m m' a xs
  overflows : n < a + xs.length → ∃ m', act m = .error .indexError m' ∧ SameBelow m m' a

/-- Laying down nothing. -/
lemma Grown.refl (dp : m.cell DP_ADDR = a) : Grown m m a [] :=
  ⟨by simpa using dp, trivial, fun _ _ _ => rfl⟩

/-- What a growth leaves below its cells. -/
lemma Grown.sameBelow (g : Grown m m' a xs) : SameBelow m m' a :=
  fun i ne lt => g.frame i ne (by omega)

/-- One growth after another. -/
lemma Grown.trans (g : Grown m m' a xs) (g' : Grown m' m'' (a + xs.length) ys)
    (base : DICTIONARY_BASE ≤ a) : Grown m m'' a (xs ++ ys) := by
  have lay := Layout.values
  constructor
  · rw [g'.dp, List.length_append]
    omega
  · refine CellsAt.append.mpr ⟨g.cells.congr fun i lo hi => ?_, g'.cells⟩
    exact g'.frame i (by omega) (by omega)
  · intro i ne out
    rw [List.length_append] at out
    rw [g'.frame i ne (by omega), g.frame i ne (by omega)]

/-- After a growth the memory is ready for the next. -/
lemma Grown.ready (g : Grown m m' a xs) (rd : Ready m a) (le : a + xs.length ≤ n) :
    Ready m' (a + xs.length) := by
  have base := rd.base_le
  exact ⟨g.dp, by omega, le⟩

/-- Appending after appending. -/
lemma Appends.bind {act : EStateM PyError (ListMemoryAdapter n) α} {ret : α}
    {f : α → EStateM PyError (ListMemoryAdapter n) β} {ret' : β} (rd : Ready m a)
    (h : Appends act m a xs ret)
    (h' : ∀ m', Grown m m' a xs → Ready m' (a + xs.length) →
      Appends (f ret) m' (a + xs.length) ys ret') :
    Appends (act >>= f) m a (xs ++ ys) ret' := by
  have base := rd.base_le
  by_cases fit : a + xs.length ≤ n
  · obtain ⟨m₁, e, g⟩ := h.fits fit
    have next := h' m₁ g (g.ready rd fit)
    constructor
    · intro le
      rw [List.length_append] at le
      obtain ⟨m₂, e', g'⟩ := next.fits (by omega)
      exact ⟨m₂, by rw [bind_ok e, e'], g.trans g' base⟩
    · intro lt
      rw [List.length_append] at lt
      obtain ⟨m₂, e', same⟩ := next.overflows (by omega)
      refine ⟨m₂, by rw [bind_ok e, e'], fun i ne lti => ?_⟩
      rw [same i ne (by omega), g.sameBelow i ne lti]
  · obtain ⟨m₁, e, same⟩ := h.overflows (by omega)
    constructor
    · intro le
      rw [List.length_append] at le
      omega
    · intro _
      exact ⟨m₁, bind_error e, same⟩

/-- An action that reads the memory and changes nothing, before appending. -/
lemma Appends.after {act : EStateM PyError (ListMemoryAdapter n) α} {ret : α}
    {f : α → EStateM PyError (ListMemoryAdapter n) β} {ret' : β} (e : act m = .ok ret m)
    (h : Appends (f ret) m a xs ret') : Appends (act >>= f) m a xs ret' := by
  constructor
  · intro le
    rw [bind_ok e]
    exact h.fits le
  · intro lt
    rw [bind_ok e]
    exact h.overflows lt

/-- Returning a value appends nothing. -/
lemma Appends.pure (rd : Ready m a) (ret : α) :
    Appends (Pure.pure ret : EStateM PyError (ListMemoryAdapter n) α) m a [] ret := by
  have := rd.le_size
  constructor
  · intro _
    exact ⟨m, rfl, Grown.refl rd.dp⟩
  · intro lt
    simp only [List.length_nil] at lt
    omega

lemma Ready.size_pos (rd : Ready m a) : DICTIONARY_BASE ≤ n :=
  Int.le_trans rd.base_le rd.le_size

/-- Reading `DP`. -/
lemma Ready.dp_run (rd : Ready m a) : MemorySystemVariablesAdapter.dp m = .ok a m := by
  have := rd.size_pos
  have lay := Layout.values
  rw [MemorySystemVariablesAdapter.dp, load_of_lt (by decide) (by omega), rd.dp]

/-- Reading `LATEST`. -/
lemma Ready.latest_run (rd : Ready m a) : latest m = .ok (m.cell LATEST_ADDR) m := by
  have := rd.size_pos
  have lay := Layout.values
  rw [latest, load_of_lt (by decide) (by omega)]

/-- Setting `DP`. -/
lemma Ready.set_dp_run (rd : Ready m a) (v : ℤ) : set_dp v m = .ok () (m.set DP_ADDR v) := by
  have := rd.size_pos
  have lay := Layout.values
  rw [set_dp, store_of_lt (by decide) (by omega)]

/-- Setting `LATEST`. -/
lemma Ready.set_latest_run (rd : Ready m a) (v : ℤ) :
    set_latest v m = .ok () (m.set LATEST_ADDR v) := by
  have := rd.size_pos
  have lay := Layout.values
  rw [set_latest, store_of_lt (by decide) (by omega)]

/-- A memory in which only cells from `a` on changed is as ready as before. -/
lemma Ready.congr (rd : Ready m a) (same : ∀ i, i < a → m'.cell i = m.cell i) : Ready m' a := by
  have base := rd.base_le
  have lay := Layout.values
  exact ⟨by rw [same _ (by omega), rd.dp], rd.base_le, rd.le_size⟩

/-- Setting `DP` past cells that are in place completes a growth. -/
lemma Grown.of_cells (rd : Ready m a) (cells : CellsAt m'.cell a xs)
    (frame : ∀ i, ¬(a ≤ i ∧ i < a + xs.length) → m'.cell i = m.cell i) :
    Grown m (m'.set DP_ADDR (a + xs.length)) a xs := by
  have base := rd.base_le
  have size := rd.size_pos
  have lay := Layout.values
  constructor
  · exact m'.cell_set_self _ (by decide) (by omega)
  · refine cells.congr fun i lo hi => m'.cell_set_of_ne _ (by omega)
  · intro i ne out
    rw [m'.cell_set_of_ne _ ne, frame i out]

/-- One raw cell. -/
lemma append_cell_appends (rd : Ready m a) (value : ℤ) :
    Appends (append_cell value) m a [value] a := by
  have base := rd.base_le
  have lay := Layout.values
  unfold append_cell
  constructor
  · intro le
    simp only [List.length_singleton] at le
    have same : ∀ i, i < a → (m.set a value).cell i = m.cell i :=
      fun i lt => m.cell_set_of_ne _ (by omega)
    refine ⟨(m.set a value).set DP_ADDR (a + 1), ?_, ?_⟩
    · rw [bind_ok rd.dp_run, bind_ok (store_of_lt (by omega) (by omega)),
        bind_ok ((rd.congr same).set_dp_run _)]
      rfl
    · have cells : CellsAt (m.set a value).cell a [value] :=
        CellsAt.cons.mpr ⟨m.cell_set_self _ (by omega) (by omega), trivial⟩
      refine Grown.of_cells rd cells fun i out => ?_
      exact m.cell_set_of_ne _ (by simp only [List.length_singleton] at out; omega)
  · intro lt
    simp only [List.length_singleton] at lt
    refine ⟨m, ?_, fun _ _ _ => rfl⟩
    rw [bind_ok rd.dp_run, bind_error (store_of_ge (by omega))]

/-- A thread. -/
lemma append_thread_appends (rd : Ready m a) (thread : List ℤ) :
    Appends (append_thread thread) m a thread () := by
  induction thread generalizing m a with
  | nil => exact Appends.pure rd ()
  | cons item thread ih =>
    exact (append_cell_appends rd item).bind rd fun m' _ rd' => ih rd'

/-- A name, as a counted string. -/
lemma append_name_appends (rd : Ready m a) (name : PyStr) :
    Appends (append_name name) m a (MemoryCountedStringAdapter.cells name) a := by
  have base := rd.base_le
  have le_size := rd.le_size
  have lay := Layout.values
  have len := MemoryCountedStringAdapter.length_cells name
  refine Appends.after (f := fun name_field => do
    set_dp (← MemoryCountedStringAdapter.write name_field name)
    return name_field) rd.dp_run ?_
  constructor
  · intro le
    rw [len] at le
    obtain ⟨m', run, cells, frame⟩ :=
      @MemoryCountedStringAdapter.write_ok n m a name (by omega) (by omega)
    have same : ∀ i, i < a → m'.cell i = m.cell i := fun i lt => frame i (by omega)
    refine ⟨m'.set DP_ADDR (a + 1 + name.length), ?_, ?_⟩
    · rw [bind_ok run, bind_ok ((rd.congr same).set_dp_run _)]
      rfl
    · have e : a + 1 + (name.length : ℤ) = a + (MemoryCountedStringAdapter.cells name).length := by
        rw [len]
        omega
      rw [e]
      refine Grown.of_cells rd cells fun i out => frame i ?_
      rw [len] at out
      omega
  · intro lt
    rw [len] at lt
    obtain ⟨m', raised, same⟩ :=
      @MemoryCountedStringAdapter.write_error n m a name (by omega) (by omega)
    exact ⟨m', bind_error raised, fun i _ lti => same i lti⟩

end MinCpuForth.Adapters.MemoryDictionaryAdapter
