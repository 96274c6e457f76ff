import MinCpuForth.Adapters.DictionaryEntries
import Mathlib.Algebra.BigOperators.Group.List.Basic
import Mathlib.Algebra.GroupWithZero.Nat

/-!
# Histories of appends

Any sequence of `append_word` and `append_cell` calls on a fresh dictionary. What `headers` and
`find` answer afterwards is determined by the calls and the addresses that they returned.
-/

namespace MinCpuForth.Adapters
open Python Domain Layout Lib ListMemoryAdapter

variable {n : ℕ} {m m' : ListMemoryAdapter n}

namespace MemoryDictionaryAdapter

/-- A call that appends to the dictionary. -/
inductive Append where
  | cell (value : ℤ)
  | word (name : PyStr) (code_field : ℤ) (thread : List ℤ) (immediate : Bool)
  deriving DecidableEq

/-- Performs the call; both methods return an address. -/
def Append.perform : Append → EStateM PyError (ListMemoryAdapter n) ℤ
  | .cell value => append_cell value
  | .word name code_field thread immediate => append_word name code_field thread immediate

/-- Performs the calls in order, and collects what they return. -/
def performAll : List Append → EStateM PyError (ListMemoryAdapter n) (List ℤ)
  | [] => return []
  | op :: ops => do
    let address ← op.perform
    let addresses ← performAll ops
    return address :: addresses

/-- The calls on a freshly constructed dictionary. -/
def performFresh (ops : List Append) : EStateM PyError (ListMemoryAdapter n) (List ℤ) := do
  init
  performAll ops

/-- How many cells a call lays down. -/
def Append.size : Append → ℕ
  | .cell _ => 1
  | .word name _ thread _ => name.length + thread.length + 5

/-- How many cells a sequence of calls lays down. -/
def totalSize (ops : List Append) : ℕ := (ops.map Append.size).sum

@[simp] lemma totalSize_nil : totalSize [] = 0 := rfl

@[simp] lemma totalSize_cons (op : Append) (ops : List Append) :
    totalSize (op :: ops) = op.size + totalSize ops := by
  simp [totalSize]

@[simp] lemma totalSize_append (ops ops' : List Append) :
    totalSize (ops ++ ops') = totalSize ops + totalSize ops' := by
  simp [totalSize]

/-- The calls made so far with the addresses that they returned, newest first. -/
abbrev History := List (Append × ℤ)

/-- The name field of the newest word, zero if there is none. -/
def History.latest : History → ℤ
  | [] => 0
  | (.cell _, _) :: h => latest h
  | (.word name _ _ _, cfa) :: _ => cfa - 1 - name.length

/-- The headers of the words, newest first. -/
def History.headers : History → List DictionaryHeaderDto
  | [] => []
  | (.cell _, _) :: h => headers h
  | (.word name _ _ immediate, cfa) :: h =>
    { name := name, link := History.latest h, immediate := immediate, smudge := false,
      cfa := cfa } :: headers h

end MemoryDictionaryAdapter

open MemoryDictionaryAdapter

namespace Dictionary

/-- What a call makes of the dictionary. -/
def append (d : Dictionary) : Append → Dictionary
  | .cell _ => d.skip 1
  | .word name code_field thread immediate => d.install name code_field thread immediate

/-- What a call returns. -/
def returned (d : Dictionary) : Append → ℤ
  | .cell _ => d.dp
  | .word name code_field thread immediate => (d.next name code_field thread immediate).cfa

@[simp] lemma append_dp (d : Dictionary) (op : Append) : (d.append op).dp = d.dp + op.size := by
  cases op with
  | cell value => rfl
  | word name code_field thread immediate =>
    simp [append, install, next, Entry.stop, Append.size]

end Dictionary

namespace MemoryDictionaryAdapter

/-- A call whose cells fit. -/
lemma perform_ok {d : Dictionary} (rep : Represents m d) (op : Append) (le : d.dp + op.size ≤ n) :
    ∃ m', op.perform m = .ok (d.returned op) m' ∧ Represents m' (d.append op) ∧
      ∀ i, DICTIONARY_BASE ≤ i → ¬(d.dp ≤ i ∧ i < d.dp + op.size) → m'.cell i = m.cell i := by
  have lay := Layout.values
  cases op with
  | cell value =>
    obtain ⟨m', e, g⟩ := (append_cell_appends rep.ready value).fits le
    exact ⟨m', e, rep.skip g le, fun i lo out => g.frame i (by omega) out⟩
  | word name code_field thread immediate =>
    have stop := d.append_dp (.word name code_field thread immediate)
    simp only [Dictionary.append, Dictionary.install] at stop
    rw [← stop] at le ⊢
    exact append_word_ok rep le

/-- A call whose cells do not fit. -/
lemma perform_overflow {d : Dictionary} {op : Append} (rep : Represents m d)
    (lt : n < d.dp + op.size) :
    ∃ m', op.perform m = .error .indexError m' ∧ SameBelow m m' d.dp := by
  cases op with
  | cell value => exact (append_cell_appends rep.ready value).overflows lt
  | word name code_field thread immediate =>
    have stop := d.append_dp (.word name code_field thread immediate)
    simp only [Dictionary.append, Dictionary.install] at stop
    rw [← stop] at lt
    exact append_word_overflow rep lt

/-- The abstract dictionary holds the words of the history. -/
structure Records (d : Dictionary) (h : History) : Prop where
  latest : latestOf d.entries = h.latest
  headers : d.entries.map Entry.header = h.headers
  length_le : d.entries.length ≤ h.length
  words : ∀ name code_field thread immediate cfa,
    (Append.word name code_field thread immediate, cfa) ∈ h →
      ∃ e ∈ d.entries, e.cfa = cfa ∧ e.code_field = code_field ∧ e.thread = thread

/-- The empty dictionary holds the words of the empty history. -/
lemma Records.empty : Records Dictionary.empty [] :=
  ⟨rfl, rfl, Nat.le_refl _, fun _ _ _ _ _ mem => by cases mem⟩

/-- A call extends the history. -/
lemma Records.append {d : Dictionary} {h : History} (rec : Records d h) (op : Append) :
    Records (d.append op) ((op, d.returned op) :: h) := by
  cases op with
  | cell value =>
    refine ⟨rec.latest, rec.headers, Nat.le_succ_of_le rec.length_le, ?_⟩
    intro name code_field thread immediate cfa mem
    cases mem with
    | tail _ mem => exact rec.words _ _ _ _ _ mem
  | word name code_field thread immediate =>
    constructor
    · simp only [Dictionary.append, Dictionary.install, latestOf, History.latest,
        Dictionary.returned, Entry.cfa]
      simp only [Dictionary.next]
      omega
    · simp only [Dictionary.append, Dictionary.install, List.map_cons, History.headers,
        rec.headers]
      congr 1
      simp only [Entry.header, Dictionary.next, Dictionary.returned, rec.latest]
      rfl
    · exact Nat.succ_le_succ rec.length_le
    · intro name' code_field' thread' immediate' cfa mem
      cases mem with
      | head => exact ⟨_, List.mem_cons_self .., rfl, rfl, rfl⟩
      | tail _ mem =>
        obtain ⟨e, he, rest⟩ := rec.words _ _ _ _ _ mem
        exact ⟨e, List.mem_cons_of_mem _ he, rest⟩

/-- Any sequence of calls whose cells fit. -/
lemma performAll_ok {d : Dictionary} {h : History} (rep : Represents m d) (rec : Records d h)
    (ops : List Append) (le : d.dp + totalSize ops ≤ n) :
    ∃ addresses m' d', performAll ops m = .ok addresses m' ∧ addresses.length = ops.length ∧
      Represents m' d' ∧ Records d' ((ops.zip addresses).reverse ++ h) ∧
      d'.dp = d.dp + totalSize ops ∧
      ∀ i, DICTIONARY_BASE ≤ i → ¬(d.dp ≤ i ∧ i < d.dp + totalSize ops) →
        m'.cell i = m.cell i := by
  induction ops generalizing m d h with
  | nil => exact ⟨[], m, d, rfl, rfl, rep, by simpa using rec, by simp, fun _ _ _ => rfl⟩
  | cons op ops ih =>
    rw [totalSize_cons] at le
    obtain ⟨m₁, e₁, rep₁, frame₁⟩ := perform_ok rep op (by omega)
    obtain ⟨addresses, m₂, d₂, e₂, len, rep₂, rec₂, dp₂, frame₂⟩ :=
      ih rep₁ (rec.append op) (by rw [d.append_dp]; omega)
    rw [d.append_dp] at dp₂ frame₂
    refine ⟨d.returned op :: addresses, m₂, d₂, ?_, by simp [len], rep₂, ?_, ?_, ?_⟩
    · rw [performAll, bind_ok e₁, bind_ok e₂]
      rfl
    · simpa [List.zip_cons_cons] using rec₂
    · rw [dp₂, totalSize_cons]
      omega
    · intro i lo out
      rw [totalSize_cons] at out
      rw [frame₂ i lo (by omega), frame₁ i lo (by omega)]

/-- Any sequence of calls whose cells do not fit. -/
lemma performAll_overflow {d : Dictionary} {ops : List Append} (rep : Represents m d)
    (lt : n < d.dp + totalSize ops) : ∃ m', performAll ops m = .error .indexError m' := by
  induction ops generalizing m d with
  | nil =>
    have le := rep.ready.le_size
    rw [totalSize_nil] at lt
    omega
  | cons op ops ih =>
    rw [totalSize_cons] at lt
    by_cases fit : d.dp + op.size ≤ n
    · obtain ⟨m₁, e₁, rep₁, -⟩ := perform_ok rep op fit
      obtain ⟨m₂, e₂⟩ := ih rep₁ (by rw [d.append_dp]; omega)
      exact ⟨m₂, by rw [performAll, bind_ok e₁, bind_error e₂]⟩
    · obtain ⟨m₁, e₁, -⟩ := perform_overflow rep (by omega : (n : ℤ) < d.dp + op.size)
      exact ⟨m₁, by rw [performAll, bind_error e₁]⟩

/-- Any sequence of calls on a fresh dictionary whose cells fit. -/
lemma performFresh_ok (m : ListMemoryAdapter n) (ops : List Append)
    (le : DICTIONARY_BASE + totalSize ops ≤ n) :
    ∃ addresses m' d, performFresh ops m = .ok addresses m' ∧ addresses.length = ops.length ∧
      Represents m' d ∧ Records d (ops.zip addresses).reverse ∧
      d.dp = DICTIONARY_BASE + totalSize ops ∧
      ∀ i, DICTIONARY_BASE + totalSize ops ≤ i → m'.cell i = m.cell i := by
  obtain ⟨m₁, e₁, rep₁, frame₁⟩ := init_represents m (by omega)
  obtain ⟨addresses, m₂, d, e₂, len, rep₂, rec₂, dp₂, frame₂⟩ :=
    performAll_ok rep₁ Records.empty ops le
  refine ⟨addresses, m₂, d, ?_, len, rep₂, by simpa using rec₂, dp₂, fun i lo => ?_⟩
  · rw [performFresh, bind_ok e₁, e₂]
  · have base : Dictionary.empty.dp = DICTIONARY_BASE := rfl
    rw [frame₂ i (by omega) (by omega), frame₁ i (by omega)]

/-- After any calls on a fresh dictionary whose cells fit in the memory: `headers` yields exactly
    the words appended, newest first, with their links and code field addresses; `find` returns the
    newest of a name; each code field is followed by its thread; the links strictly decrease; and no
    call changed a cell between the base of the dictionary and the `DP` that it found. -/
theorem dictionary_represents_appends (m : ListMemoryAdapter n) (ops : List Append)
    (fits : DICTIONARY_BASE + totalSize ops ≤ n) :
    ∃ addresses m', performFresh ops m = .ok addresses m' ∧ addresses.length = ops.length ∧
      let history : History := (ops.zip addresses).reverse
      (∀ fuel, ops.length < fuel → headers fuel m' = .ok (some history.headers) m') ∧
      (∀ name fuel, ops.length < fuel →
        find fuel name m' = .ok (some (history.headers.find? (·.name = name))) m') ∧
      (∀ name code_field thread immediate cfa,
        (Append.word name code_field thread immediate, cfa) ∈ ops.zip addresses →
          CellsAt m'.cell cfa (code_field :: thread)) ∧
      m'.cell LATEST_ADDR = history.latest ∧
      (history.latest :: history.headers.map DictionaryHeaderDto.link).Pairwise (· > ·) ∧
      ∀ before op after, ops = before ++ op :: after →
        ∃ earlier m₁ address m₂, performFresh before m = .ok earlier m₁ ∧
          op.perform m₁ = .ok address m₂ ∧
          ∀ i, DICTIONARY_BASE ≤ i → i < m₁.cell DP_ADDR → m₂.cell i = m₁.cell i := by
  obtain ⟨addresses, m', d, e, len, rep, rec, -, -⟩ := performFresh_ok m ops fits
  have count : d.entries.length ≤ ops.length := by
    have h := rec.length_le
    simp only [List.length_reverse, List.length_zip, len, Nat.min_self] at h
    exact h
  refine ⟨addresses, m', e, len, ?_, ?_, ?_, ?_, ?_, ?_⟩
  · intro fuel lt
    rw [headers_run rep (by omega), rec.headers]
  · intro name fuel lt
    rw [find_run rep name (by omega), rec.headers]
  · intro name code_field thread immediate cfa mem
    obtain ⟨w, hw, rfl, rfl, rfl⟩ := rec.words _ _ _ _ _ (List.mem_reverse.mpr mem)
    exact (Entry.cellsAt_iff.mp (rep.stored w hw)).2.2.2.2
  · rw [rep.latest, rec.latest]
  · have dec := d.linked.decreasing.1
    rw [← rec.headers, ← rec.latest, List.map_map]
    exact dec
  · rintro before op after rfl
    simp only [totalSize_append, totalSize_cons] at fits
    obtain ⟨earlier, m₁, d₁, e₁, -, rep₁, -, dp₁, -⟩ := performFresh_ok m before (by omega)
    obtain ⟨m₂, e₂, -, frame⟩ := perform_ok rep₁ op (by omega)
    refine ⟨earlier, m₁, _, m₂, e₁, e₂, fun i lo lt => frame i lo ?_⟩
    rw [rep₁.ready.dp] at lt
    omega

/-- Two words of one name, with a raw cell between them: the second shadows the first. -/
theorem dictionary_represents_appends_shadow : ∃ (addresses : List ℤ) (m' : ListMemoryAdapter 40),
    performFresh [.word "A" 7 [1, 2] false, .cell 5, .word "A" 9 [] true] (.zeroed 40) =
      .ok addresses m' ∧ addresses = [13, 16, 22] ∧
    headers 4 m' = .ok (some [⟨"A", 11, true, false, 22⟩, ⟨"A", 0, false, false, 13⟩]) m' ∧
    find 4 "A" m' = .ok (some (some ⟨"A", 11, true, false, 22⟩)) m' ∧
    CellsAt m'.cell 13 [7, 1, 2] ∧ CellsAt m'.cell 22 [9] ∧ m'.cell LATEST_ADDR = 20 ∧
    ([20, 11, 0] : List ℤ).Pairwise (· > ·) ∧
    ∃ earlier m₁ address m₂,
      performFresh [.word "A" 7 [1, 2] false, .cell 5] (.zeroed 40) = .ok earlier m₁ ∧
      Append.perform (.word "A" 9 [] true) m₁ = .ok address m₂ ∧
      ∀ i, DICTIONARY_BASE ≤ i → i < m₁.cell DP_ADDR → m₂.cell i = m₁.cell i := by
  obtain ⟨addresses, m', run, -, listed, found, cells, latest, links, kept⟩ :=
    dictionary_represents_appends (.zeroed 40)
      [.word "A" 7 [1, 2] false, .cell 5, .word "A" 9 [] true] (by decide)
  have computed : EStateM.run' (performFresh
      [.word "A" 7 [1, 2] false, .cell 5, .word "A" 9 [] true]) (.zeroed 40) =
        some [13, 16, 22] := by decide +kernel
  have returned : addresses = [13, 16, 22] := by
    delta EStateM.run' EStateM.run at computed
    rw [run] at computed
    exact Option.some.inj computed
  subst returned
  exact ⟨_, m', run, rfl, listed 4 (by decide), found "A" 4 (by decide),
    cells _ _ _ _ _ (.head _), cells _ _ _ _ _ (.tail _ (.tail _ (.head _))), latest, links,
    kept [.word "A" 7 [1, 2] false, .cell 5] _ [] rfl⟩

end MemoryDictionaryAdapter

end MinCpuForth.Adapters
