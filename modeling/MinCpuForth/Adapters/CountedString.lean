import MinCpuForth.Adapters.Memory
import MinCpuForth.Lib.Action
import MinCpuForth.Lib.Cells

/-!
# Counted strings

`adapters/counted_string.py`: a length cell followed by one cell for each character.
-/

namespace MinCpuForth.Adapters.MemoryCountedStringAdapter
open Python Domain Lib ListMemoryAdapter

variable {n : ℕ} {m m' : ListMemoryAdapter n} {a : ℤ} {k : Fin n} {count : ℕ} {text : PyStr}

/-- Reads `count` characters from `address` on. -/
def readChars (address : ℤ) : ℕ → EStateM PyError (ListMemoryAdapter n) PyStr
  | 0 => return []
  | count + 1 => do
    let code ← load address
    match chr code with
    | none => throw .valueError
    | some c =>
      let cs ← readChars (address + 1) count
      return c :: cs

/-- Returns the counted string whose length cell is at `address`. A negative length counts as
    zero, since `range` is empty then. -/
def read (address : ℤ) : EStateM PyError (ListMemoryAdapter n) PyStr := do
  let length ← load address
  readChars (address + 1) length.toNat

/-- Writes characters from `address` on. -/
def writeChars (address : ℤ) : PyStr → EStateM PyError (ListMemoryAdapter n) Unit
  | [] => return ()
  | c :: cs => do
    store address (ord c)
    writeChars (address + 1) cs

/-- Writes `text` as a counted string at `address` and returns the address just past it. -/
def write (address : ℤ) (text : PyStr) : EStateM PyError (ListMemoryAdapter n) ℤ := do
  store address text.length
  writeChars (address + 1) text
  return address + 1 + text.length

/-- The cells of a counted string. -/
def cells (text : PyStr) : List ℤ := (text.length : ℤ) :: text.map ord

@[simp] lemma length_cells (text : PyStr) : (cells text).length = text.length + 1 := by
  simp [cells]

/-- The position is denoted by one of the indices from `a` on. -/
def Covers (n : ℕ) (a : ℤ) (count : ℕ) (k : Fin n) : Prop :=
  ∃ i : ℕ, i < count ∧ index? n (a + i) = some k

lemma Covers.head (e : index? n a = some k) : Covers n a (count + 1) k :=
  ⟨0, Nat.succ_pos count, by simpa using e⟩

lemma Covers.tail (h : Covers n (a + 1) count k) : Covers n a (count + 1) k := by
  obtain ⟨i, lt, e⟩ := h
  refine ⟨i + 1, Nat.succ_lt_succ lt, ?_⟩
  have shift : a + ((i + 1 : ℕ) : ℤ) = a + 1 + i := by omega
  rwa [shift]

/-- Inside the memory the indices denote their positions. -/
lemma covers_iff (h0 : 0 ≤ a) : Covers n a count k ↔ a ≤ k ∧ (k : ℤ) < a + count := by
  have lt := k.isLt
  constructor
  · rintro ⟨i, lti, e⟩
    rcases index?_eq_some.mp e with e | e <;> omega
  · rintro ⟨low, high⟩
    exact ⟨(k - a).toNat, by omega, index?_eq_some.mpr (.inl (by omega))⟩

/-- Inside the memory the indices of a run denote its cells. -/
lemma cellsAt_read {xs : List ℤ} (h0 : 0 ≤ a) (h1 : a + xs.length ≤ n) :
    CellsAt m.read a (xs.map Except.ok) ↔ CellsAt m.cell a xs := by
  induction xs generalizing a with
  | nil => exact Iff.rfl
  | cons x xs ih =>
    simp only [List.length_cons] at h1
    rw [List.map_cons, CellsAt.cons, CellsAt.cons, ih (by omega) (by omega),
      m.read_of_lt h0 (by omega), Except.ok.injEq]

/-- Reading characters back. -/
lemma readChars_ok (h : CellsAt m.read a ((text.map ord).map Except.ok)) :
    readChars a text.length m = .ok text m := by
  induction text generalizing a with
  | nil => rfl
  | cons c cs ih =>
    obtain ⟨code, codes⟩ := h
    simp only [List.length_cons, readChars, bind_ok (load_ok code), chr_ord]
    rw [bind_ok (ih codes)]
    rfl

/-- Reading a counted string back. -/
lemma read_ok (h : CellsAt m.read a ((cells text).map Except.ok)) : read a m = .ok text m := by
  obtain ⟨length, codes⟩ := h
  rw [read, bind_ok (load_ok length), Int.toNat_natCast]
  exact readChars_ok codes

/-- Writing characters that are there already. -/
lemma writeChars_same (h : CellsAt m.read a ((text.map ord).map Except.ok)) :
    writeChars a text m = .ok () m := by
  induction text generalizing a with
  | nil => rfl
  | cons c cs ih =>
    obtain ⟨code, codes⟩ := h
    rw [writeChars, bind_ok (store_same code)]
    exact ih codes

/-- Writing a counted string that is there already. -/
lemma write_same (h : CellsAt m.read a ((cells text).map Except.ok)) :
    write a text m = .ok (a + 1 + text.length) m := by
  obtain ⟨length, codes⟩ := h
  rw [write, bind_ok (store_same length), bind_ok (writeChars_same codes)]
  rfl

/-- Valid character codes are those of some text. -/
lemma exists_text (codes : ∀ i : ℕ, i < count → ∃ v, m.read (a + i) = .ok v ∧ (chr v).isSome) :
    ∃ text : PyStr, text.length = count ∧ CellsAt m.read a ((text.map ord).map Except.ok) := by
  induction count generalizing a with
  | zero => exact ⟨[], rfl, trivial⟩
  | succ count ih =>
    obtain ⟨v, code, valid⟩ := codes 0 (Nat.succ_pos count)
    obtain ⟨c, rfl⟩ := chr_isSome valid
    have rest : ∀ i : ℕ, i < count → ∃ v, m.read (a + 1 + i) = .ok v ∧ (chr v).isSome := by
      intro i lt
      have shift : a + ((i + 1 : ℕ) : ℤ) = a + 1 + i := by omega
      rw [← shift]
      exact codes (i + 1) (Nat.succ_lt_succ lt)
    obtain ⟨cs, length, cells⟩ := ih rest
    exact ⟨c :: cs, congrArg (· + 1) length, by simpa using code, cells⟩

/-- A cell that is stored, and then a shorter run than would come around to it. -/
lemma stored_first {v : ℤ} (e : index? n a = some k) (short : count < n)
    (frame : ∀ i, ¬Covers n (a + 1) count i → m'.cell i = (m.set k v).cell i) :
    m'.read a = .ok v ∧ ∀ i, ¬Covers n a (count + 1) i → m'.cell i = m.cell i := by
  have lt := k.isLt
  constructor
  · have once : ¬Covers n (a + 1) count k := by
      rintro ⟨i, lti, e'⟩
      rcases index?_eq_some.mp e with e | e <;> rcases index?_eq_some.mp e' with e' | e' <;> omega
    rw [m'.read_of_index e, frame k once, m.cell_set_self _ (by omega) (by omega)]
  · intro i out
    rw [frame i fun h => out h.tail, m.cell_set_of_ne]
    intro same
    have here : k = i := Fin.ext (Int.natCast_inj.mp same.symm)
    exact out (.head (here ▸ e))

/-- Writing characters that fit. -/
lemma writeChars_ok (text : PyStr) (low : -n ≤ a) (high : a + text.length ≤ n)
    (short : text.length ≤ n) : ∃ m', writeChars a text m = .ok () m' ∧
      CellsAt m'.read a ((text.map ord).map Except.ok) ∧
      ∀ k, ¬Covers n a text.length k → m'.cell k = m.cell k := by
  induction text generalizing m a with
  | nil => exact ⟨m, rfl, trivial, fun _ _ => rfl⟩
  | cons c cs ih =>
    simp only [List.length_cons] at high short
    obtain ⟨k, e⟩ := exists_index low (by omega)
    obtain ⟨m', run, codes, frame⟩ := @ih (m.set k (ord c)) (a + 1) (by omega) (by omega) (by omega)
    obtain ⟨code, frame'⟩ := stored_first e short frame
    refine ⟨m', ?_, ⟨code, codes⟩, frame'⟩
    rw [writeChars, bind_ok (store_of_index e), run]

/-- Writing a counted string that fits. -/
lemma write_at (text : PyStr) (low : -n ≤ a) (high : a + text.length < n)
    (short : text.length < n) : ∃ m', write a text m = .ok (a + 1 + text.length) m' ∧
      CellsAt m'.read a ((cells text).map Except.ok) ∧
      ∀ k, ¬Covers n a (text.length + 1) k → m'.cell k = m.cell k := by
  obtain ⟨k, e⟩ := exists_index low (by omega)
  obtain ⟨m', run, codes, frame⟩ :=
    @writeChars_ok n (m.set k text.length) (a + 1) text (by omega) (by omega) (by omega)
  obtain ⟨length, frame'⟩ := stored_first e short frame
  refine ⟨m', ?_, ⟨length, codes⟩, frame'⟩
  rw [write, bind_ok (store_of_index e), bind_ok run]
  rfl

/-- Writing a counted string that fits in front. -/
lemma write_ok (text : PyStr) (h0 : 0 ≤ a) (fits : a + text.length < n) :
    ∃ m', write a text m = .ok (a + 1 + text.length) m' ∧ CellsAt m'.cell a (cells text) ∧
      ∀ i, ¬(a ≤ i ∧ i < a + (text.length + 1)) → m'.cell i = m.cell i := by
  obtain ⟨m', run, codes, frame⟩ := @write_at n m a text (by omega) fits (by omega)
  have len := length_cells text
  refine ⟨m', run, (cellsAt_read h0 (by omega)).mp codes, fun i out => ?_⟩
  by_cases inside : 0 ≤ i ∧ i < n
  · have e : ((⟨i.toNat, toNat_lt inside⟩ : Fin n) : ℤ) = i := Int.toNat_of_nonneg inside.1
    have same := frame ⟨i.toNat, toNat_lt inside⟩ fun h => out ?_
    · rwa [e] at same
    · have bounds := (covers_iff h0).mp h
      omega
  · rw [cell_of_not inside, cell_of_not inside]

/-- Reading a counted string that lies in front. -/
lemma read_of_cellsAt (h : CellsAt m.cell a (cells text)) (h0 : 0 ≤ a) (h1 : a + text.length < n) :
    read a m = .ok text m := by
  have len := length_cells text
  exact read_ok ((cellsAt_read h0 (by omega)).mpr h)

/-- Writing characters that do not fit. -/
lemma writeChars_error (text : PyStr) (h0 : 0 ≤ a) (lt : n < a + text.length) (le : a ≤ n) :
    ∃ m', writeChars a text m = .error .indexError m' ∧
      ∀ i, i < a → m'.cell i = m.cell i := by
  induction text generalizing m a with
  | nil =>
    simp only [List.length_nil] at lt
    omega
  | cons c cs ih =>
    simp only [List.length_cons] at lt
    by_cases fit : a < n
    · obtain ⟨m', e, same⟩ := @ih (m.set a (ord c)) (a + 1) (by omega) (by omega) (by omega)
      refine ⟨m', ?_, fun i lti => ?_⟩
      · rw [writeChars, bind_ok (store_of_lt h0 fit), e]
      · rw [same i (by omega), m.cell_set_of_ne _ (by omega)]
    · refine ⟨m, ?_, fun _ _ => rfl⟩
      rw [writeChars, bind_error (store_of_ge (by omega))]

/-- Writing a counted string that does not fit. -/
lemma write_error (text : PyStr) (h0 : 0 ≤ a) (lt : n ≤ a + text.length) :
    ∃ m', write a text m = .error .indexError m' ∧ ∀ i, i < a → m'.cell i = m.cell i := by
  by_cases fit : a < n
  · obtain ⟨m', raised, same⟩ :=
      @writeChars_error n (m.set a text.length) (a + 1) text (by omega) (by omega) (by omega)
    refine ⟨m', ?_, fun i lti => ?_⟩
    · rw [write, bind_ok (store_of_lt h0 fit), bind_error raised]
    · rw [same i (by omega), m.cell_set_of_ne _ (by omega)]
  · refine ⟨m, ?_, fun _ _ => rfl⟩
    rw [write, bind_error (store_of_ge (by omega))]

/-- What reading a counted string looks at: the length, and as many characters as it says. -/
inductive Looks (m : ListMemoryAdapter n) (a : ℤ) (k : Fin n) : Prop where
  | length (here : index? n a = some k)
  | char (length : ℤ) (counted : m.read a = .ok length) (h : Covers n (a + 1) length.toNat k)

/-- A load depends on one cell. -/
lemma load_reply (h : ∀ k, index? n a = some k → m'.cell k = m.cell k) :
    SameReply (load a) m m' := by
  cases e : index? n a with
  | none => exact .error .indexError (load_none e) (load_none e)
  | some k =>
    have same : m'.read a = .ok (m.cell k) := by rw [m'.read_of_index e, h k e]
    exact .ok (m.cell k) (load_ok (m.read_of_index e)) (load_ok same)

lemma readChars_reply (same : ∀ k, Covers n a count k → m'.cell k = m.cell k) :
    SameReply (readChars a count) m m' := by
  induction count generalizing a with
  | zero => exact .pure []
  | succ count ih =>
    refine .bind (load_reply fun k e => same k (.head e)) fun code _ => ?_
    cases chr code with
    | none => exact .throw _
    | some c => exact .bind (ih fun k h => same k h.tail) fun cs _ => .pure (c :: cs)

/-- A read depends on the cells that it looks at. -/
lemma read_reply (same : ∀ k, Looks m a k → m'.cell k = m.cell k) : SameReply (read a) m m' := by
  refine .bind (load_reply fun k e => same k (.length e)) fun length run => ?_
  refine readChars_reply fun k h => same k (.char length ?_ h)
  unfold load at run
  split at run
  · rename_i e
    cases run
    exact e
  · cases run

/-- What is written is read back, and nothing else changes; what is read can be written back. The
    indices may be negative. -/
theorem counted_string_codec (m : ListMemoryAdapter n) (a : ℤ) :
    (∀ text : PyStr, -n ≤ a → a + text.length < n → text.length < n →
      ∃ m', write a text m = .ok (a + 1 + text.length) m' ∧ read a m' = .ok text m' ∧
        (∀ k : Fin n, ¬Covers n a (text.length + 1) k → m'.cell k = m.cell k) ∧
        ∀ b, (∀ k, Looks m b k → ¬Covers n a (text.length + 1) k) → SameReply (read b) m m') ∧
    ∀ length : ℕ, m.read a = .ok length →
      (∀ i : ℕ, i < length → ∃ code, m.read (a + 1 + i) = .ok code ∧ (chr code).isSome) →
      ∃ text, text.length = length ∧ read a m = .ok text m ∧
        write a text m = .ok (a + 1 + length) m := by
  constructor
  · intro text low high short
    obtain ⟨m', run, held, frame⟩ := @write_at n m a text low high short
    refine ⟨m', run, read_ok held, frame, fun b apart => ?_⟩
    exact read_reply fun k looks => frame k (apart k looks)
  · intro length counted codes
    obtain ⟨text, rfl, held⟩ := exists_text codes
    have whole : CellsAt m.read a ((cells text).map Except.ok) := ⟨counted, held⟩
    exact ⟨text, rfl, read_ok whole, write_same whole⟩

/-- Two characters, written at an index from the end. -/
theorem counted_string_codec_pair :
    (∃ m' : ListMemoryAdapter 4, write (-3) [65, 66] (zeroed 4) = .ok 0 m' ∧
      read (-3) m' = .ok [65, 66] m' ∧ SameReply (read 0) (zeroed 4) m') ∧
    ∃ (m : ListMemoryAdapter 4) (text : PyStr), m.read 1 = .ok 2 ∧ read 1 m = .ok text m ∧
      write 1 text m = .ok 4 m := by
  constructor
  · obtain ⟨m', run, back, -, reads⟩ := (counted_string_codec (zeroed 4) (-3)).1 [65, 66]
      (by decide) (by decide) (by decide)
    refine ⟨m', run, back, reads 0 fun k looks covers => ?_⟩
    have here : (k : ℤ) = 0 := by
      cases looks with
      | length here => rcases index?_eq_some.mp here with e | e <;> omega
      | char length counted h =>
        obtain rfl : 0 = length := Except.ok.inj counted
        obtain ⟨i, lt, -⟩ := h
        exact absurd lt (Nat.not_lt_zero i)
    obtain ⟨i, lt, e⟩ := covers
    simp only [List.length_cons, List.length_nil] at lt
    rcases index?_eq_some.mp e with e | e <;> omega
  · have codes : ∀ i : ℕ, i < 2 → ∃ code, ListMemoryAdapter.read ⟨#v[0, 2, 65, 66]⟩ (1 + 1 + i) =
        .ok code ∧ (chr code).isSome := by
      intro i lt
      obtain rfl | rfl : i = 0 ∨ i = 1 := by omega
      · exact ⟨65, rfl, rfl⟩
      · exact ⟨66, rfl, rfl⟩
    obtain ⟨text, -, reads, writes⟩ := (counted_string_codec ⟨#v[0, 2, 65, 66]⟩ 1).2 2 rfl codes
    exact ⟨⟨#v[0, 2, 65, 66]⟩, text, rfl, reads, writes⟩

end MinCpuForth.Adapters.MemoryCountedStringAdapter
