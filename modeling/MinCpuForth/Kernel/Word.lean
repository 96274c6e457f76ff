import MinCpuForth.Kernel.Calls
import Mathlib.Data.List.TakeWhile

/-!
# `WORD`

The routine skips the delimiters before a token, stores the token's characters above the cell of
their count as they come in, and writes the count once it reads the delimiter after them.
-/

namespace MinCpuForth.Kernel
open Python Domain Adapters Emulator Lib Layout Routines EmulatorService

section Blocks

/-! The straight-line parts of the routine. -/

variable {v : Bare} {b c : ℤ} {cs : List ℤ}

attribute [local simp] Ensures WORD_code kept_iff Int.add_assoc

/-- `WORD`. -/
lemma word_enter (one : v.sp < DATA_STACK_BASE) :
    Ensures (((WORD_code v.pc).drop 0).take 1) v fun u => Kept v u ∧ u.cell = v.cell ∧
      u.sp = v.sp + 1 ∧ u.input = v.input ∧ u.pc = v.pc + (1 : ℕ) ∧
      u.regs "DELIM" = v.cell v.sp := by
  simp [one]

/-- `WORD_SKIP`. -/
lemma word_skip (running : v.halted = false) (pc : v.pc = b + (1 : ℕ)) (input : v.input = c :: cs) :
    Ensures (((WORD_code b).drop 1).take 5) v fun u => Kept v u ∧ u.cell = v.cell ∧
      u.sp = v.sp ∧ u.input = cs ∧ u.pc = b + (if c = v.regs "DELIM" then 1 else 6 : ℕ) ∧
      u.regs "DELIM" = v.regs "DELIM" ∧ u.regs "C" = c := by
  by_cases delim : c - v.regs "DELIM" = 0
  · have e : c = v.regs "DELIM" := Int.sub_eq_zero.mp delim
    simp [running, pc, input, e]
  · have ne : c ≠ v.regs "DELIM" := fun e => delim (Int.sub_eq_zero.mpr e)
    simp [running, pc, input, delim, ne]

/-- The first character of a token. -/
lemma word_start (running : v.halted = false) (pc : v.pc = b + (6 : ℕ)) :
    Ensures (((WORD_code b).drop 6).take 4) v fun u => Kept v u ∧ u.cell = v.cell ∧
      u.sp = v.sp ∧ u.input = v.input ∧ u.pc = b + (10 : ℕ) ∧
      u.regs "DELIM" = v.regs "DELIM" ∧ u.regs "C" = v.regs "C" ∧
      u.regs "PTR" = WORD_BUFFER_BASE + 1 ∧ u.regs "LEN" = 0 := by
  have buffer : (1985 : ℤ) = WORD_BUFFER_BASE + 1 := rfl
  simp [running, pc, buffer]

/-- `WORD_COLLECT`. -/
lemma word_collect (running : v.halted = false) (pc : v.pc = b + (10 : ℕ))
    (inside : Inside (v.regs "PTR")) (input : v.input = c :: cs) :
    Ensures (((WORD_code b).drop 10).take 8) v fun u => Kept v u ∧
      u.cell = Function.update v.cell (v.regs "PTR") (v.regs "C") ∧ u.sp = v.sp ∧ u.input = cs ∧
      u.pc = b + (if c = v.regs "DELIM" then 21 else 18 : ℕ) ∧
      u.regs "DELIM" = v.regs "DELIM" ∧ u.regs "C" = c ∧ u.regs "PTR" = v.regs "PTR" + 1 ∧
      u.regs "LEN" = v.regs "LEN" + 1 := by
  by_cases delim : c - v.regs "DELIM" = 0
  · have e : c = v.regs "DELIM" := Int.sub_eq_zero.mp delim
    simp [running, pc, if_pos inside, input, e]
  · have ne : c ≠ v.regs "DELIM" := fun e => delim (Int.sub_eq_zero.mpr e)
    simp [running, pc, if_pos inside, input, delim, ne]

/-- Back to `WORD_COLLECT`. -/
lemma word_again (running : v.halted = false) (pc : v.pc = b + (18 : ℕ)) :
    Ensures (((WORD_code b).drop 18).take 3) v fun u => Kept v u ∧ u.cell = v.cell ∧
      u.sp = v.sp ∧ u.input = v.input ∧ u.pc = b + (10 : ℕ) ∧
      u.regs "DELIM" = v.regs "DELIM" ∧ u.regs "C" = v.regs "C" ∧ u.regs "PTR" = v.regs "PTR" ∧
      u.regs "LEN" = v.regs "LEN" := by
  simp [running, pc]

/-- `WORD_END`. -/
lemma word_end (running : v.halted = false) (room : DICTIONARY_TOP < v.sp) :
    Ensures (((WORD_code b).drop 21).take 5) v fun u => Kept v u ∧
      u.cell = Function.update (Function.update v.cell WORD_BUFFER_BASE (v.regs "LEN"))
        (v.sp - 1) WORD_BUFFER_BASE ∧
      u.sp = v.sp - 1 ∧ u.input = v.input ∧ u.pc = v.regs "NEXTREG" := by
  have buffer : (1984 : ℤ) = WORD_BUFFER_BASE := rfl
  have inside : Inside WORD_BUFFER_BASE := by decide
  simp [running, buffer, if_pos inside, room]

/-- The input ends before a token. -/
lemma word_skip_fails (input : v.input = []) :
    Bare.block (((WORD_code b).drop 1).take 5) v = .fail .inputExhausted := by
  simp [input]

/-- The input ends within a token. -/
lemma word_collect_fails (running : v.halted = false) (inside : Inside (v.regs "PTR"))
    (input : v.input = []) :
    Bare.block (((WORD_code b).drop 10).take 8) v = .fail .inputExhausted := by
  simp [running, if_pos inside, input]

/-- The token reaches the end of the memory. -/
lemma word_overflow (outside : ¬Inside (v.regs "PTR")) (above : ¬Wraps (v.regs "PTR")) :
    Bare.block (((WORD_code b).drop 10).take 8) v = .fail .indexError := by
  simp [if_neg outside, if_neg above]

/-! The cells while these parts are executed. -/

lemma word_enter_visits (one : v.sp < DATA_STACK_BASE) :
    ∀ u ∈ Bare.visits (((WORD_code b).drop 0).take 1) v, u.cell = v.cell := by
  simp [one]

lemma word_skip_visits :
    ∀ u ∈ Bare.visits (((WORD_code b).drop 1).take 5) v, u.cell = v.cell := by
  rcases e : v.input with _ | ⟨c, cs⟩ <;> simp [e]

lemma word_start_visits :
    ∀ u ∈ Bare.visits (((WORD_code b).drop 6).take 4) v, u.cell = v.cell := by
  simp

lemma word_collect_visits (inside : Inside (v.regs "PTR")) :
    ∀ u ∈ Bare.visits (((WORD_code b).drop 10).take 8) v, u.cell = v.cell ∨
      u.cell = Function.update v.cell (v.regs "PTR") (v.regs "C") := by
  rcases e : v.input with _ | ⟨c, cs⟩ <;> simp [e, if_pos inside]

lemma word_overflow_visits (outside : ¬Inside (v.regs "PTR")) (above : ¬Wraps (v.regs "PTR")) :
    ∀ u ∈ Bare.visits (((WORD_code b).drop 10).take 8) v, u.cell = v.cell := by
  simp [if_neg outside, if_neg above]

lemma word_again_visits :
    ∀ u ∈ Bare.visits (((WORD_code b).drop 18).take 3) v, u.cell = v.cell := by
  simp

lemma word_end_visits (room : DICTIONARY_TOP < v.sp) :
    ∀ u ∈ Bare.visits (((WORD_code b).drop 21).take 5) v, u.cell = v.cell ∨
      u.cell = Function.update v.cell WORD_BUFFER_BASE (v.regs "LEN") ∨
      u.cell = Function.update (Function.update v.cell WORD_BUFFER_BASE (v.regs "LEN"))
        (v.sp - 1) WORD_BUFFER_BASE := by
  have buffer : (1984 : ℤ) = WORD_BUFFER_BASE := rfl
  have inside : Inside WORD_BUFFER_BASE := by decide
  simp [buffer, if_pos inside, room]

end Blocks

section Runs

variable {v u : Bare} {b c c' : ℤ} {w rest : List ℤ}

/-- At `WORD_SKIP`. -/
structure WordSkip (v : Bare) (b : ℤ) (rest : List ℤ) (u : Bare) : Prop where
  kept : Kept v u
  cell : u.cell = v.cell
  sp : u.sp = v.sp + 1
  input : u.input = rest
  pc : u.pc = b + (1 : ℕ)
  delim : u.regs "DELIM" = v.cell v.sp

/-- At `WORD_COLLECT`, with `w` stored and `c` just read. -/
structure WordLoop (v : Bare) (b : ℤ) (w : List ℤ) (c : ℤ) (rest : List ℤ) (u : Bare) : Prop where
  kept : Kept v u
  cell : u.cell = writeCells v.cell (WORD_BUFFER_BASE + 1) w
  sp : u.sp = v.sp + 1
  input : u.input = rest
  pc : u.pc = b + (10 : ℕ)
  delim : u.regs "DELIM" = v.cell v.sp
  char : u.regs "C" = c
  ptr : u.regs "PTR" = WORD_BUFFER_BASE + 1 + w.length
  len : u.regs "LEN" = w.length

/-- The routine entered at `v` is back, having read a token. -/
structure WordDone (v : Bare) (token rest : List ℤ) (u : Bare) : Prop where
  kept : Kept v u
  cell : u.cell = Function.update
    (Function.update (writeCells v.cell (WORD_BUFFER_BASE + 1) token) WORD_BUFFER_BASE token.length)
      v.sp WORD_BUFFER_BASE
  sp : u.sp = v.sp
  input : u.input = rest
  pc : u.pc = v.regs "NEXTREG"

/-- From `WORD` on. -/
lemma word_enters (loaded : Loaded (WORD_code v.pc) v.pc v) (one : v.sp < DATA_STACK_BASE) :
    ∃ u, Reaches bareRoutine v u ∧ WordSkip v v.pc v.input u := by
  obtain ⟨u, p, kept, cell, sp, input, pc, delim⟩ :=
    (word_enter one).run loaded (by simp) (by simp [WORD_code]) (by omega)
  exact ⟨u, p.reaches, kept, cell, sp, input, pc, delim⟩

/-- Delimiters are skipped. -/
lemma WordSkip.skips (loaded : Loaded (WORD_code b) b v) {gap : List ℤ}
    (delims : ∀ x ∈ gap, x = v.cell v.sp) (h : WordSkip v b (gap ++ rest) u) :
    ∃ t, Reaches bareRoutine u t ∧ WordSkip v b rest t := by
  induction gap generalizing u with
  | nil => exact ⟨u, .refl, h⟩
  | cons x gap ih =>
    obtain ⟨first, others⟩ := List.forall_mem_cons.mp delims
    obtain ⟨kept, cell, sp, input, pc, delim⟩ := h
    have here := loaded.kept kept
    obtain ⟨t, p, kept', cell', sp', input', pc', delim', -⟩ :=
      (word_skip here.running pc input).run here pc (by simp [WORD_code]) (by omega)
    rw [if_pos (first.trans delim.symm)] at pc'
    obtain ⟨y, r, hy⟩ := ih others ⟨kept.trans kept', cell'.trans cell, sp'.trans sp, input', pc',
      delim'.trans delim⟩
    exact ⟨y, p.reaches.trans r, hy⟩

/-- A token begins. -/
lemma WordSkip.starts (loaded : Loaded (WORD_code b) b v) (ne : c ≠ v.cell v.sp)
    (h : WordSkip v b (c :: rest) u) :
    ∃ t, Reaches bareRoutine u t ∧ WordLoop v b [] c rest t := by
  obtain ⟨kept, cell, sp, input, pc, delim⟩ := h
  have here := loaded.kept kept
  obtain ⟨t, p, kept', cell', sp', input', pc', delim', char'⟩ :=
    (word_skip here.running pc input).run here pc (by simp [WORD_code]) (by omega)
  rw [if_neg (by rwa [delim])] at pc'
  have there := here.kept kept'
  obtain ⟨y, p', kept'', cell'', sp'', input'', pc'', delim'', char'', ptr, len⟩ :=
    (word_start there.running pc').run there pc' (by simp [WORD_code]) (by omega)
  refine ⟨y, p.reaches.trans p'.reaches, (kept.trans kept').trans kept'', ?_, ?_, ?_, pc'', ?_, ?_,
    ?_, len⟩
  · rw [cell'', cell', cell, writeCells_nil]
  · rw [sp'', sp', sp]
  · rw [input'', input']
  · rw [delim'', delim', delim]
  · rw [char'', char']
  · rw [ptr]
    rfl

/-- The pointer into the buffer. -/
lemma WordLoop.inside (h : WordLoop v b w c rest u)
    (fits : WORD_BUFFER_BASE + 1 + w.length < MEMORY_SIZE) : Inside (u.regs "PTR") := by
  have lay := Layout.values
  rw [h.ptr]
  omega

/-- A character is stored, and the next one read. -/
lemma WordLoop.stores (h : WordLoop v b w c (c' :: rest) u) {t : Bare} (kept : Kept u t)
    (cell : t.cell = Function.update u.cell (u.regs "PTR") (u.regs "C")) (sp : t.sp = u.sp)
    (input : t.input = rest) (pc : t.pc = b + (10 : ℕ)) (delim : t.regs "DELIM" = u.regs "DELIM")
    (char : t.regs "C" = c') (ptr : t.regs "PTR" = u.regs "PTR" + 1)
    (len : t.regs "LEN" = u.regs "LEN" + 1) : WordLoop v b (w ++ [c]) c' rest t := by
  refine ⟨h.kept.trans kept, ?_, sp.trans h.sp, input, pc, delim.trans h.delim, char, ?_, ?_⟩
  · rw [cell, h.cell, h.ptr, h.char, writeCells_append_singleton]
  · rw [ptr, h.ptr, List.length_append, List.length_singleton]
    omega
  · rw [len, h.len, List.length_append, List.length_singleton]
    omega

/-- A turn of the loop. -/
lemma WordLoop.turn (loaded : Loaded (WORD_code b) b v) (ne : c' ≠ v.cell v.sp)
    (fits : WORD_BUFFER_BASE + 1 + w.length < MEMORY_SIZE) (h : WordLoop v b w c (c' :: rest) u) :
    ∃ t, Reaches bareRoutine u t ∧ WordLoop v b (w ++ [c]) c' rest t := by
  have here := loaded.kept h.kept
  obtain ⟨t, p, kept, cell, sp, input, pc, delim, char, ptr, len⟩ :=
    (word_collect here.running h.pc (h.inside fits) h.input).run here h.pc (by simp [WORD_code])
      (by omega)
  rw [if_neg (by rwa [h.delim])] at pc
  have there := here.kept kept
  obtain ⟨y, p', kept', cell', sp', input', pc', delim', char', ptr', len'⟩ :=
    (word_again there.running pc).run there pc (by simp [WORD_code]) (by omega)
  exact ⟨y, p.reaches.trans p'.reaches, h.stores (kept.trans kept') (cell'.trans cell)
    (sp'.trans sp) (input'.trans input) pc' (delim'.trans delim) (char'.trans char)
    (ptr'.trans ptr) (len'.trans len)⟩

/-- More characters. -/
lemma WordLoop.collects (loaded : Loaded (WORD_code b) b v) {x : List ℤ}
    (chars : ∀ y ∈ x, y ≠ v.cell v.sp)
    (fits : WORD_BUFFER_BASE + 1 + (w ++ x).length ≤ MEMORY_SIZE)
    (h : WordLoop v b w c (x ++ rest) u) :
    ∃ w' c' t, Reaches bareRoutine u t ∧ WordLoop v b w' c' rest t ∧ w' ++ [c'] = w ++ c :: x := by
  induction x generalizing w c u with
  | nil => exact ⟨w, c, u, .refl, h, rfl⟩
  | cons y x ih =>
    obtain ⟨first, others⟩ := List.forall_mem_cons.mp chars
    simp only [List.length_append, List.length_cons] at fits
    obtain ⟨t, r, ht⟩ := h.turn loaded first (by omega)
    obtain ⟨w', c', z, r', hz, e⟩ := ih others
      (by simp only [List.length_append, List.length_singleton]; omega) ht
    refine ⟨w', c', z, r.trans r', hz, ?_⟩
    rw [e, List.append_assoc, List.singleton_append]

/-- The token ends. -/
lemma WordLoop.ends (loaded : Loaded (WORD_code b) b v) (room : DICTIONARY_TOP ≤ v.sp)
    (fits : WORD_BUFFER_BASE + 1 + w.length < MEMORY_SIZE)
    (h : WordLoop v b w c (v.cell v.sp :: rest) u) :
    ∃ t, Reaches bareRoutine u t ∧ WordDone v (w ++ [c]) rest t := by
  have here := loaded.kept h.kept
  obtain ⟨t, p, kept, cell, sp, input, pc, -, -, -, len⟩ :=
    (word_collect here.running h.pc (h.inside fits) h.input).run here h.pc (by simp [WORD_code])
      (by omega)
  rw [if_pos h.delim.symm] at pc
  have there := here.kept kept
  have room' : DICTIONARY_TOP < t.sp := by
    rw [sp, h.sp]
    omega
  obtain ⟨y, p', kept', cell', sp', input', pc'⟩ :=
    (word_end there.running room').run there pc (by simp [WORD_code]) (by omega)
  have down : v.sp + 1 - 1 = v.sp := by omega
  refine ⟨y, p.reaches.trans p'.reaches, (h.kept.trans kept).trans kept', ?_, ?_, ?_, ?_⟩
  · rw [cell', cell, len, sp, h.cell, h.sp, h.ptr, h.char, h.len, down,
      ← writeCells_append_singleton, List.length_append, List.length_singleton]
    rfl
  · rw [sp', sp, h.sp, down]
  · rw [input', input]
  · rw [pc']
    exact (h.kept.trans kept).next

/-- A token after any number of delimiters. -/
lemma word_reads (loaded : Loaded (WORD_code v.pc) v.pc v) (one : v.sp < DATA_STACK_BASE)
    (room : DICTIONARY_TOP ≤ v.sp) (gap token : List ℤ) (delims : ∀ x ∈ gap, x = v.cell v.sp)
    (nonempty : token ≠ []) (chars : ∀ x ∈ token, x ≠ v.cell v.sp)
    (fits : WORD_BUFFER_BASE + token.length < MEMORY_SIZE)
    (input : v.input = gap ++ token ++ v.cell v.sp :: rest) :
    ∃ t, Reaches bareRoutine v t ∧ WordDone v token rest t := by
  cases token with
  | nil => exact absurd rfl nonempty
  | cons c x =>
    obtain ⟨first, others⟩ := List.forall_mem_cons.mp chars
    simp only [List.length_cons] at fits
    obtain ⟨u₁, r₁, skip⟩ := word_enters loaded one
    rw [input, List.append_assoc] at skip
    obtain ⟨u₂, r₂, skipped⟩ := skip.skips loaded delims
    obtain ⟨u₃, r₃, loop⟩ := skipped.starts loaded first
    obtain ⟨w, d, u₄, r₄, collected, e⟩ := loop.collects loaded others
      (by simp only [List.nil_append]; omega)
    have length := congrArg List.length e
    simp only [List.length_append, List.length_cons, List.length_nil, List.nil_append] at length
    obtain ⟨u₅, r₅, done⟩ := collected.ends loaded room (by omega)
    rw [e, List.nil_append] at done
    exact ⟨u₅, r₁.trans (r₂.trans (r₃.trans (r₄.trans r₅))), done⟩

end Runs

section Buffer

/-! The cells that the routine writes. -/

/-- The characters that `WORD` takes for a token: those after the leading delimiters, up to the
    next delimiter or the end of the input. -/
def token (delim : ℤ) (input : List ℤ) : List ℤ :=
  (input.dropWhile fun c => decide (c = delim)).takeWhile fun c => decide (c ≠ delim)

/-- An address outside the buffer, and not that of the cell where the result is pushed. -/
def OutsideBuffer (result address : ℤ) : Prop :=
  (address < WORD_BUFFER_BASE ∨ WORD_BUFFER_BASE + WORD_BUFFER_SIZE ≤ address) ∧ address ≠ result

/-- The characters of a token that do not fit into the buffer are what their cells hold already. -/
def Fits (cell : ℤ → ℤ) (result : ℤ) (token : List ℤ) : Prop :=
  ∀ i (h : i < token.length), WORD_BUFFER_BASE + 1 + i < MEMORY_SIZE →
    OutsideBuffer result (WORD_BUFFER_BASE + 1 + i) → token[i] = cell (WORD_BUFFER_BASE + 1 + i)

/-- The cells outside the buffer are those of `v`. -/
def Intact (v u : Bare) : Prop := ∀ a, OutsideBuffer v.sp a → u.cell a = v.cell a

variable {v u : Bare} {b c : ℤ} {w rest x : List ℤ}

/-- A beginning of a token that fits leaves the cells outside the buffer alone. -/
lemma writeCells_intact (fits : Fits v.cell v.sp (w ++ x))
    (le : WORD_BUFFER_BASE + 1 + w.length ≤ MEMORY_SIZE)
    (cell : u.cell = writeCells v.cell (WORD_BUFFER_BASE + 1) w) : Intact v u := by
  intro a outside
  rw [cell]
  by_cases within : WORD_BUFFER_BASE + 1 ≤ a ∧ a < WORD_BUFFER_BASE + 1 + w.length
  · obtain ⟨i, rfl⟩ : ∃ i : ℕ, a = WORD_BUFFER_BASE + 1 + i :=
      ⟨(a - (WORD_BUFFER_BASE + 1)).toNat, by omega⟩
    have lt : i < w.length := by omega
    have lt' : i < (w ++ x).length := by
      rw [List.length_append]
      omega
    rw [writeCells_get lt, ← fits i lt' (by omega) outside, List.getElem_append_left lt]
  · exact writeCells_of_not (by omega)

/-- The token reaches the end of the memory. -/
lemma WordLoop.always_full (loaded : Loaded (WORD_code b) b v) (before : Intact v u)
    (full : WORD_BUFFER_BASE + 1 + w.length = MEMORY_SIZE) (h : WordLoop v b w c rest u) :
    Always (Intact v) bareRoutine u := by
  have lay := Layout.values
  have outside : ¬Inside (u.regs "PTR") := by
    rw [h.ptr]
    omega
  have above : ¬Wraps (u.regs "PTR") := by
    rw [h.ptr]
    omega
  refine (loaded.kept h.kept).always_of_fail h.pc (by simp [WORD_code])
    (word_overflow outside above) fun y mem a ha => ?_
  rw [word_overflow_visits outside above y mem]
  exact before a ha

/-- Before and after a character is stored. -/
lemma WordLoop.intact (fits : Fits v.cell v.sp (w ++ c :: x))
    (lt : WORD_BUFFER_BASE + 1 + w.length < MEMORY_SIZE) (h : WordLoop v b w c rest u) :
    ∀ y ∈ Bare.visits (((WORD_code b).drop 10).take 8) u, Intact v y := by
  intro y mem
  rcases word_collect_visits (h.inside lt) y mem with e | e
  · exact writeCells_intact fits (by omega) (e.trans h.cell)
  · rw [h.cell, h.ptr, h.char, ← writeCells_append_singleton] at e
    rw [← List.singleton_append, ← List.append_assoc] at fits
    refine writeCells_intact fits ?_ e
    simp only [List.length_append, List.length_singleton]
    omega

/-- The end of a token that has left the cells alone. -/
lemma word_end_always (loaded : Loaded (WORD_code b) b u) (kept : Kept v u)
    (next : v.regs "NEXTREG" = NEXT_INDEX) (room : DICTIONARY_TOP ≤ v.sp) (sp : u.sp = v.sp + 1)
    (pc : u.pc = b + (21 : ℕ)) (before : Intact v u) : Always (Intact v) bareRoutine u := by
  have room' : DICTIONARY_TOP < u.sp := by omega
  have down : u.sp - 1 = v.sp := by omega
  have counted : ∀ a, OutsideBuffer v.sp a →
      Function.update u.cell WORD_BUFFER_BASE (u.regs "LEN") a = v.cell a := by
    intro a ha
    have lay := Layout.values
    have ne : a ≠ WORD_BUFFER_BASE := by
      have out := ha.1
      omega
    rw [Function.update_of_ne ne, before a ha]
  have pushed : ∀ a, OutsideBuffer v.sp a →
      Function.update (Function.update u.cell WORD_BUFFER_BASE (u.regs "LEN")) (u.sp - 1)
        WORD_BUFFER_BASE a = v.cell a := by
    intro a ha
    rw [down, Function.update_of_ne ha.2, counted a ha]
  refine (word_end loaded.running room').always loaded pc (by simp [WORD_code]) ?_ ?_
  · intro y mem a ha
    rcases word_end_visits room' y mem with e | e | e
    · rw [e, before a ha]
    · rw [e, counted a ha]
    · rw [e, pushed a ha]
  · rintro y ⟨-, cell, -, -, pc'⟩
    have stopped : y.pc = NEXT_INDEX := by
      rw [pc', ← next]
      exact kept.next
    refine .last (fun a ha => by rw [cell, pushed a ha]) fun t e => ?_
    exact (step_of_upTo e).1 stopped

/-- The token is read without harm. -/
lemma WordLoop.always (loaded : Loaded (WORD_code b) b v) (next : v.regs "NEXTREG" = NEXT_INDEX)
    (room : DICTIONARY_TOP ≤ v.sp)
    (fits : Fits v.cell v.sp (w ++ c :: rest.takeWhile fun c => decide (c ≠ v.cell v.sp)))
    (le : WORD_BUFFER_BASE + 1 + w.length ≤ MEMORY_SIZE) (h : WordLoop v b w c rest u) :
    Always (Intact v) bareRoutine u := by
  induction rest generalizing w c u with
  | nil =>
    by_cases full : WORD_BUFFER_BASE + 1 + w.length = MEMORY_SIZE
    · exact h.always_full loaded (writeCells_intact fits le h.cell) full
    · have here := loaded.kept h.kept
      exact here.always_of_fail h.pc (by simp [WORD_code])
        (word_collect_fails here.running (h.inside (by omega)) h.input) (h.intact fits (by omega))
  | cons c' rest ih =>
    by_cases full : WORD_BUFFER_BASE + 1 + w.length = MEMORY_SIZE
    · exact h.always_full loaded (writeCells_intact fits le h.cell) full
    · have here := loaded.kept h.kept
      have lt : WORD_BUFFER_BASE + 1 + w.length < MEMORY_SIZE := by omega
      refine (word_collect here.running h.pc (h.inside lt) h.input).always here h.pc
        (by simp [WORD_code]) (h.intact fits lt) ?_
      rintro t ⟨kept, cell, sp, input, pc, delim, char, ptr, len⟩
      have there := here.kept kept
      rw [h.delim] at pc
      have stored : t.cell = writeCells v.cell (WORD_BUFFER_BASE + 1) (w ++ [c]) := by
        rw [cell, h.cell, h.ptr, h.char, writeCells_append_singleton]
      have le' : WORD_BUFFER_BASE + 1 + (w ++ [c]).length ≤ MEMORY_SIZE := by
        simp only [List.length_append, List.length_singleton]
        omega
      rw [← List.singleton_append, ← List.append_assoc] at fits
      have before : Intact v t := writeCells_intact fits le' stored
      by_cases last : c' = v.cell v.sp
      · rw [if_pos last] at pc
        exact word_end_always there (h.kept.trans kept) next room (by rw [sp, h.sp]) pc before
      · rw [if_neg last] at pc
        rw [List.takeWhile_cons_of_pos (by simpa using last)] at fits
        refine (word_again there.running pc).always there pc (by simp [WORD_code]) ?_ ?_
        · intro y mem a ha
          rw [word_again_visits y mem, before a ha]
        · rintro y ⟨kept', cell', sp', input', pc', delim', char', ptr', len'⟩
          exact ih fits le' (h.stores (kept.trans kept') (cell'.trans cell) (sp'.trans sp)
            (input'.trans input) pc' (delim'.trans delim) (char'.trans char) (ptr'.trans ptr)
            (len'.trans len))

/-- So are the delimiters before it. -/
lemma WordSkip.always (loaded : Loaded (WORD_code b) b v) (next : v.regs "NEXTREG" = NEXT_INDEX)
    (room : DICTIONARY_TOP ≤ v.sp) (fits : Fits v.cell v.sp (token (v.cell v.sp) rest))
    (h : WordSkip v b rest u) : Always (Intact v) bareRoutine u := by
  have same : ∀ y : Bare, y.cell = u.cell → Intact v y := fun y e a _ => by rw [e, h.cell]
  induction rest generalizing u with
  | nil =>
    exact (loaded.kept h.kept).always_of_fail h.pc (by simp [WORD_code]) (word_skip_fails h.input)
      fun y mem => same y (word_skip_visits y mem)
  | cons c rest ih =>
    have here := loaded.kept h.kept
    refine (word_skip here.running h.pc h.input).always here h.pc (by simp [WORD_code])
      (fun y mem => same y (word_skip_visits y mem)) ?_
    rintro t ⟨kept, cell, sp, input, pc, delim, char⟩
    rw [h.delim] at pc
    have cell' := cell.trans h.cell
    by_cases skip : c = v.cell v.sp
    · rw [if_pos skip] at pc
      rw [token, List.dropWhile_cons_of_pos (by simpa using skip)] at fits
      refine ih fits ⟨h.kept.trans kept, cell', sp.trans h.sp, input, pc, delim.trans h.delim⟩ ?_
      exact fun y e a _ => by rw [e, cell']
    · rw [if_neg skip] at pc
      rw [token, List.dropWhile_cons_of_neg (by simpa using skip),
        List.takeWhile_cons_of_pos (by simpa using skip)] at fits
      have there := here.kept kept
      refine (word_start there.running pc).always there pc (by simp [WORD_code]) ?_ ?_
      · intro y mem a _
        rw [word_start_visits y mem, cell']
      · rintro y ⟨kept', cell'', sp', input', pc', delim', char', ptr, len⟩
        refine WordLoop.always loaded next room (w := []) fits (by decide) ⟨(h.kept.trans kept).trans kept',
          ?_, ?_, ?_, pc', ?_, ?_, ?_, len⟩
        · rw [cell'', cell', writeCells_nil]
        · rw [sp', sp, h.sp]
        · rw [input', input]
        · rw [delim', delim, h.delim]
        · rw [char', char]
        · rw [ptr]
          rfl

/-- From `WORD` on. -/
lemma word_always (loaded : Loaded (WORD_code v.pc) v.pc v) (one : v.sp < DATA_STACK_BASE)
    (next : v.regs "NEXTREG" = NEXT_INDEX) (room : DICTIONARY_TOP ≤ v.sp)
    (fits : Fits v.cell v.sp (token (v.cell v.sp) v.input)) : Always (Intact v) bareRoutine v := by
  refine (word_enter one).always loaded (by simp) (by simp) ?_ ?_
  · intro y mem a _
    rw [word_enter_visits one y mem]
  · rintro u ⟨kept, cell, sp, input, pc, delim⟩
    exact WordSkip.always loaded next room fits ⟨kept, cell, sp, input, pc, delim⟩

/-- A beginning of a token, and what comes before and after it. -/
lemma token_split {delim : ℤ} {input : List ℤ} {i : ℕ} (h : i < (token delim input).length) :
    ∃ gap c x rest, input = gap ++ c :: (x ++ rest) ∧ (∀ y ∈ gap, y = delim) ∧
      (∀ y ∈ c :: x, y ≠ delim) ∧ c :: x = (token delim input).take (i + 1) := by
  let skip : ℤ → Bool := fun c => decide (c = delim)
  let take : ℤ → Bool := fun c => decide (c ≠ delim)
  have split : input = input.takeWhile skip ++ (token delim input ++
      (input.dropWhile skip).dropWhile take) := by
    rw [token, List.takeWhile_append_dropWhile, List.takeWhile_append_dropWhile]
  cases e : (token delim input).take (i + 1) with
  | nil =>
    have length := congrArg List.length e
    simp only [List.length_take, List.length_nil] at length
    omega
  | cons c x =>
    refine ⟨input.takeWhile skip, c, x,
      (token delim input).drop (i + 1) ++ (input.dropWhile skip).dropWhile take, ?_, ?_, ?_, rfl⟩
    · have cut : token delim input = c :: x ++ (token delim input).drop (i + 1) := by
        rw [← e, List.take_append_drop]
      rw [cut, List.append_assoc] at split
      exact split
    · intro y mem
      simpa [skip] using List.mem_takeWhile_imp mem
    · intro y mem
      rw [← e] at mem
      simpa using List.mem_takeWhile_imp (List.mem_of_mem_take mem)

/-- The store of a turn. -/
lemma word_store (running : v.halted = false) (inside : Inside (v.regs "PTR")) :
    Ensures (((WORD_code b).drop 10).take 1) v fun u =>
      u.cell = Function.update v.cell (v.regs "PTR") (v.regs "C") := by
  simp [Ensures, WORD_code, running, if_pos inside]

/-- Every character of a token is stored, as long as the memory lasts. -/
lemma word_writes (loaded : Loaded (WORD_code v.pc) v.pc v) (one : v.sp < DATA_STACK_BASE) {i : ℕ}
    (h : i < (token (v.cell v.sp) v.input).length)
    (lt : WORD_BUFFER_BASE + 1 + i < MEMORY_SIZE) :
    ∃ u, Reaches bareRoutine v u ∧
      u.cell (WORD_BUFFER_BASE + 1 + i) = (token (v.cell v.sp) v.input)[i] := by
  obtain ⟨gap, c, x, rest, input, delims, chars, e⟩ := token_split h
  obtain ⟨first, others⟩ := List.forall_mem_cons.mp chars
  have length := congrArg List.length e
  simp only [List.length_cons, List.length_take] at length
  obtain ⟨u₁, r₁, skip⟩ := word_enters loaded one
  rw [input] at skip
  obtain ⟨u₂, r₂, skipped⟩ := skip.skips loaded delims
  obtain ⟨u₃, r₃, loop⟩ := skipped.starts loaded first
  obtain ⟨w, d, u₄, r₄, collected, e'⟩ := loop.collects loaded others
    (by simp only [List.nil_append]; omega)
  rw [List.nil_append, e] at e'
  have length' := congrArg List.length e'
  simp only [List.length_append, List.length_singleton, List.length_take] at length'
  have here := loaded.kept collected.kept
  obtain ⟨u₅, p, cell⟩ := (word_store here.running (collected.inside (by omega))).run here
    collected.pc (by simp [WORD_code]) (by omega)
  refine ⟨u₅, r₁.trans (r₂.trans (r₃.trans (r₄.trans p.reaches))), ?_⟩
  obtain rfl : i = w.length := by omega
  rw [cell, collected.ptr, collected.char, Function.update_self]
  have last : (w ++ [d])[w.length]? = some d := by simp
  rw [e', List.getElem?_take_of_lt (by omega), List.getElem?_eq_getElem h] at last
  exact (Option.some.inj last).symm

/-- While `WORD` runs, it leaves every cell outside its buffer alone, the result's cell aside,
    exactly if the characters of the token that do not fit into the buffer are already there. -/
theorem word_stays_inside {s : EmulatorService} (h : Enters "WORD" s)
    (one : s.data.data_stack.pointer < DATA_STACK_BASE) :
    (∀ t, Reaches routine s t → ∀ a, OutsideBuffer s.data.data_stack.pointer a →
      t.data.memory.cell a = s.data.memory.cell a) ↔
    Fits s.data.memory.cell s.data.data_stack.pointer (token (top s) s.char_input) := by
  have loaded := h.loaded 38 WORD_code rfl (.head _) rfl (by decide)
  have next : (bare s).regs "NEXTREG" = NEXT_INDEX :=
    Option.some.inj (h.next.symm.trans lookup_NEXT)
  have room : DICTIONARY_TOP ≤ (bare s).sp := by
    have lay := Layout.values
    have floor := s.data.data_stack.floor_le
    have size : (bare s).sp = s.data.data_stack.pointer := rfl
    omega
  constructor
  · intro intact i lt inside outside
    obtain ⟨u, r, e⟩ := word_writes (v := bare s) loaded one lt inside
    obtain ⟨t, r', rfl⟩ := routine_simulates.reaches r
    have seen : (bare t).cell = t.data.memory.cell := rfl
    rw [seen, intact t r' _ outside] at e
    exact e.symm
  · intro fits t r
    exact word_always (v := bare s) loaded one next room fits (bare t) (reaches_bare h.program r)

/-- A token of one character. -/
theorem word_stays_inside_short :
    let s := poised 278 (storing [(3071, 32)]) ⟨3071, by decide, by decide⟩ [65, 32]
    ∀ t, Reaches routine s t → ∀ a, OutsideBuffer s.data.data_stack.pointer a →
      t.data.memory.cell a = s.data.memory.cell a := by
  intro s
  have cell : s.data.memory.cell = _ := cell_storing (by decide)
  have delim : top s = 32 := by
    rw [top, cell]
    decide
  have one : s.data.data_stack.pointer < DATA_STACK_BASE := (by decide : (3071 : ℤ) < 3072)
  refine (word_stays_inside (s := s) (poised_enters 38 rfl (.head _)) one).mpr ?_
  intro i lt _ outside
  have length : (token (top s) s.char_input).length = 1 := by
    rw [delim]
    decide
  have lay := Layout.values
  have out := outside.1
  omega

/-- With a full data stack, a token of 65 characters overwrites the second cell on it. -/
theorem word_overwrites_data_stack :
    let s := poised 278 (storing [(2048, 32)]) ⟨2048, by decide, by decide⟩
      (List.replicate 65 65 ++ [32])
    Enters "WORD" s ∧ OutsideBuffer s.data.data_stack.pointer 2049 ∧
      s.data.memory.cell 2049 = 0 ∧
      ∃ t, Reaches routine s t ∧ t.data.memory.cell 2049 = 65 := by
  intro s
  have enters : Enters "WORD" s := poised_enters 38 rfl (.head _)
  have cell : s.data.memory.cell = _ := cell_storing (by decide)
  have delim : (bare s).cell (bare s).sp = 32 := by
    rw [show (bare s).cell = _ from cell]
    rfl
  have loaded := enters.loaded 38 WORD_code rfl (.head _) rfl (by decide)
  have read : token ((bare s).cell (bare s).sp) (bare s).input = List.replicate 65 65 := by
    rw [delim]
    decide
  have long : 64 < (token ((bare s).cell (bare s).sp) (bare s).input).length := by
    rw [read]
    decide
  obtain ⟨u, r, e⟩ := word_writes (v := bare s) loaded (by decide : (2048 : ℤ) < 3072) long (by decide)
  obtain ⟨t, r', rfl⟩ := routine_simulates.reaches r
  have seen : (bare t).cell = t.data.memory.cell := rfl
  refine ⟨enters, ⟨.inr (by decide), by decide⟩, by rw [cell]; decide, t, r', ?_⟩
  simp only [read, List.getElem_replicate, seen] at e
  exact e

end Buffer

section Tokens

/-- A run of `WORD` that reads a token and leaves `rest` of the input. -/
structure Reads (s t : EmulatorService) (token : PyStr) (rest : List ℤ) : Prop extends
    Returns s t where
  pointer : t.data.data_stack.pointer = s.data.data_stack.pointer
  result : top t = WORD_BUFFER_BASE
  counted : MemoryCountedStringAdapter.read WORD_BUFFER_BASE t.data.memory =
    .ok token t.data.memory
  frame : ∀ a, a < WORD_BUFFER_BASE ∨ WORD_BUFFER_BASE + token.length < a →
    a ≠ s.data.data_stack.pointer → t.data.memory.cell a = s.data.memory.cell a
  input : t.char_input = rest

/-- A string that `WORD` reads as one token: neither empty nor longer than the buffer, and without
    delimiters. -/
structure IsToken (delim : ℤ) (text : PyStr) : Prop where
  nonempty : text ≠ []
  free : ∀ c ∈ text, ord c ≠ delim
  fits : text.length ≤ WORD_BUFFER_SIZE - 1

/-- A literal is a token if none of its characters is the delimiter. -/
lemma isToken_ofList {delim : ℤ} {cs : List Char} (nonempty : cs ≠ [])
    (free : ∀ c ∈ cs, (c.toNat : ℤ) ≠ delim) (fits : (cs.length : ℤ) ≤ WORD_BUFFER_SIZE - 1) :
    IsToken delim (py (String.ofList cs)) := by
  rw [py_ofList]
  refine ⟨fun empty => nonempty (List.map_eq_nil_iff.mp empty), ?_, ?_⟩
  · intro c mem
    obtain ⟨c', there, rfl⟩ := List.mem_map.mp mem
    exact free c' there
  · rw [List.length_map]
    exact fits

/-- An input of tokens, each after any number of delimiters and before one of them. -/
def queue (delim : ℤ) (rest : List ℤ) : List (ℕ × PyStr) → List ℤ
  | [] => rest
  | (gap, text) :: items =>
    List.replicate gap delim ++ text.map ord ++ delim :: queue delim rest items

/-- Successive runs of `WORD` read these tokens and leave `rest`. Each run may start in any state
    with the delimiter on the stack and the input that the run before it has left. -/
def Tokenizes (delim : ℤ) (rest : List ℤ) : List PyStr → List ℤ → Prop
  | [], input => input = rest
  | text :: texts, input => ∀ s, Enters "WORD" s → s.data.data_stack.pointer < DATA_STACK_BASE →
      top s = delim → s.char_input = input →
        ∃ t gap left, Reaches routine s t ∧ Reads s t text left ∧
          input = List.replicate gap delim ++ text.map ord ++ delim :: left ∧
          Tokenizes delim rest texts left

variable {s : EmulatorService} {delim : ℤ}

/-- One run, with the cells of the buffer. -/
lemma word_reads_cells (h : Enters "WORD" s) (one : s.data.data_stack.pointer < DATA_STACK_BASE)
    (on_top : top s = delim) {text : PyStr} (tok : IsToken delim text) {gap : ℕ} {rest : List ℤ}
    (input : s.char_input = List.replicate gap delim ++ text.map ord ++ delim :: rest) :
    ∃ t, Reaches routine s t ∧ Reads s t text rest ∧
      CellsAt t.data.memory.cell WORD_BUFFER_BASE (MemoryCountedStringAdapter.cells text) := by
  have lay := Layout.values
  obtain ⟨nonempty, free, fits⟩ := tok
  have loaded := h.loaded 38 WORD_code rfl (.head _) rfl (by decide)
  have floor := s.data.data_stack.floor_le
  have room : DICTIONARY_TOP ≤ (bare s).sp := by
    have size : (bare s).sp = s.data.data_stack.pointer := rfl
    omega
  have same : (bare s).cell (bare s).sp = delim := on_top
  obtain ⟨u, r, done⟩ := word_reads (v := bare s) loaded one room
    (List.replicate gap delim) (text.map ord)
    (fun x mem => (List.eq_of_mem_replicate mem).trans same.symm)
    (by simpa using nonempty)
    (by
      rw [same]
      simpa using free)
    (by
      rw [List.length_map]
      omega)
    (by rw [same]; exact input)
  obtain ⟨t, r', rfl⟩ := routine_simulates.reaches r
  obtain ⟨kept, cell', sp, input', pc⟩ := done
  rw [List.length_map] at cell'
  have cell : t.data.memory.cell = Function.update (Function.update
      (writeCells s.data.memory.cell (WORD_BUFFER_BASE + 1) (text.map ord)) WORD_BUFFER_BASE
        text.length) s.data.data_stack.pointer WORD_BUFFER_BASE := cell'
  have pointer : t.data.data_stack.pointer = s.data.data_stack.pointer := sp
  -- The result's cell lies above the buffer.
  have inside : ∀ a ≤ WORD_BUFFER_BASE + text.length, t.data.memory.cell a =
      Function.update (writeCells s.data.memory.cell (WORD_BUFFER_BASE + 1) (text.map ord))
        WORD_BUFFER_BASE text.length a := by
    intro a le
    rw [cell, Function.update_of_ne (by omega)]
  have cells : CellsAt t.data.memory.cell WORD_BUFFER_BASE
      (MemoryCountedStringAdapter.cells text) := by
    refine ⟨?_, CellsAt.of_get fun i lt => ?_⟩
    · rw [inside _ (by omega), Function.update_self]
    · have lt' := lt
      rw [List.length_map] at lt'
      rw [inside _ (by omega), Function.update_of_ne (by omega), writeCells_get lt]
  refine ⟨t, r', ⟨h.returns kept pc, pointer, ?_, ?_, ?_, input'⟩, cells⟩
  · rw [top, pointer, cell, Function.update_self]
  · exact MemoryCountedStringAdapter.read_of_cellsAt cells (by decide) (by omega)
  · intro a out ne
    rw [cell, Function.update_of_ne ne, Function.update_of_ne (by omega)]
    refine writeCells_of_not ?_
    rw [List.length_map]
    omega

/-- One run. -/
lemma word_reads_token (h : Enters "WORD" s) (one : s.data.data_stack.pointer < DATA_STACK_BASE)
    (on_top : top s = delim) {text : PyStr} (tok : IsToken delim text) {gap : ℕ} {rest : List ℤ}
    (input : s.char_input = List.replicate gap delim ++ text.map ord ++ delim :: rest) :
    ∃ t, Reaches routine s t ∧ Reads s t text rest := by
  obtain ⟨t, r, reads, -⟩ := word_reads_cells h one on_top tok input
  exact ⟨t, r, reads⟩

/-- `WORD` splits its input into tokens. -/
theorem word_tokenizes (delim : ℤ) (rest : List ℤ) (items : List (ℕ × PyStr))
    (tokens : ∀ item ∈ items, IsToken delim item.2) :
    Tokenizes delim rest (items.map Prod.snd) (queue delim rest items) := by
  induction items with
  | nil => rfl
  | cons item items ih =>
    obtain ⟨first, others⟩ := List.forall_mem_cons.mp tokens
    intro s h one on_top input
    obtain ⟨t, r, reads⟩ := word_reads_token h one on_top first input
    exact ⟨t, item.1, queue delim rest items, r, reads, rfl, ih others⟩

/-- Two words of a line. -/
theorem word_tokenizes_line : Tokenizes 32 [10] ["DUP", "42"]
    [32, 32, 68, 85, 80, 32, 52, 50, 32, 10] := by
  have e : queue 32 [10] [(2, "DUP"), (0, "42")] = [32, 32, 68, 85, 80, 32, 52, 50, 32, 10] := by
    decide +kernel
  rw [← e]
  refine word_tokenizes 32 [10] [(2, "DUP"), (0, "42")] fun item mem => ?_
  rcases List.mem_pair.mp mem with rfl | rfl
  · exact @isToken_ofList 32 ['D', 'U', 'P'] (by decide) (by simp) (by decide)
  · exact @isToken_ofList 32 ['4', '2'] (by decide) (by simp) (by decide)

end Tokens

end MinCpuForth.Kernel
