import MinCpuForth.Kernel.Calls
import MinCpuForth.Adapters.DictionaryHiding
import Mathlib.Data.List.Nodup

/-!
# `FIND`

Two loops: one along the links, the other along the characters of a name. Every test that a word
fails leads to its link; the two ends of the outer loop are the word that passes them all and the
zero link.
-/

namespace MinCpuForth.Kernel
open Python Domain Adapters Emulator Lib Layout Routines EmulatorService

section Blocks

/-! The straight-line parts of the routine. -/

/-- The string looked for and the word looked at stay the same. -/
@[mk_iff] structure Steady (v u : Bare) : Prop where
  quiet : Quiet v u
  name : u.regs "NAMEADDR" = v.regs "NAMEADDR"
  length : u.regs "SLEN" = v.regs "SLEN"
  cur : u.regs "CUR" = v.regs "CUR"

variable {v : Bare} {b : ℤ}

attribute [local simp] Ensures FIND_code quiet_iff kept_iff popped_iff steady_iff Int.add_assoc

/-- From `FIND` to the loop. -/
lemma find_enter (running : v.halted = false) (below : v.sp < DATA_STACK_BASE)
    (inside : Inside (v.cell v.sp)) :
    Ensures (((FIND_code v.pc).drop 0).take 5) v fun u => Popped v u ∧ u.pc = v.pc + (5 : ℕ) ∧
      u.regs "NAMEADDR" = v.cell v.sp ∧ u.regs "SLEN" = v.cell (v.cell v.sp) ∧
      u.regs "CUR" = v.cell LATEST_ADDR := by
  have one : Inside 1 := by decide
  simp [running, below, if_pos inside, if_pos one]

/-- `FIND_LOOP` at the end of the links. -/
lemma find_end (pc : v.pc = b + (5 : ℕ)) (last : v.regs "CUR" = 0) :
    Ensures (((FIND_code b).drop 5).take 1) v fun u => Steady v u ∧ u.pc = b + (71 : ℕ) := by
  simp [pc, last]

/-- `FIND_LOOP`. -/
lemma find_loop (running : v.halted = false) (pc : v.pc = b + (5 : ℕ)) (more : v.regs "CUR" ≠ 0)
    (inside : Inside (v.regs "CUR" - 1)) :
    Ensures (((FIND_code b).drop 5).take 6) v fun u => Steady v u ∧
      u.pc = b + (if v.cell (v.regs "CUR" - 1) = 0 then 14 else 11 : ℕ) := by
  by_cases visible : v.cell (v.regs "CUR" - 1) = 0 <;>
    simp [running, pc, more, if_pos inside, visible]

/-- On to `FIND_NEXT`. -/
lemma find_skip (running : v.halted = false) {k : ℕ} (mem : k ∈ [11, 19, 37])
    (pc : v.pc = b + k) :
    Ensures (((FIND_code b).drop k).take 3) v fun u => Steady v u ∧ u.pc = b + (64 : ℕ) := by
  simp only [List.mem_cons, List.not_mem_nil, or_false] at mem
  rcases mem with rfl | rfl | rfl <;> simp [running, pc]

/-- `FIND_VISIBLE`. -/
lemma find_visible (running : v.halted = false) (pc : v.pc = b + (14 : ℕ))
    (inside : Inside (v.regs "CUR")) :
    Ensures (((FIND_code b).drop 14).take 5) v fun u => Steady v u ∧
      u.pc = b + (if v.cell (v.regs "CUR") = v.regs "SLEN" then 22 else 19 : ℕ) ∧
      u.regs "WLEN" = v.cell (v.regs "CUR") := by
  by_cases same : v.cell (v.regs "CUR") - v.regs "SLEN" = 0
  · have e : v.cell (v.regs "CUR") = v.regs "SLEN" := Int.sub_eq_zero.mp same
    simp [running, pc, if_pos inside, e]
  · have ne : v.cell (v.regs "CUR") ≠ v.regs "SLEN" := fun e => same (Int.sub_eq_zero.mpr e)
    simp [running, pc, if_pos inside, same, ne]

/-- `FIND_CMP`. -/
lemma find_compare (running : v.halted = false) (pc : v.pc = b + (22 : ℕ)) :
    Ensures (((FIND_code b).drop 22).take 8) v fun u => Steady v u ∧ u.pc = b + (30 : ℕ) ∧
      u.regs "WLEN" = v.regs "WLEN" ∧ u.regs "WPTR" = v.regs "CUR" + 1 ∧
      u.regs "SPTR" = v.regs "NAMEADDR" + 1 ∧ u.regs "COUNT" = v.regs "SLEN" := by
  simp [running, pc]

/-- `FIND_CHARS` with nothing left. -/
lemma find_same (pc : v.pc = b + (30 : ℕ)) (done : v.regs "COUNT" = 0) :
    Ensures (((FIND_code b).drop 30).take 1) v fun u => Steady v u ∧ u.pc = b + (46 : ℕ) ∧
      u.regs "WLEN" = v.regs "WLEN" := by
  simp [pc, done]

/-- `FIND_CHARS`. -/
lemma find_chars (running : v.halted = false) (pc : v.pc = b + (30 : ℕ))
    (more : v.regs "COUNT" ≠ 0) (word : Inside (v.regs "WPTR")) (string : Inside (v.regs "SPTR")) :
    Ensures (((FIND_code b).drop 30).take 7) v fun u => Steady v u ∧
      u.pc = b + (if v.cell (v.regs "WPTR") = v.cell (v.regs "SPTR") then 40 else 37 : ℕ) ∧
      u.regs "WLEN" = v.regs "WLEN" ∧ u.regs "WPTR" = v.regs "WPTR" ∧
      u.regs "SPTR" = v.regs "SPTR" ∧ u.regs "COUNT" = v.regs "COUNT" := by
  by_cases same : v.cell (v.regs "WPTR") - v.cell (v.regs "SPTR") = 0
  · have e : v.cell (v.regs "WPTR") = v.cell (v.regs "SPTR") := Int.sub_eq_zero.mp same
    simp [running, pc, more, if_pos word, if_pos string, e]
  · have ne : v.cell (v.regs "WPTR") ≠ v.cell (v.regs "SPTR") :=
      fun e => same (Int.sub_eq_zero.mpr e)
    simp [running, pc, more, if_pos word, if_pos string, same, ne]

/-- `FIND_CHAR_OK`. -/
lemma find_char_ok (running : v.halted = false) (pc : v.pc = b + (40 : ℕ)) :
    Ensures (((FIND_code b).drop 40).take 6) v fun u => Steady v u ∧ u.pc = b + (30 : ℕ) ∧
      u.regs "WLEN" = v.regs "WLEN" ∧ u.regs "WPTR" = v.regs "WPTR" + 1 ∧
      u.regs "SPTR" = v.regs "SPTR" + 1 ∧ u.regs "COUNT" = v.regs "COUNT" - 1 := by
  simp [running, pc]

/-- `FIND_MATCH`. -/
lemma find_match (running : v.halted = false) (pc : v.pc = b + (46 : ℕ))
    (room : DICTIONARY_TOP < v.sp) (inside : Inside (v.regs "CUR" - 2))
    (ne : v.regs "CUR" - 2 ≠ v.sp - 1) :
    Ensures (((FIND_code b).drop 46).take 10) v fun u => Kept v u ∧ u.input = v.input ∧
      u.cell = Function.update v.cell (v.sp - 1) (v.regs "CUR" + 1 + v.regs "WLEN") ∧
      u.sp = v.sp - 1 ∧ u.pc = b + (if v.cell (v.regs "CUR" - 2) = 0 then 60 else 56 : ℕ) := by
  by_cases normal : v.cell (v.regs "CUR" - 2) = 0 <;>
    simp [running, pc, room, if_pos inside, ne, normal]

/-- The flag of an immediate word. -/
lemma find_immediate (running : v.halted = false) (room : DICTIONARY_TOP < v.sp) :
    Ensures (((FIND_code b).drop 56).take 4) v fun u => Kept v u ∧ u.input = v.input ∧
      u.cell = Function.update v.cell (v.sp - 1) 1 ∧ u.sp = v.sp - 1 ∧
      u.pc = v.regs "NEXTREG" := by
  simp [running, room]

/-- `FIND_NORMAL`. -/
lemma find_normal (running : v.halted = false) (room : DICTIONARY_TOP < v.sp) :
    Ensures (((FIND_code b).drop 60).take 4) v fun u => Kept v u ∧ u.input = v.input ∧
      u.cell = Function.update v.cell (v.sp - 1) (-1) ∧ u.sp = v.sp - 1 ∧
      u.pc = v.regs "NEXTREG" := by
  simp [running, room]

/-- `FIND_NEXT`. -/
lemma find_next (running : v.halted = false) (pc : v.pc = b + (64 : ℕ))
    (inside : Inside (v.regs "CUR" - 3)) :
    Ensures (((FIND_code b).drop 64).take 7) v fun u => Quiet v u ∧ u.pc = b + (5 : ℕ) ∧
      u.regs "NAMEADDR" = v.regs "NAMEADDR" ∧ u.regs "SLEN" = v.regs "SLEN" ∧
      u.regs "CUR" = v.cell (v.regs "CUR" - 3) := by
  simp [running, pc, if_pos inside]

variable {u : Bare}

/-- `FIND_NOTFOUND`. -/
lemma find_notfound (running : v.halted = false) (room : DICTIONARY_TOP < v.sp)
    (popped : Popped v u) :
    Ensures (((FIND_code b).drop 71).take 4) u (Pushed v 0 0) := by
  have room' : DICTIONARY_TOP < v.sp + 1 := Int.lt_add_one_of_le (Int.le_of_lt room)
  obtain ⟨kept, input, cell, sp⟩ := popped
  simp only [kept_iff, running] at kept
  simp [running, pushed_iff, kept, input, cell, sp, room, room']

end Blocks

section Runs

variable {v u t : Bare} {b cur : ℤ} {codes : List ℤ} {n n' : ℕ} {e : Entry}

/-- The `n`-th instruction is next, and the word looked at has its name field at `cur`. -/
structure Searching (v : Bare) (b : ℤ) (codes : List ℤ) (n : ℕ) (cur : ℤ) (u : Bare) : Prop where
  popped : Popped v u
  pc : u.pc = b + n
  name : u.regs "NAMEADDR" = v.cell v.sp
  length : u.regs "SLEN" = codes.length
  cur : u.regs "CUR" = cur

/-- A word's cells, below the top of the dictionary. -/
structure WordAt (cell : ℤ → ℤ) (e : Entry) : Prop where
  low : DICTIONARY_BASE ≤ e.start
  high : e.stop ≤ DICTIONARY_TOP
  cells : CellsAt cell e.start e.cells

/-- The word is not hidden, and this is its name. -/
def Matches (codes : List ℤ) (e : Entry) : Prop := e.smudge = 0 ∧ e.name.map ord = codes

instance : Decidable (Matches codes e) := inferInstanceAs (Decidable (_ ∧ _))

/-- What `FIND` leaves: the code field address and a flag. -/
def answer : Option DictionaryHeaderDto → ℤ × ℤ
  | some h => (h.cfa, if h.immediate then 1 else -1)
  | none => (0, 0)

lemma Searching.steady (h : Searching v b codes n cur u) (st : Steady u t) (pc : t.pc = b + n') :
    Searching v b codes n' cur t :=
  ⟨h.popped.quiet st.quiet, pc, st.name.trans h.name, st.length.trans h.length, st.cur.trans h.cur⟩

/-- Each cell of a word's header, seen from its name field. -/
lemma WordAt.header {cell : ℤ → ℤ} (w : WordAt cell e) :
    cell (e.name_field - 3) = e.link ∧
      cell (e.name_field - 2) = (if e.immediate then 1 else 0) ∧
      cell (e.name_field - 1) = e.smudge ∧ cell e.name_field = e.name.length ∧
      CellsAt cell (e.name_field + 1) (e.name.map ord) := by
  obtain ⟨link, immediate, smudge, name, -⟩ := Entry.cellsAt_iff.mp w.cells
  have e3 : e.name_field - 3 = e.start := by rw [e.name_field_eq]; omega
  have e2 : e.name_field - 2 = e.start + 1 := by rw [e.name_field_eq]; omega
  have e1 : e.name_field - 1 = e.start + 2 := by rw [e.name_field_eq]; omega
  rw [e3, e2, e1]
  exact ⟨link, immediate, smudge, name.1, name.2⟩

/-- Where it lies. -/
lemma WordAt.bounds {cell : ℤ → ℤ} (w : WordAt cell e) :
    DICTIONARY_BASE ≤ e.name_field - 3 ∧ e.name_field + 1 + e.name.length < DICTIONARY_TOP := by
  have low := w.low
  have high := w.high
  simp only [Entry.stop, Entry.length_cells] at high
  have field := e.name_field_eq
  omega

/-- On to the next word. -/
lemma Searching.next (loaded : Loaded (FIND_code b) b v) (w : WordAt v.cell e)
    (mem : n ∈ [11, 19, 37]) (h : Searching v b codes n e.name_field u) :
    ∃ t, Reaches bareRoutine u t ∧ Searching v b codes 5 e.link t := by
  have lay := Layout.values
  have bounds := w.bounds
  have here := loaded.kept h.popped.kept
  have lt : n < (FIND_code b).length := by
    simp only [List.mem_cons, List.not_mem_nil, or_false] at mem
    rcases mem with rfl | rfl | rfl <;> simp [FIND_code]
  obtain ⟨x, p, st, pc⟩ := (find_skip here.running mem h.pc).run here h.pc lt (by omega)
  have h' := h.steady st pc
  have there := loaded.kept h'.popped.kept
  obtain ⟨y, p', quiet, pc', name, length, cur⟩ :=
    (find_next there.running pc (by rw [h'.cur]; omega)).run there pc (by simp [FIND_code])
      (by omega)
  refine ⟨y, p.reaches.trans p'.reaches, h'.popped.quiet quiet, pc', name.trans h'.name,
    length.trans h'.length, ?_⟩
  rw [cur, h'.cur, h'.popped.cell, w.header.1]

/-- In the loop over the characters: `xs` of the word's name and `ys` of the string are left. -/
structure Comparing (v : Bare) (b : ℤ) (codes : List ℤ) (cur : ℤ) (xs ys : List ℤ) (u : Bare) :
    Prop where
  searching : Searching v b codes 30 cur u
  count : u.regs "COUNT" = xs.length
  word : CellsAt v.cell (u.regs "WPTR") xs
  word_low : 0 ≤ u.regs "WPTR"
  word_high : u.regs "WPTR" + xs.length ≤ MEMORY_SIZE
  string : CellsAt v.cell (u.regs "SPTR") ys
  string_low : 0 ≤ u.regs "SPTR"
  string_high : u.regs "SPTR" + ys.length ≤ MEMORY_SIZE

/-- The characters are compared. -/
lemma Comparing.compares (loaded : Loaded (FIND_code b) b v) {xs ys : List ℤ}
    (same : xs.length = ys.length) (h : Comparing v b codes cur xs ys u) :
    ∃ t, Reaches bareRoutine u t ∧ Searching v b codes (if xs = ys then 46 else 37) cur t ∧
      t.regs "WLEN" = u.regs "WLEN" := by
  induction xs generalizing ys u with
  | nil =>
    obtain rfl : ys = [] := List.eq_nil_of_length_eq_zero same.symm
    have s := h.searching
    have here := loaded.kept s.popped.kept
    obtain ⟨t, p, st, pc, wlen⟩ := (find_same s.pc h.count).run here s.pc (by simp [FIND_code])
      (by omega)
    exact ⟨t, p.reaches, s.steady st pc, wlen⟩
  | cons x xs ih =>
    cases ys with
    | nil => cases same
    | cons y ys =>
      obtain ⟨s, count, ⟨first, word⟩, low, high, ⟨first', string⟩, low', high'⟩ := h
      simp only [List.length_cons, Nat.add_right_cancel_iff] at count high high' same
      have here := loaded.kept s.popped.kept
      obtain ⟨t, p, st, pc, wlen, wptr, sptr, count'⟩ :=
        (find_chars here.running s.pc (by omega) ⟨low, by omega⟩ ⟨low', by omega⟩).run here s.pc
          (by simp [FIND_code]) (by omega)
      rw [s.popped.cell, first, first'] at pc
      have s' := s.steady st pc
      by_cases eq : x = y
      · subst eq
        rw [if_pos rfl] at pc s'
        have there := loaded.kept s'.popped.kept
        obtain ⟨z, p', st', pc', wlen', wptr', sptr', count''⟩ :=
          (find_char_ok there.running pc).run there pc (by simp [FIND_code]) (by omega)
        rw [wptr] at wptr'
        rw [sptr] at sptr'
        obtain ⟨a, r, ha, keep⟩ := ih same (u := z) ⟨s'.steady st' pc', by omega,
          by rw [wptr']; exact word, by omega, by omega, by rw [sptr']; exact string, by omega,
          by omega⟩
        refine ⟨a, p.reaches.trans (p'.reaches.trans r), ?_, keep.trans (wlen'.trans wlen)⟩
        simpa using ha
      · rw [if_neg eq] at s'
        exact ⟨t, p.reaches, by simpa [eq] using s', wlen⟩

/-- The word looked at is tried. -/
lemma Searching.tries (loaded : Loaded (FIND_code b) b v) (w : WordAt v.cell e)
    (string : StringAt v.cell (v.cell v.sp) codes) (h : Searching v b codes 5 e.name_field u) :
    (¬Matches codes e ∧ ∃ t, Reaches bareRoutine u t ∧ Searching v b codes 5 e.link t) ∨
      (Matches codes e ∧ ∃ t, Reaches bareRoutine u t ∧
        Searching v b codes 46 e.name_field t ∧ t.regs "WLEN" = e.name.length) := by
  have lay := Layout.values
  have bounds := w.bounds
  obtain ⟨-, -, smudge, length, name⟩ := w.header
  obtain ⟨low, high, cells⟩ := string
  have here := loaded.kept h.popped.kept
  obtain ⟨u₁, p₁, st₁, pc₁⟩ := (find_loop here.running h.pc (by rw [h.cur]; omega)
    (by rw [h.cur]; omega)).run here h.pc (by simp [FIND_code]) (by omega)
  rw [h.cur, h.popped.cell, smudge] at pc₁
  have h₁ := h.steady st₁ pc₁
  by_cases visible : e.smudge = 0
  · rw [if_pos visible] at pc₁ h₁
    have at₁ := loaded.kept h₁.popped.kept
    obtain ⟨u₂, p₂, st₂, pc₂, wlen₂⟩ := (find_visible at₁.running pc₁ (by rw [h₁.cur]; omega)).run
      at₁ pc₁ (by simp [FIND_code]) (by omega)
    rw [h₁.cur, h₁.popped.cell, length, h₁.length] at pc₂
    rw [h₁.cur, h₁.popped.cell, length] at wlen₂
    have h₂ := h₁.steady st₂ pc₂
    by_cases eq : (e.name.length : ℤ) = codes.length
    · rw [if_pos eq] at pc₂ h₂
      have at₂ := loaded.kept h₂.popped.kept
      obtain ⟨u₃, p₃, st₃, pc₃, wlen₃, wptr, sptr, count⟩ := (find_compare at₂.running pc₂).run
        at₂ pc₂ (by simp [FIND_code]) (by omega)
      rw [h₂.cur] at wptr
      rw [h₂.name] at sptr
      rw [h₂.length, ← eq] at count
      have comparing : Comparing v b codes e.name_field (e.name.map ord) codes u₃ := by
        refine ⟨h₂.steady st₃ pc₃, ?_, ?_, ?_, ?_, ?_, ?_, ?_⟩
        · rw [count, List.length_map]
        · rw [wptr]
          exact name
        · omega
        · rw [wptr, List.length_map]
          omega
        · rw [sptr]
          exact cells.2
        · omega
        · omega
      obtain ⟨u₄, r, h₄, wlen₄⟩ := comparing.compares loaded (by rw [List.length_map]; omega)
      have reaches := p₁.reaches.trans (p₂.reaches.trans (p₃.reaches.trans r))
      by_cases named : e.name.map ord = codes
      · rw [if_pos named] at h₄
        exact .inr ⟨⟨visible, named⟩, u₄, reaches, h₄, wlen₄.trans (wlen₃.trans wlen₂)⟩
      · rw [if_neg named] at h₄
        obtain ⟨u₅, r', h₅⟩ := h₄.next loaded w (by simp)
        exact .inl ⟨fun m => named m.2, u₅, reaches.trans r', h₅⟩
    · rw [if_neg eq] at h₂
      obtain ⟨u₃, r, h₃⟩ := h₂.next loaded w (by simp)
      refine .inl ⟨fun m => eq ?_, u₃, p₁.reaches.trans (p₂.reaches.trans r), h₃⟩
      rw [← m.2, List.length_map]
  · rw [if_neg visible] at h₁
    obtain ⟨u₂, r, h₂⟩ := h₁.next loaded w (by simp)
    exact .inl ⟨fun m => visible m.1, u₂, p₁.reaches.trans r, h₂⟩

/-- The word that has been found is pushed. -/
lemma Searching.found (loaded : Loaded (FIND_code b) b v) (w : WordAt v.cell e)
    (room : DICTIONARY_TOP < v.sp) (h : Searching v b codes 46 e.name_field u)
    (wlen : u.regs "WLEN" = e.name.length) :
    ∃ t, Reaches bareRoutine u t ∧
      Pushed v (answer (some e.header)).1 (answer (some e.header)).2 t := by
  have lay := Layout.values
  have bounds := w.bounds
  obtain ⟨-, immediate, -⟩ := w.header
  have here := loaded.kept h.popped.kept
  have sp := h.popped.sp
  obtain ⟨x, p, kept, input, cell, sp', pc⟩ :=
    (find_match here.running h.pc (by omega) (by rw [h.cur]; omega) (by rw [h.cur]; omega)).run
      here h.pc (by simp [FIND_code]) (by omega)
  rw [h.cur, h.popped.cell, immediate] at pc
  have back : u.sp - 1 = v.sp := by omega
  have cfa : e.name_field + 1 + e.name.length = e.cfa := rfl
  rw [back, h.popped.cell, h.cur, wlen, cfa] at cell
  rw [back] at sp'
  have there := here.kept kept
  have all := h.popped.kept.trans kept
  -- The flag is pushed on top of the code field address.
  suffices last : ∃ t, Reaches bareRoutine x t ∧ Kept x t ∧ t.input = x.input ∧
      t.cell = Function.update x.cell (x.sp - 1) (if e.immediate then 1 else -1) ∧
      t.sp = x.sp - 1 ∧ t.pc = x.regs "NEXTREG" by
    obtain ⟨t, r, kept', input', cell', sp'', pc'⟩ := last
    refine ⟨t, p.reaches.trans r, all.trans kept', ?_, ?_, ?_, pc'.trans all.next⟩
    · rw [input', input, h.popped.input]
    · rw [cell', cell, sp']
      rfl
    · rw [sp'', sp']
  cases flag : e.immediate with
  | true =>
    rw [flag] at pc
    obtain ⟨t, p', post⟩ := (find_immediate there.running (by omega)).run there pc
      (by simp [FIND_code]) (by omega)
    exact ⟨t, p'.reaches, post⟩
  | false =>
    rw [flag] at pc
    obtain ⟨t, p', post⟩ := (find_normal there.running (by omega)).run there pc
      (by simp [FIND_code]) (by omega)
    exact ⟨t, p'.reaches, post⟩

/-- The words are tried one after another. -/
lemma Searching.searches (loaded : Loaded (FIND_code b) b v) (room : DICTIONARY_TOP < v.sp)
    (string : StringAt v.cell (v.cell v.sp) codes) {es : List Entry} {limit : ℤ}
    (linked : Linked es limit) (words : ∀ e ∈ es, WordAt v.cell e)
    (h : Searching v b codes 5 (latestOf es) u) :
    ∃ t, Reaches bareRoutine u t ∧
      Pushed v (answer ((es.find? fun e => Matches codes e).map Entry.header)).1
        (answer ((es.find? fun e => Matches codes e).map Entry.header)).2 t := by
  induction es generalizing limit u with
  | nil =>
    have here := loaded.kept h.popped.kept
    obtain ⟨x, p, st, pc⟩ := (find_end h.pc h.cur).run here h.pc (by simp [FIND_code]) (by omega)
    have h' := h.steady st pc
    have there := loaded.kept h'.popped.kept
    obtain ⟨t, p', pushed⟩ := (find_notfound loaded.running room h'.popped).run there pc
      (by simp [FIND_code]) (by omega)
    exact ⟨t, p.reaches.trans p'.reaches, pushed⟩
  | cons e es ih =>
    obtain ⟨w, others⟩ := List.forall_mem_cons.mp words
    rcases h.tries loaded w string with ⟨no, x, r, h'⟩ | ⟨yes, x, r, h', wlen⟩
    · rw [linked.1] at h'
      obtain ⟨t, r', pushed⟩ := ih linked.2.2 others h'
      refine ⟨t, r.trans r', ?_⟩
      rwa [List.find?_cons_of_neg (by simpa using no)]
    · obtain ⟨t, r', pushed⟩ := h'.found loaded w room wlen
      refine ⟨t, r.trans r', ?_⟩
      rwa [List.find?_cons_of_pos (by simpa using yes)]

end Runs

open MemoryDictionaryAdapter

variable {s : EmulatorService} {codes : List ℤ}

/-- Not hidden, and of this name. -/
def visible (codes : List ℤ) (h : DictionaryHeaderDto) : Bool :=
  !h.smudge && h.name.map ord = codes

/-- The search, in terms of the headers. -/
lemma find_entries (es : List Entry) (codes : List ℤ) :
    (es.find? fun e => Matches codes e).map Entry.header =
      (es.map Entry.header).find? (visible codes) := by
  rw [List.find?_map]
  congr 2
  funext e
  by_cases plain : e.smudge = 0 <;> simp [Matches, visible, Entry.header, plain]

/-- `FIND` in a dictionary. -/
lemma find_runs (h : Enters "FIND" s) (takes : TakesOne s) {d : Dictionary}
    (rep : Represents s.data.memory d) (fits : d.dp ≤ DICTIONARY_TOP)
    (string : StringAt s.data.memory.cell (top s) codes) :
    ∃ t, Reaches routine s t ∧
      Answers s t (answer ((d.entries.map Entry.header).find? (visible codes))).1
        (answer ((d.entries.map Entry.header).find? (visible codes))).2 := by
  have loaded := h.loaded 39 FIND_code rfl (.head _) rfl (by decide)
  have inside : Inside (top s) := ⟨string.low, by have high := string.high; omega⟩
  obtain ⟨u, p, popped, pc, name, length, cur⟩ :=
    (find_enter (v := bare s) h.running takes.one inside).run loaded (Int.add_zero _).symm
      (by simp [FIND_code]) (by omega)
  have words : ∀ e ∈ d.entries, WordAt (bare s).cell e := fun e mem =>
    ⟨(d.linked.bounds mem).1, Int.le_trans (d.linked.bounds mem).2 fits, rep.stored e mem⟩
  have searching : Searching (bare s) (bare s).pc codes 5 (latestOf d.entries) u :=
    ⟨popped, pc, name, length.trans string.cells.1, cur.trans rep.latest⟩
  obtain ⟨t, r, pushed⟩ := searching.searches loaded takes.room string d.linked words
  rw [find_entries] at pushed
  exact h.answers (p.reaches.trans r) pushed

/-- `FIND` returns the newest word of the name that is not hidden, with a flag that tells whether
    it is immediate. -/
theorem find_correct (h : Enters "FIND" s) (takes : TakesOne s) {headers : List DictionaryHeaderDto}
    (built : Built s.data.memory headers) (fits : s.data.memory.cell DP_ADDR ≤ DICTIONARY_TOP)
    (string : StringAt s.data.memory.cell (top s) codes) :
    ∃ t, Reaches routine s t ∧ Answers s t (answer (headers.find? (visible codes))).1
      (answer (headers.find? (visible codes))).2 := by
  obtain ⟨d, rep, rfl⟩ := built.represents (by decide)
  rw [rep.ready.dp] at fits
  exact find_runs h takes rep fits string

/-- A word that is looked up through its own name field. -/
lemma poised_find (value : ℤ) : ∃ s, Enters "FIND" s ∧ TakesOne s ∧
    Built s.data.memory [⟨"DUP", 0, false, value != 0, 15⟩] ∧
      s.data.memory.cell DP_ADDR ≤ DICTIONARY_TOP ∧
      StringAt s.data.memory.cell (top s) ((py "DUP").map ord) := by
  obtain ⟨m₁, e₁, rep₁, -⟩ := init_represents (.zeroed MEMORY_SIZE.toNat) (by decide)
  have fits : (Dictionary.empty.next "DUP" 22 [] false).stop ≤ MEMORY_SIZE.toNat := by
    decide +kernel
  obtain ⟨m₂, e₂, rep₂, -⟩ := append_word_ok rep₁ fits
  have built₂ := (Built.init e₁).word e₂
  have e₃ : ListMemoryAdapter.store 10 value m₂ = .ok () (m₂.set 10 value) :=
    ListMemoryAdapter.store_of_lt (by decide) (by decide)
  have built₃ := @Built.smudge _ m₂ _ [] _ _ value built₂ e₃
  have rep₃ := @Represents.mark _ m₂ _ [] [] _ _ rep₂ value
  have same : ∀ a, a = DP_ADDR ∨ a = LATEST_ADDR ∨
      DICTIONARY_BASE ≤ a ∧ a < (m₂.set 10 value).cell DP_ADDR →
        ((m₂.set 10 value).set 3071 11).cell a = (m₂.set 10 value).cell a := by
    intro a mem
    have dp : (m₂.set 10 value).cell DP_ADDR = 16 := rep₃.ready.dp
    have lay := Layout.values
    exact ListMemoryAdapter.cell_set_of_ne _ _ (by omega)
  have rep₄ := rep₃.other same
  have low : (3071 : ℤ) < DATA_STACK_BASE ∧ DICTIONARY_TOP < 3071 := by decide
  let s := poised 304 ((m₂.set 10 value).set 3071 11) ⟨3071, by decide, by decide⟩ []
  have on_top : top s = 11 := ListMemoryAdapter.cell_set_self _ _
    (by decide : (0 : ℤ) ≤ 3071) (by decide : (3071 : ℤ) < MEMORY_SIZE.toNat)
  refine ⟨s, poised_enters 39 rfl (.head _), ⟨low.1, low.2⟩, built₃.other same, ?_, ?_⟩
  · exact rep₄.ready.dp.trans_le (by decide : (16 : ℤ) ≤ 2048)
  · rw [on_top]
    exact ⟨by decide, by decide +kernel, (Entry.cellsAt_iff.mp (rep₄.stored _ (.head _))).2.2.2.1⟩

/-- The same word, not hidden. -/
theorem find_correct_visible : ∃ s t, Enters "FIND" s ∧
    Built s.data.memory [⟨"DUP", 0, false, false, 15⟩] ∧ Reaches routine s t ∧
      Answers s t 15 (-1) := by
  obtain ⟨s, h, takes, built, fits, string⟩ := poised_find 0
  obtain ⟨t, r, answers⟩ := find_correct h takes built fits string
  exact ⟨s, t, h, built, r, answers⟩

section Agreement

/-- `FIND` and the host's search agree: one finds a word if the other does, and then the code field
    address and the flag are those of the header. -/
def AgreeOn (found : Option DictionaryHeaderDto) (xt flag : ℤ) : Prop :=
  (flag ≠ 0 ↔ found.isSome) ∧ ∀ h ∈ found, xt = h.cfa ∧ (flag = 1 ↔ h.immediate)

/-- Code field addresses tell the words of a dictionary apart. -/
lemma headers_inj (d : Dictionary) {h h' : DictionaryHeaderDto}
    (mem : h ∈ d.entries.map Entry.header) (mem' : h' ∈ d.entries.map Entry.header)
    (same : h.cfa = h'.cfa) : h = h' := by
  have apart : (d.entries.map Entry.header).Pairwise fun h h' => h'.cfa < h.cfa := by
    refine List.pairwise_map.mpr (d.linked.pairwise.imp fun {e e'} before => ?_)
    simp only [Entry.stop, Entry.length_cells] at before
    simp only [Entry.header, Entry.cfa, Entry.name_field_eq]
    omega
  have distinct : ((d.entries.map Entry.header).map DictionaryHeaderDto.cfa).Nodup :=
    List.pairwise_map.mpr (apart.imp fun lt => (Int.ne_of_lt lt).symm)
  exact List.inj_on_of_nodup_map distinct mem mem' same

/-- A word that `FIND` may return has the name. -/
lemma visible_iff {name : PyStr} {h : DictionaryHeaderDto} :
    visible (name.map ord) h ↔ h.smudge = false ∧ h.name = name := by
  have inj : h.name.map ord = name.map ord ↔ h.name = name :=
    ⟨fun e => List.map_injective_iff.mpr ord_injective e, fun e => congrArg _ e⟩
  simp [visible, inj]

/-- The words that `FIND` may return for a name. -/
lemma visible_eq (name : PyStr) :
    visible (name.map ord) = fun h => !h.smudge && h.name = name := by
  funext h
  rw [Bool.eq_iff_iff, visible_iff]
  simp

/-- The newest word of a name is what `FIND` finds exactly if it is not hidden. -/
lemma agree_iff (d : Dictionary) (name : PyStr) :
    AgreeOn ((d.entries.map Entry.header).find? (·.name = name))
        (answer ((d.entries.map Entry.header).find? (visible (name.map ord)))).1
        (answer ((d.entries.map Entry.header).find? (visible (name.map ord)))).2 ↔
      ∀ h ∈ (d.entries.map Entry.header).find? (·.name = name), h.smudge = false := by
  cases newest : (d.entries.map Entry.header).find? (·.name = name) with
  | none =>
    have none : (d.entries.map Entry.header).find? (visible (name.map ord)) = none := by
      refine List.find?_eq_none.mpr fun h mem seen => ?_
      have other := List.find?_eq_none.mp newest h mem
      exact other (by simpa using (visible_iff.mp seen).2)
    simp [none, AgreeOn, answer]
  | some h =>
    obtain ⟨named, newer, older, split, others⟩ := List.find?_eq_some_iff_append.mp newest
    rw [decide_eq_true_iff] at named
    constructor
    · rintro ⟨found, agree⟩ h' ⟨⟩
      cases seen : (d.entries.map Entry.header).find? (visible (name.map ord)) with
      | none =>
        rw [seen] at found
        exact absurd rfl (found.mpr rfl)
      | some w =>
        rw [seen] at agree
        obtain rfl : w = h := headers_inj d (List.mem_of_find?_eq_some seen)
          (List.mem_of_find?_eq_some newest) (agree h rfl).1
        exact (visible_iff.mp (List.find?_some seen)).1
    · intro plain
      have seen : (d.entries.map Entry.header).find? (visible (name.map ord)) = some h := by
        refine List.find?_eq_some_iff_append.mpr
          ⟨visible_iff.mpr ⟨plain h rfl, named⟩, newer, older, split, fun a mem => ?_⟩
        have other := others a mem
        cases e : visible (name.map ord) a with
        | false => rfl
        | true => exact absurd (visible_iff.mp e).2 (by simpa using other)
      rw [seen]
      refine ⟨?_, ?_⟩
      · cases flag : h.immediate <;> simp [answer, flag]
      · rintro h' ⟨⟩
        refine ⟨rfl, ?_⟩
        cases flag : h.immediate <;> simp [answer, flag]

/-- The host's search returns the newest word of the name, hidden or not, and `FIND` the newest that
    is not hidden. They agree exactly if the newest word of the name is not hidden. -/
theorem find_against_host (h : Enters "FIND" s) (takes : TakesOne s)
    {headers : List DictionaryHeaderDto} (built : Built s.data.memory headers)
    (fits : s.data.memory.cell DP_ADDR ≤ DICTIONARY_TOP) {name : PyStr}
    (string : StringAt s.data.memory.cell (top s) (name.map ord)) {fuel : ℕ}
    (enough : headers.length < fuel) :
    ∃ t xt flag found, Reaches routine s t ∧ Answers s t xt flag ∧
      find fuel name s.data.memory = .ok (some found) s.data.memory ∧
      found = headers.find? (·.name = name) ∧
      (xt, flag) = answer (headers.find? fun h => !h.smudge && h.name = name) ∧
      (AgreeOn found xt flag ↔ ∀ h ∈ found, h.smudge = false) := by
  obtain ⟨d, rep, rfl⟩ := built.represents (by decide)
  rw [rep.ready.dp] at fits
  obtain ⟨t, r, answers⟩ := find_runs h takes rep fits string
  rw [List.length_map] at enough
  refine ⟨t, _, _, _, r, answers, find_run rep name enough, rfl, ?_, agree_iff d name⟩
  rw [visible_eq]

/-- A word that both find. -/
theorem find_against_host_visible : ∃ s t, Reaches routine s t ∧ Answers s t 15 (-1) ∧
    find 2 "DUP" s.data.memory = .ok (some (some ⟨"DUP", 0, false, false, 15⟩)) s.data.memory := by
  obtain ⟨s, h, takes, built, fits, string⟩ := poised_find 0
  obtain ⟨t, xt, flag, found, r, answers, run, host, kernel, -⟩ :=
    find_against_host h takes built fits string (Nat.lt_succ_self 1 : 1 < 2)
  have e : (xt, flag) = (15, -1) := kernel.trans (by decide +kernel)
  obtain ⟨rfl, rfl⟩ := Prod.mk.inj e
  rw [host] at run
  exact ⟨s, t, r, answers, run⟩

/-- A hidden word that only the host finds. -/
theorem find_misses_hidden : ∃ s t xt flag found, Enters "FIND" s ∧ TakesOne s ∧
    Built s.data.memory [⟨"DUP", 0, false, true, 15⟩] ∧
    s.data.memory.cell DP_ADDR ≤ DICTIONARY_TOP ∧
    StringAt s.data.memory.cell (top s) ((py "DUP").map ord) ∧ Reaches routine s t ∧
    Answers s t xt flag ∧ find 2 "DUP" s.data.memory = .ok (some found) s.data.memory ∧
      ¬AgreeOn found xt flag := by
  obtain ⟨s, h, takes, built, fits, string⟩ := poised_find 1
  obtain ⟨d, rep, eq⟩ := built.represents (by decide)
  have dp := rep.ready.dp.symm.trans_le fits
  obtain ⟨t, r, answers⟩ := find_runs h takes rep dp string
  have enough : d.entries.length < 2 := by
    rw [← List.length_map Entry.header, eq]
    decide
  have run := find_run rep "DUP" enough
  refine ⟨s, t, _, _, _, h, takes, built, fits, string, r, answers, run, fun agree => ?_⟩
  have plain := (agree_iff d "DUP").mp agree
  rw [eq] at plain
  exact absurd (plain ⟨"DUP", 0, false, true, 15⟩ (by decide +kernel)) (by decide)

end Agreement

end MinCpuForth.Kernel
