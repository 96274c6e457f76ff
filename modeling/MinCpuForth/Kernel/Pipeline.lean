import MinCpuForth.Kernel.Find
import MinCpuForth.Kernel.Number
import MinCpuForth.Kernel.Returning
import MinCpuForth.Kernel.ThreadedCode
import MinCpuForth.Kernel.Word

/-!
# From a typed token to the stack

`WORD`, `FIND` and `NUMBER` in one thread. They hand the token on through the buffer of `WORD`, which
lies between the dictionary and the data stack.
-/

namespace MinCpuForth.Kernel
open Python Domain Layout Adapters Emulator Lib KernelBuilder MemoryDictionaryAdapter
open EmulatorService View Decimal Routines

section Threads

/-! What a routine does, as a step of the thread that calls it. -/

variable {s u : EmulatorService} {t : Threaded} {label : PyStr} {mem mem' : ℤ → ℤ} {ip a : ℤ}
  {ds : List ℤ}

/-- The cell at `ip` calls a word whose routine has this label. The cell and the word's code field
    lie below the token buffer. -/
structure Invokes (mem : ℤ → ℤ) (ip : ℤ) (label : PyStr) : Prop where
  ip_low : 0 ≤ ip
  ip_high : ip < WORD_BUFFER_BASE
  cfa_low : 0 ≤ mem ip
  cfa_high : mem ip < WORD_BUFFER_BASE
  label : kernelLabels.lookup label = some (mem (mem ip))

/-- A memory with the same cells below the token buffer. -/
lemma Invokes.congr (h : Invokes mem ip label)
    (same : ∀ i, i < WORD_BUFFER_BASE → mem' i = mem i) : Invokes mem' ip label := by
  obtain ⟨ip_low, ip_high, cfa_low, cfa_high, label⟩ := h
  have cell := same ip ip_high
  have code_field := same (mem ip) cfa_high
  refine ⟨ip_low, ip_high, ?_, ?_, ?_⟩
  · rwa [cell]
  · rwa [cell]
  · rwa [cell, code_field]

lemma Invokes.below (h : Invokes mem ip label) : Below ip ∧ Below (mem ip) := by
  have lay := Layout.values
  obtain ⟨ip_low, ip_high, cfa_low, cfa_high, -⟩ := h
  exact ⟨⟨ip_low, by omega⟩, ⟨cfa_low, by omega⟩⟩

/-- `NEXT` enters the routine. -/
lemma AtNext.enters (h : AtNext (view s) t) (invokes : Invokes t.mem t.ip label) :
    ∃ u, Reaches advance s u ∧ Enters label u ∧ Entered (view u) t := by
  obtain ⟨below, below'⟩ := invokes.below
  obtain ⟨v, r, entered⟩ := next_run h below below'
  obtain ⟨u, r', rfl⟩ := view_simulates.reaches r
  refine ⟨u, r', ⟨entered.program, entered.runs.running, ?_, ?_⟩, entered⟩
  · rw [invokes.label]
    exact congrArg some entered.pc.symm
  · rw [lookup_NEXT]
    exact congrArg some entered.next.symm

/-- A routine that has returned has come back to the thread. -/
lemma Entered.resumes (h : Entered (view s) t) (returns : Returns s u)
    (rs : u.data.contents.rs = s.data.contents.rs) :
    AtNext (view u)
      { t with
        ip := t.ip + 1, ds := (view u).ds, mem := (view u).mem, input := (view u).input } where
  runs := runs_view returns.running
  program := returns.program.trans h.program
  pc := Option.some.inj (returns.pc.symm.trans lookup_NEXT)
  next := returns.next.trans h.next
  ip := by
    rw [← h.ip]
    exact returns.ip
  ds := rfl
  rs := rs.trans h.rs
  mem := rfl
  input := rfl
  output := returns.output.trans h.output

/-- Where the data stack holds a cell and has room for another. -/
lemma takes_one (stack : s.data.contents.ds = a :: ds) (room : ds.length + 2 ≤ 1024) :
    TakesOne s ∧ top s = a := by
  have lay := Layout.values
  obtain ⟨below, pointer, cell, rest⟩ := DataPath.below_top stack
  have len := congrArg List.length rest
  rw [DownwardStackAdapter.length_contents] at len
  have place := below.pointer_eq
  exact ⟨⟨by omega, by omega⟩, cell.symm⟩

/-- A routine that replaces the top cell by two. -/
lemma Entered.answers {x y : ℤ} (h : Entered (view s) t) (answers : Answers s u x y)
    (stack : t.ds = a :: ds) : AtNext (view u) { t with ip := t.ip + 1, ds := y :: x :: ds } := by
  have lay := Layout.values
  have stack' : s.data.contents.ds = a :: ds := h.ds.trans stack
  have floor := u.data.data_stack.floor_le
  have pointer := answers.pointer
  obtain ⟨below, above, -⟩ := DataPath.below_top stack'
  have top := below.le_base
  have floor' := s.data.return_stack.floor_le
  have cell : ∀ i, i ≠ s.data.data_stack.pointer → i ≠ s.data.data_stack.pointer - 1 →
      u.data.memory.cell i = s.data.memory.cell i := by
    intro i ne ne'
    rw [answers.cell, Function.update_of_ne ne', Function.update_of_ne ne]
  have pushed : u.data.contents.ds = y :: x :: ds := by
    have grown := DataPath.ds_pushed stack' pointer fun i above => cell i (by omega) (by omega)
    rw [grown, pointer, answers.cell, Function.update_self, Function.update_of_ne (by omega),
      Function.update_self]
  have rs : u.data.contents.rs = s.data.contents.rs :=
    DataPath.rs_kept answers.return_pointer fun i le => cell i (by omega) (by omega)
  have mem : u.data.contents.mem = s.data.contents.mem :=
    DataPath.mem_kept fun i _ lt => cell i (by omega) (by omega)
  have resumes := h.resumes answers.toReturns rs
  have e : (view u).ds = y :: x :: ds := pushed
  have e' : (view u).mem = t.mem := mem.trans h.mem
  have e'' : (view u).input = t.input := answers.input.trans h.input
  rwa [e, e', e''] at resumes

/-- A word on the data stack follows its stack comment. -/
lemma AtNext.stack_word {k : CodeWordDto} {w : StackWord} (listed : k ∈ CODE_WORDS)
    (same : k.name = w.name) (finite : w ≠ .MUL) (h : AtNext (view s) t)
    (invokes : Invokes t.mem t.ip k.routine_label)
    (comment : w.comment t.ds t.rs = some (ds, t.rs)) (room : ds.length ≤ 1024) :
    ∃ u, Reaches advance s u ∧ AtNext (view u) { t with ip := t.ip + 1, ds := ds } := by
  have rs_le : t.rs.length ≤ 1024 := by
    rw [← h.rs]
    exact h.runs.rs_le
  have verdict : w.verdict t.ds t.rs 0 = .ok ds t.rs := by
    have fit : ds.length ≤ 1024 ∧ 0 + t.rs.length ≤ 1024 := ⟨room, by omega⟩
    rw [StackWord.verdict, comment]
    exact (if_neg fun endless => finite endless.1).trans (if_pos fit)
  obtain ⟨v, r, enters, entered⟩ := h.enters invokes
  have meets := stackWord_meets listed same enters
  have hds : v.data.contents.ds = t.ds := entered.ds
  have hrs : v.data.contents.rs = t.rs := entered.rs
  rw [hds, hrs, verdict] at meets
  obtain ⟨z, r', next⟩ := entered.performs meets fun ds' rs' e => by
    cases e
    exact ⟨room, rs_le⟩
  obtain ⟨u, r'', rfl⟩ := view_simulates.reaches r'
  exact ⟨u, r.trans r'', next⟩

/-- Below the stacks, the view shows the memory. -/
lemma view_mem {i : ℤ} (low : 0 ≤ i) (high : i < DICTIONARY_TOP) :
    (view s).mem i = s.data.memory.cell i := if_pos ⟨low, high⟩

/-- `WORD` reads a token into its buffer. -/
lemma AtNext.word {delim : ℤ} {text : PyStr} {gap : ℕ} {rest : List ℤ} (h : AtNext (view s) t)
    (invokes : Invokes t.mem t.ip "WORD") (stack : t.ds = delim :: ds) (tok : IsToken delim text)
    (input : t.input = List.replicate gap delim ++ text.map ord ++ delim :: rest) :
    ∃ u, Reaches advance s u ∧
      AtNext (view u)
        { t with
          ip := t.ip + 1, ds := WORD_BUFFER_BASE :: ds, mem := (view u).mem, input := rest } ∧
      (∀ i, i < WORD_BUFFER_BASE → (view u).mem i = t.mem i) ∧
      CellsAt (view u).mem WORD_BUFFER_BASE (MemoryCountedStringAdapter.cells text) := by
  have lay := Layout.values
  have fits := tok.fits
  obtain ⟨v, r, enters, entered⟩ := h.enters invokes
  have stack' : v.data.contents.ds = delim :: ds := entered.ds.trans stack
  obtain ⟨below, above, cell, -⟩ := DataPath.below_top stack'
  have low := v.data.data_stack.floor_le
  have high := below.le_base
  have low' := v.data.return_stack.floor_le
  obtain ⟨u, r', reads, cells⟩ :=
    word_reads_cells enters (by omega) cell.symm tok (entered.input.trans input)
  have pointer := reads.pointer
  have on_top : u.data.memory.cell u.data.data_stack.pointer = WORD_BUFFER_BASE := reads.result
  have replaced : u.data.contents.ds = WORD_BUFFER_BASE :: ds := by
    have same := DataPath.ds_replaced stack' pointer fun i past =>
      reads.frame i (.inr (by omega)) (by omega)
    rwa [on_top] at same
  have rs : u.data.contents.rs = v.data.contents.rs :=
    DataPath.rs_kept reads.return_pointer fun i le => reads.frame i (.inr (by omega)) (by omega)
  have resumes := entered.resumes reads.toReturns rs
  have e : (view u).ds = WORD_BUFFER_BASE :: ds := replaced
  have e' : (view u).input = rest := reads.input
  rw [e, e'] at resumes
  refine ⟨u, r.trans r'.of_upTo, resumes, fun i lt => ?_, ?_⟩
  · rw [← entered.mem]
    by_cases neg : i < 0
    · have out : ¬(0 ≤ i ∧ i < DICTIONARY_TOP) := by omega
      exact (if_neg out).trans (if_neg out).symm
    · rw [view_mem (by omega) (by omega), view_mem (by omega) (by omega)]
      exact reads.frame i (.inl lt) (by omega)
  · refine cells.congr fun i le lt => view_mem (by omega) ?_
    rw [MemoryCountedStringAdapter.length_cells] at lt
    omega

/-- The counted string that a routine finds at the address on the stack. -/
lemma string_of_view {codes : List ℤ} (same : (view s).mem = t.mem) (on_top : top s = a)
    (low : 0 ≤ a) (high : a + codes.length < DICTIONARY_TOP)
    (string : CellsAt t.mem a (codes.length :: codes)) :
    StringAt s.data.memory.cell (top s) codes := by
  have lay := Layout.values
  rw [on_top]
  refine ⟨low, by omega, ?_⟩
  rw [← same] at string
  refine string.congr fun i le lt => (view_mem (by omega) ?_).symm
  rw [List.length_cons] at lt
  omega

/-- `NUMBER` converts a counted string. -/
lemma AtNext.number {codes : List ℤ} (h : AtNext (view s) t)
    (invokes : Invokes t.mem t.ip "NUMBER") (stack : t.ds = a :: ds) (room : ds.length + 2 ≤ 1024)
    (low : 0 ≤ a) (high : a + codes.length < DICTIONARY_TOP)
    (string : CellsAt t.mem a (codes.length :: codes)) :
    ∃ u, Reaches advance s u ∧
      AtNext (view u)
        { t with
          ip := t.ip + 1, ds := (parsed (signed? codes)).2 :: (parsed (signed? codes)).1 :: ds } := by
  obtain ⟨v, r, enters, entered⟩ := h.enters invokes
  obtain ⟨takes, on_top⟩ := takes_one (entered.ds.trans stack) room
  have found := string_of_view entered.mem on_top low high string
  have loaded := enters.loaded 37 Routines.NUMBER_code rfl (.head _) rfl (by decide)
  obtain ⟨x, r', pushed⟩ := number_runs (v := bare v) loaded takes.one takes.room found
  obtain ⟨u, r'', answers⟩ := enters.answers r' pushed
  exact ⟨u, r.trans r''.of_upTo, entered.answers answers stack⟩

/-- `FIND` looks a counted string up. -/
lemma AtNext.find {n : ℕ} {m : ListMemoryAdapter n} {d : Dictionary} (rep : Represents m d)
    (fits : d.dp ≤ DICTIONARY_TOP) (same : ∀ i, 0 ≤ i → i < d.dp → t.mem i = m.cell i)
    {codes : List ℤ} (h : AtNext (view s) t)
    (invokes : Invokes t.mem t.ip "FIND") (stack : t.ds = a :: ds) (room : ds.length + 2 ≤ 1024)
    (low : 0 ≤ a) (high : a + codes.length < DICTIONARY_TOP)
    (string : CellsAt t.mem a (codes.length :: codes)) :
    ∃ u, Reaches advance s u ∧
      AtNext (view u)
        { t with
          ip := t.ip + 1
          ds := (answer ((d.entries.map Entry.header).find? (visible codes))).2 ::
            (answer ((d.entries.map Entry.header).find? (visible codes))).1 :: ds } := by
  have lay := Layout.values
  have base := d.linked.base_le
  obtain ⟨v, r, enters, entered⟩ := h.enters invokes
  obtain ⟨takes, on_top⟩ := takes_one (entered.ds.trans stack) room
  have found := string_of_view entered.mem on_top low high string
  have there : Represents v.data.memory d := by
    refine rep.copied (by omega) fun i dictionary => ?_
    rw [rep.ready.dp] at dictionary
    rw [← same i (by omega) (by omega), ← entered.mem, view_mem (by omega) (by omega)]
  obtain ⟨u, r', answers⟩ := find_runs enters takes there fits found
  exact ⟨u, r.trans r'.of_upTo, entered.answers answers stack⟩

end Threads

section Image

variable {n : ℕ} {m m' : ListMemoryAdapter n} {d d' : Dictionary} {word_cfas : PyDict ℤ}
  {colon_words : List ColonWordDto} {k : CodeWordDto} {mem : ℤ → ℤ} {ip : ℤ}

/-- The name of a CODE word denotes it, unless a colon word has taken the name over. -/
lemma laidOut_code_word (laid : laidOut d [] (specs colon_words) = .ok (d', word_cfas))
    (listed : k ∈ CODE_WORDS) (own : ∀ w ∈ colon_words, w.name ≠ k.name) :
    ∃ entry ∈ d'.entries, word_cfas.lookup k.name = some entry.cfa ∧
      kernelLabels.lookup k.routine_label = some entry.code_field := by
  obtain ⟨before, after, split⟩ := List.append_of_mem listed
  have all : specs colon_words = before.map .code ++
      .code k :: (after.map .code ++ colon_words.map .colon) := by
    rw [specs, split]
    simp
  have distinct := code_words_nodup
  rw [split, List.map_append, List.map_cons] at distinct
  have fresh := (List.nodup_cons.mp distinct.of_append_right).1
  have other : ∀ word ∈ after.map WordSpecDto.code ++ colon_words.map WordSpecDto.colon,
      word.name ≠ k.name := by
    intro word mem
    rcases List.mem_append.mp mem with code | colon
    · obtain ⟨w, later, rfl⟩ := List.mem_map.mp code
      intro same
      exact fresh (same ▸ List.mem_map_of_mem later)
    · obtain ⟨w, later, rfl⟩ := List.mem_map.mp colon
      exact own w later
  rw [all] at laid
  obtain ⟨d₁, cfas, op, entry, placed⟩ := laidOut_placed laid
  obtain ⟨routine, label, rfl⟩ := appendOf_code placed.append
  refine ⟨entry, placed.mem, ?_, ?_⟩
  · rw [laidOut_lookup_old placed.rest other, PyDict.lookup_setItem, placed.cfa]
    exact if_pos rfl
  · obtain rfl : d₁.next k.name routine [] k.immediate = entry := (List.cons.inj placed.first).1
    rw [label_index] at label
    split at label
    · rename_i found
      cases label
      exact found
    · cases label

/-- A cell that holds what the name of such a word denotes calls the kernel's routine. -/
lemma invokes_code_word (laid : laidOut d [] (specs colon_words) = .ok (d', word_cfas)) {count : ℕ}
    (rep : Represents m' (d'.skip count)) (fits : m'.cell DP_ADDR ≤ WORD_BUFFER_BASE)
    (same : ∀ i, 0 ≤ i → i < m'.cell DP_ADDR → mem i = m'.cell i) (listed : k ∈ CODE_WORDS)
    (own : ∀ w ∈ colon_words, w.name ≠ k.name) (low : 0 ≤ ip) (high : ip < m'.cell DP_ADDR)
    (found : word_cfas.lookup k.name = some (mem ip)) : Invokes mem ip k.routine_label := by
  have lay := Layout.values
  obtain ⟨entry, stored, denotes, label⟩ := laidOut_code_word laid listed own
  have cfa := Option.some.inj (denotes.symm.trans found)
  obtain ⟨above, below⟩ := cfa_bounds rep stored
  have code_field : m'.cell entry.cfa = entry.code_field :=
    (Entry.cellsAt_iff.mp (rep.stored entry stored)).2.2.2.2.1
  refine ⟨low, by omega, by omega, by omega, ?_⟩
  rw [label, ← code_field, ← cfa, same entry.cfa (by omega) (by omega)]

/-- What such a cell calls. -/
lemma Invokes.code {name : PyStr} {code : ℤ → List InstructionDto} (runs : RunsCode name code)
    (listed : k ∈ CODE_WORDS) (same : k.name = name) (h : Invokes mem ip k.routine_label) :
    CodeAt kernelProgram (mem (mem ip)) (code (mem (mem ip))) := by
  have found : label_index kernelLabels k.routine_label = .ok (mem (mem ip)) := by
    rw [label_index, h.label]
  exact (runs.codeAt listed same found).2

end Image

section Pipeline

/-- `LIT d WORD DUP FIND ROT NUMBER`, as the items of a boot thread. -/
def pipeline (delim : ℤ) : List Item :=
  [.lit delim, .word "WORD", .word "DUP", .word "FIND", .word "ROT", .word "NUMBER"]

/-- The names in the boot thread. -/
def PIPELINE : List PyStr := ["LIT", "WORD", "DUP", "FIND", "ROT", "NUMBER", "BYE"]

/-- The boot thread from `ip` on, where its names denote the kernel's words. -/
structure PipelineAt (mem : ℤ → ℤ) (ip delim : ℤ) : Prop where
  lit : Invokes mem ip "LIT"
  delim : mem (ip + 1) = delim
  word : Invokes mem (ip + 2) "WORD"
  dup : Invokes mem (ip + 3) "DUP"
  find : Invokes mem (ip + 4) "FIND"
  rot : Invokes mem (ip + 5) "ROT"
  number : Invokes mem (ip + 6) "NUMBER"
  bye : Invokes mem (ip + 7) "BYE"

namespace PipelineAt

variable {s : EmulatorService} {mem mem' : ℤ → ℤ} {ip delim a x y : ℤ}
  {ds rs input rest output codes : List ℤ} {text : PyStr} {gap : ℕ}

/-- A memory with the same cells below the token buffer. -/
lemma congr (h : PipelineAt mem ip delim) (lt : ip + 1 < WORD_BUFFER_BASE)
    (same : ∀ i, i < WORD_BUFFER_BASE → mem' i = mem i) : PipelineAt mem' ip delim :=
  ⟨h.lit.congr same, (same _ lt).trans h.delim, h.word.congr same, h.dup.congr same,
    h.find.congr same, h.rot.congr same, h.number.congr same, h.bye.congr same⟩

/-- `LIT d WORD`. -/
lemma reads (thread : PipelineAt mem ip delim)
    (h : AtNext (view s) ⟨ip, ds, rs, mem, input, output⟩) (room : ds.length < 1024)
    (tok : IsToken delim text)
    (typed : input = List.replicate gap delim ++ text.map ord ++ delim :: rest) :
    ∃ w, Reaches advance s w ∧
      AtNext (view w) ⟨ip + 3, WORD_BUFFER_BASE :: ds, rs, (view w).mem, rest, output⟩ ∧
      (∀ i, i < WORD_BUFFER_BASE → (view w).mem i = mem i) ∧
      CellsAt (view w).mem WORD_BUFFER_BASE (MemoryCountedStringAdapter.cells text) := by
  have lay := Layout.values
  have last := thread.word.ip_high
  have first := thread.lit.ip_low
  obtain ⟨below, below'⟩ := thread.lit.below
  have lit := lit_run h below ⟨by simp only; omega, by simp only; omega⟩ below'
    (thread.lit.code LIT_runs (k := LIT_primitive.word)
      (List.mem_map_of_mem (List.mem_of_getElem? (i := 0) rfl)) rfl)
  rw [if_pos room] at lit
  obtain ⟨v, r, next⟩ := lit
  simp only [thread.delim] at next
  obtain ⟨s₁, r₁, rfl⟩ := view_simulates.reaches r
  obtain ⟨w, r₂, next', frame, cells⟩ := next.word thread.word rfl tok typed
  have e : ip + 2 + 1 = ip + 3 := by omega
  rw [e] at next'
  exact ⟨w, r₁.trans r₂, next', frame, cells⟩

/-- `DUP FIND`. -/
lemma looks_up {n : ℕ} {m : ListMemoryAdapter n} {d : Dictionary} (rep : Represents m d)
    (fits : d.dp ≤ DICTIONARY_TOP) (same : ∀ i, 0 ≤ i → i < d.dp → mem i = m.cell i)
    (thread : PipelineAt mem ip delim)
    (h : AtNext (view s) ⟨ip + 3, a :: ds, rs, mem, input, output⟩) (room : ds.length + 3 ≤ 1024)
    (low : 0 ≤ a) (high : a + codes.length < DICTIONARY_TOP)
    (string : CellsAt mem a (codes.length :: codes)) :
    ∃ f, Reaches advance s f ∧
      AtNext (view f) ⟨ip + 5, (answer ((d.entries.map Entry.header).find? (visible codes))).2 ::
        (answer ((d.entries.map Entry.header).find? (visible codes))).1 :: a :: ds, rs, mem, input,
        output⟩ := by
  obtain ⟨v, r, next⟩ := h.stack_word (k := DUP_primitive.word) (w := .DUP)
    (List.mem_map_of_mem (List.mem_of_getElem? (i := 3) rfl)) rfl nofun thread.dup rfl
    (by simp only [List.length_cons]; omega)
  have e : ip + 3 + 1 = ip + 4 := by omega
  rw [e] at next
  obtain ⟨f, r', next'⟩ := next.find rep fits same thread.find rfl
    (by rw [List.length_cons]; omega) low high string
  have e' : ip + 4 + 1 = ip + 5 := by omega
  rw [e'] at next'
  exact ⟨f, r.trans r', next'⟩

/-- `ROT NUMBER BYE`. -/
lemma converts (thread : PipelineAt mem ip delim)
    (h : AtNext (view s) ⟨ip + 5, y :: x :: a :: ds, rs, mem, input, output⟩)
    (room : ds.length + 4 ≤ 1024) (low : 0 ≤ a) (high : a + codes.length < DICTIONARY_TOP)
    (string : CellsAt mem a (codes.length :: codes)) :
    ∃ u, Halts advance s u ∧
      (view u).ds = (parsed (signed? codes)).2 :: (parsed (signed? codes)).1 :: y :: x :: ds ∧
      (view u).rs = rs ∧ (view u).mem = mem ∧ (view u).input = input ∧
      (view u).output = output := by
  obtain ⟨v, r, next⟩ := h.stack_word (k := ROT_primitive.word) (w := .ROT)
    (List.mem_map_of_mem (List.mem_of_getElem? (i := 7) rfl)) rfl nofun thread.rot rfl
    (by simp only [List.length_cons]; omega)
  have e : ip + 5 + 1 = ip + 6 := by omega
  rw [e] at next
  obtain ⟨w, r', next'⟩ := next.number thread.number rfl
    (by simp only [List.length_cons]; omega) low high string
  have e' : ip + 6 + 1 = ip + 7 := by omega
  rw [e'] at next'
  obtain ⟨below, below'⟩ := thread.bye.below
  obtain ⟨u, halts, ends⟩ := bye_run next' below below'
    (thread.bye.code BYE_runs (k := BYE_primitive.word)
      (List.mem_map_of_mem (List.mem_of_getElem? (i := 2) rfl)) rfl)
  obtain ⟨z, halts', rfl⟩ := view_simulates.halts halts
  exact ⟨z, (r.trans r').halts halts', ends⟩

end PipelineAt

variable {n : ℕ} {m m' : ListMemoryAdapter n} {d d' : Dictionary} {word_cfas : PyDict ℤ}
  {colon_words : List ColonWordDto}

/-- What a build lays down is such a thread, unless a colon word has taken one of the names over. -/
lemma built_threads (laid : laidOut d [] (specs colon_words) = .ok (d', word_cfas)) {delim : ℤ}
    {cells : List ℤ} (hb : bootCells word_cfas (bootThread (pipeline delim)) = .ok cells)
    (rep : Represents m' (d'.skip cells.length)) (boot_at : CellsAt m'.cell d'.dp cells)
    (fits : m'.cell DP_ADDR ≤ WORD_BUFFER_BASE) (own : ∀ w ∈ colon_words, w.name ∉ PIPELINE)
    {mem : ℤ → ℤ} (same : ∀ i, 0 ≤ i → i < m'.cell DP_ADDR → mem i = m'.cell i) :
    PipelineAt mem d'.dp delim := by
  have lay := Layout.values
  have base := d'.linked.base_le
  have stop : m'.cell DP_ADDR = d'.dp + cells.length := rep.ready.dp
  have there : CellsAt mem d'.dp cells := boot_at.congr fun i le lt => same i (by omega) (by omega)
  obtain ⟨len, ⟨lit, literal, word, dup, find, rot, number, -⟩, bye⟩ := boot_laid hb there
  have size : itemsSize (pipeline delim) = 7 := rfl
  rw [size] at len bye
  have names : ∀ name ∈ PIPELINE, ∀ w ∈ colon_words, w.name ≠ name :=
    fun name listed w mem e => own w mem (e ▸ listed)
  simp only [PIPELINE, List.forall_mem_cons] at names
  obtain ⟨own_lit, own_word, own_dup, own_find, own_rot, own_number, own_bye, -⟩ := names
  have invokes : ∀ (k : ℕ) {p : KernelPrimitive}, PRIMITIVES[k]? = some p →
      (∀ w ∈ colon_words, w.name ≠ p.word.name) → ∀ {ip : ℤ} (offset : ℤ), ip = d'.dp + offset →
        0 ≤ offset → offset < 8 → word_cfas.lookup p.word.name = some (mem ip) →
          Invokes mem (d'.dp + offset) p.word.routine_label := by
    rintro k p listed own _ offset rfl low high found
    exact invokes_code_word laid rep fits same (List.mem_map_of_mem (List.mem_of_getElem? listed))
      own (by omega) (by omega) found
  constructor
  · have first := invokes 0 rfl own_lit 0 (by omega) (by omega) (by omega) lit
    rwa [Int.add_zero] at first
  · exact literal
  · exact invokes 37 rfl own_word 2 rfl (by omega) (by omega) word
  · exact invokes 3 rfl own_dup 3 (by omega) (by omega) (by omega) dup
  · exact invokes 38 rfl own_find 4 (by omega) (by omega) (by omega) find
  · exact invokes 7 rfl own_rot 5 (by omega) (by omega) (by omega) rot
  · exact invokes 36 rfl own_number 6 (by omega) (by omega) (by omega) number
  · exact invokes 2 rfl own_bye 7 rfl (by omega) (by omega) bye

/-- `WORD` has returned to the boot thread. -/
structure AfterWord (image : KernelImageDto) (text : PyStr) (s w : EmulatorService) : Prop where
  between : Between w (image.boot_ip + 3) s.data.contents.rs
  stack : w.data.contents.ds = WORD_BUFFER_BASE :: s.data.contents.ds
  /-- The dictionary is intact. -/
  dictionary : ∀ i, 0 ≤ i → i < WORD_BUFFER_BASE → w.data.memory.cell i = s.data.memory.cell i
  /-- The token buffer holds the token. -/
  token : MemoryCountedStringAdapter.read WORD_BUFFER_BASE w.data.memory = .ok text w.data.memory

/-- `FIND` has returned to the boot thread. -/
structure AfterFind (image : KernelImageDto) (xt flag : ℤ) (s w f : EmulatorService) : Prop where
  between : Between f (image.boot_ip + 5) s.data.contents.rs
  stack : f.data.contents.ds = flag :: xt :: WORD_BUFFER_BASE :: s.data.contents.ds
  /-- The dictionary and the token buffer are intact. -/
  memory : ∀ i, 0 ≤ i → i < DICTIONARY_TOP → f.data.memory.cell i = w.data.memory.cell i

/-- Between two words of a thread. -/
lemma AtNext.between {s : EmulatorService} {t : Threaded} (h : AtNext (view s) t) :
    Between s t.ip t.rs := ⟨h.program, h.runs.running, h.pc, h.next, h.ip, h.rs⟩

/-- The boot thread `LIT d WORD DUP FIND ROT NUMBER BYE` on a token. For every memory and dictionary
    that the build starts from, and all colon words that take none of these names over, if the
    dictionary stays below the token buffer; on any machine that holds the dictionary and has room
    for four cells on its data stack; and for every token, after any number of delimiters and before
    one. The run halts with what `FIND` and `NUMBER` make of the token; `WORD` has left the
    dictionary intact, and `FIND` the token. -/
theorem token_pipeline [UnicodeData] (rep : Represents m d) {image : KernelImageDto} {delim : ℤ}
    (run : build colon_words (bootThread (pipeline delim)) m = .ok image m')
    (fits : m'.cell DP_ADDR ≤ WORD_BUFFER_BASE) (own : ∀ w ∈ colon_words, w.name ∉ PIPELINE)
    {s : EmulatorService}
    (holds : ∀ i, 0 ≤ i → i < m'.cell DP_ADDR → s.data.memory.cell i = m'.cell i)
    (room : s.data.contents.ds.length + 4 ≤ 1024) {text : PyStr} (tok : IsToken delim text)
    {gap : ℕ} {rest : List ℤ}
    (typed : s.char_input = List.replicate gap delim ++ text.map ord ++ delim :: rest) :
    ∃ hs : List DictionaryHeaderDto,
      (∀ fuel, hs.length < fuel → headers fuel m' = .ok (some hs) m') ∧
      ∃ (w f u : EmulatorService) (xt flag number ok : ℤ),
        (xt, flag) = answer (hs.find? fun h => !h.smudge && h.name = text) ∧
        (number, ok) = parsed (signed? (text.map ord)) ∧
        Reaches advance (boot s image) w ∧ AfterWord image text s w ∧
        Reaches advance w f ∧ AfterFind image xt flag s w f ∧
        Halts advance f u ∧
        u.data.contents.ds = ok :: number :: flag :: xt :: s.data.contents.ds ∧
        u.data.contents.rs = s.data.contents.rs ∧ u.char_input = rest ∧
        u.char_output = s.char_output := by
  have lay := Layout.values
  obtain ⟨d', word_cfas, cells, laid, hb, rfl, rep', boot_at⟩ := build_inv rep run
  have stop : m'.cell DP_ADDR = (d'.skip cells.length).dp := rep'.ready.dp
  have short := tok.fits
  have same : ∀ i, 0 ≤ i → i < m'.cell DP_ADDR → s.data.contents.mem i = m'.cell i :=
    fun i low high => (view_mem low (by omega)).trans (holds i low high)
  have thread := built_threads laid hb rep' boot_at fits own same
  -- `START` goes to the boot thread.
  let booted := boot s ⟨kernelProgram, word_cfas, d'.dp⟩
  obtain ⟨v, r, start⟩ := start_run (v := view booted) (runs_view rfl) rfl rfl
  have ip : (view booted).regs Register.IP = d'.dp := by
    simp [booted, boot, view]
  rw [ip] at start
  have next : AtNext v ⟨d'.dp, s.data.contents.ds, s.data.contents.rs, s.data.contents.mem,
    s.char_input, s.char_output⟩ := start
  obtain ⟨s₁, r₁, rfl⟩ := view_simulates.reaches r
  obtain ⟨w, r₂, read, frame, buffer⟩ := thread.reads next (by omega) tok typed
  have string : CellsAt (view w).mem WORD_BUFFER_BASE
      ((text.map ord).length :: text.map ord) := by
    rw [List.length_map]
    exact buffer
  have high : WORD_BUFFER_BASE + ((text.map ord).length : ℤ) < DICTIONARY_TOP := by
    rw [List.length_map]
    omega
  have intact : ∀ i, 0 ≤ i → i < WORD_BUFFER_BASE →
      w.data.memory.cell i = s.data.memory.cell i := by
    intro i low lt
    rw [← view_mem low (by omega), frame i lt]
    exact view_mem low (by omega)
  have thread' := thread.congr (by have lt := thread.word.ip_high; omega) frame
  obtain ⟨f, r₃, found⟩ := thread'.looks_up rep' (by omega)
    (fun i low lt => (frame i (by omega)).trans (same i low (by omega))) read (by omega) (by decide)
    high string
  obtain ⟨u, halts, ds, rs, -, input, output⟩ := thread'.converts found room (by decide) high string
  refine ⟨d'.entries.map Entry.header, fun fuel enough => ?_, w, f, u, _, _, _, _, ?_, rfl,
    r₁.trans r₂, ⟨read.between, read.ds, intact, ?_⟩, r₃, ⟨found.between, found.ds, ?_⟩, halts, ds,
    rs, input, output⟩
  · rw [List.length_map] at enough
    have chain := headers_run rep' enough
    exact chain
  · rw [← visible_eq]
    rfl
  · refine MemoryCountedStringAdapter.read_of_cellsAt ?_ (by decide) (by omega)
    refine buffer.congr fun i le lt => (view_mem (by omega) ?_).symm
    rw [MemoryCountedStringAdapter.length_cells] at lt
    omega
  · intro i low lt
    rw [← view_mem low lt, found.mem]
    exact view_mem low lt

section Instances

attribute [local instance] UnicodeData.ascii

/-- An idle machine on a memory, with this input. -/
def typing (input : List ℤ) (m : MachineMemory) : EmulatorService :=
  { idle m with char_input := input }

/-- `42` is a token. -/
lemma isToken_42 : IsToken 32 "42" :=
  @isToken_ofList 32 ['4', '2'] (by decide) (by simp) (by decide)

/-- `42`, typed after a space. -/
theorem token_pipeline_number : ∃ image m' u xt flag,
    buildFresh [] (bootThread (pipeline 32)) (.zeroed MEMORY_SIZE.toNat) = .ok image m' ∧
    Halts advance (boot (typing [32, 52, 50, 32] m') image) u ∧
    u.data.contents.ds = [1, 42, flag, xt] := by
  have resolvable : Resolvable [] (bootThread (pipeline 32)) :=
    ⟨by decide +kernel, by decide +kernel⟩
  obtain ⟨image, m', run, dp⟩ := builds 311 resolvable (by decide +kernel) (by decide)
  obtain ⟨m₀, e₀, rep, -⟩ := init_represents (.zeroed MEMORY_SIZE.toNat) (by decide)
  have run' := run
  rw [buildFresh, bind_ok e₀] at run'
  have empty : (typing [32, 52, 50, 32] m').data.contents.ds = [] :=
    DownwardStackAdapter.contents_init m'
  have typed : [32, 52, 50, 32] = List.replicate 1 32 ++ (py "42").map ord ++ 32 :: [] := by
    decide +kernel
  obtain ⟨hs, -, w, f, u, xt, flag, number, ok, -, value, r, -, r', -, halts, ds, -⟩ :=
    token_pipeline rep run' (dp.trans_le (by decide)) nofun (s := typing [32, 52, 50, 32] m')
      (fun i low lt => rfl) (by rw [empty]; decide) isToken_42 typed
  rw [empty] at ds
  have e : (number, ok) = (42, 1) := value.trans (by decide +kernel)
  obtain ⟨rfl, rfl⟩ := Prod.mk.inj e
  exact ⟨image, m', u, xt, flag, run, (r.trans r').halts halts, ds⟩

/-- Colon words that take names of the boot thread over. -/
def shadows : List ColonWordDto :=
  [⟨"WORD", [], false⟩, ⟨"FIND", ["DUP"], false⟩, ⟨"NUMBER", ["DUP"], false⟩]

/-- With these, the boot thread never looks at the token. -/
theorem pipeline_shadowed : ∃ image m',
    buildFresh shadows (bootThread (pipeline 32)) (.zeroed MEMORY_SIZE.toNat) = .ok image m' ∧
    m'.cell DP_ADDR ≤ WORD_BUFFER_BASE ∧ IsToken 32 "42" ∧
    parsed (signed? ((py "42").map ord)) = (42, 1) ∧
    ¬∃ u xt flag below, Halts advance (boot (typing [52, 50, 32] m') image) u ∧
      u.data.contents.ds = 1 :: 42 :: flag :: xt :: below := by
  have resolvable : Resolvable shadows (bootThread (pipeline 32)) :=
    ⟨by decide +kernel, by decide +kernel⟩
  have sound : Sound (envOf shadows) := by
    have env : envOf shadows = .colon ⟨"NUMBER", ["DUP"], false⟩ ::
        .colon ⟨"FIND", ["DUP"], false⟩ :: .colon ⟨"WORD", [], false⟩ :: envOf [] := by
      simp [envOf, specs, shadows]
    rw [env]
    exact ⟨by decide +kernel, by decide +kernel, by decide +kernel, by decide +kernel,
      by decide +kernel, by decide +kernel, sound_code_words⟩
  have balanced : Balanced (envOf shadows) (pipeline 32) := by decide +kernel
  obtain ⟨image, m', run, dp⟩ := builds 345 resolvable (by decide +kernel) (by decide)
  obtain ⟨d, word_cfas, cells, installed, hb, rfl, holds, there, fits⟩ :=
    built (p := (typing [52, 50, 32] m').data) run (dp.trans_le (by decide)) fun i lo hi => rfl
  obtain ⟨verdict, e, ends⟩ :=
    boot_runs (typing [52, 50, 32] m') installed sound balanced hb holds there fits
  have meaning : runItems (call (envOf shadows)) (pipeline 32) [] [] 0 =
      some (.ok [32, 32, 32, 32] []) := by decide +kernel
  cases meaning.symm.trans e
  obtain ⟨u', ⟨r', stop'⟩, ds', -⟩ := ends
  refine ⟨_, m', run, dp.trans_le (by decide), isToken_42, by decide +kernel, ?_⟩
  rintro ⟨u, xt, flag, below, ⟨r, stop⟩, ds⟩
  obtain rfl := r.unique r' stop stop'
  cases ds.symm.trans ds'

end Instances

end Pipeline

end MinCpuForth.Kernel
