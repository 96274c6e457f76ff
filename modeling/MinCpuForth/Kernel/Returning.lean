import MinCpuForth.Kernel.Agreement
import MinCpuForth.Kernel.Calls
import MinCpuForth.Kernel.Programs

/-!
# Colon words return

A colon word's thread is to end in the kernel's `EXIT`, which goes back to the caller. The builder
looks the name `EXIT` up in the table that the colon words extend, so the thread of a word ends in
the kernel's `EXIT` exactly when no colon word before it has that name.
-/

namespace MinCpuForth.Kernel
open Python Domain Layout Adapters Assembler Emulator Lib EmulatorService KernelBuilder
open MemoryDictionaryAdapter Routines

section Calling

/-! The emulator cell by cell, since a dictionary may reach into the stacks. -/

/-- The emulator is between two words of a thread: `NEXT` is about to fetch the cell at `ip`, and
    the return stack holds `rs`. -/
structure Between (s : EmulatorService) (ip : ℤ) (rs : List ℤ) : Prop where
  program : s.program = kernelProgram
  running : s.halted = false
  pc : s.pc = NEXT_INDEX
  next : s.registers Register.NEXT_POINTER = NEXT_INDEX
  ip : s.registers Register.IP = ip
  rs : s.data.return_stack.contents s.data.memory = rs

/-- `NEXT` has jumped to the routine of the word at `cfa`, and nothing but `IP` and `W` has
    changed. -/
structure Dispatched (s : EmulatorService) (ip cfa : ℤ) (u : Bare) : Prop where
  program : u.program = kernelProgram
  running : u.halted = false
  pc : u.pc = s.data.memory.cell cfa
  next : u.regs Register.NEXT_POINTER = NEXT_INDEX
  ip : u.regs Register.IP = ip + 1
  w : u.regs Register.W = cfa
  cell : u.cell = s.data.memory.cell
  rp : u.rp = s.data.return_stack.pointer

/-- A part of some code of the kernel is executed. -/
lemma Ensures.reaches {code : List InstructionDto} {b : ℤ} {v : Bare} {P : Bare → Prop} {k n : ℕ}
    (h : Ensures ((code.drop k).take n) v P) (there : CodeAt kernelProgram b code)
    (program : v.program = kernelProgram) (running : v.halted = false) (base : 0 ≤ b)
    (pc : v.pc = b + k) (lt : k < code.length) (pos : 0 < n) :
    ∃ u, Reaches Bare.step v u ∧ P u := by
  obtain ⟨u, run, hu⟩ := h
  have above : -1 < b := by omega
  rw [← program] at there
  exact ⟨u, (Bare.part_progress there running above k n pc lt pos run).reaches.of_upTo, hu⟩

/-- The cell that `ip` denotes holds `cfa`; a negative address counts from the end. -/
def Calls (s : EmulatorService) (ip cfa : ℤ) : Prop :=
  ∃ i, cellOf ip = some i ∧ s.data.memory.cell i = cfa

namespace Between

variable {s t : EmulatorService} {ip ip' cfa : ℤ} {rs rs' : List ℤ}

/-- The place in the thread and the return stack are those of the emulator. -/
lemma unique (h : Between s ip rs) (h' : Between s ip' rs') : ip = ip' ∧ rs = rs' :=
  ⟨h.ip.symm.trans h'.ip, h.rs.symm.trans h'.rs⟩

/-- How deep the return stack is. -/
lemma pointer (h : Between s ip rs) :
    s.data.return_stack.pointer = RETURN_STACK_BASE - rs.length := by
  rw [← h.rs, DownwardStackAdapter.length_contents]
  exact s.data.return_stack.pointer_eq

/-- `NEXT` goes to the routine of the word that is called. -/
lemma dispatch (h : Between s ip rs) (calls : Calls s ip cfa) (inside : Inside cfa) :
    ∃ u, Reaches Bare.step (bare s) u ∧ Dispatched s ip cfa u := by
  obtain ⟨program, running, pc, next, rfl, -⟩ := h
  obtain ⟨i, place, rfl⟩ := calls
  have block : Ensures (((CORE_code 0).drop 3).take 4) (bare s) fun u =>
      u.program = (bare s).program ∧ u.halted = false ∧
        u.pc = (bare s).cell ((bare s).cell i) ∧
        u.regs "NEXTREG" = (bare s).regs "NEXTREG" ∧ u.regs "IP" = (bare s).regs "IP" + 1 ∧
        u.regs "W" = (bare s).cell i ∧ u.cell = (bare s).cell ∧ u.rp = (bare s).rp := by
    have running : (bare s).halted = false := running
    have place : cellOf ((bare s).regs "IP") = some i := place
    have inside : Inside ((bare s).cell i) := inside
    unfold cellOf at place
    split at place
    · rename_i direct
      cases place
      simp [Ensures, CORE_code, running, if_pos direct, if_pos inside]
    · rename_i indirect
      split at place
      · rename_i wraps
        cases place
        simp [Ensures, CORE_code, running, if_neg indirect, if_pos wraps, if_pos inside]
      · cases place
  obtain ⟨u, r, program', running', pc', next', ip', w, cell, rp⟩ :=
    block.reaches core_at program running (Int.le_refl 0) pc (by decide) (by decide)
  exact ⟨u, r, program'.trans program, running', pc', next'.trans next, ip', w, cell, rp⟩

/-- `ENTER` saves the way back, and goes to the word's own thread. -/
lemma enter (h : Between s ip rs) (calls : Calls s ip cfa) (inside : Inside cfa)
    (enter : s.data.memory.cell cfa = ENTER_INDEX)
    (room : rs.length < 1024) :
    ∃ t, Reaches advance s t ∧ Between t (cfa + 1) ((ip + 1) :: rs) := by
  have lay := Layout.values
  obtain ⟨u, r, d⟩ := h.dispatch calls inside
  have pointer := h.pointer
  have free : DATA_STACK_BASE < u.rp := by
    rw [d.rp]
    omega
  have block : Ensures (((CORE_code 0).drop 7).take 5) u fun t =>
      t.program = u.program ∧ t.halted = false ∧ t.pc = u.regs "NEXTREG" ∧
        t.regs "NEXTREG" = u.regs "NEXTREG" ∧ t.regs "IP" = u.regs "W" + 1 ∧ t.rp = u.rp - 1 ∧
        t.cell = Function.update u.cell (u.rp - 1) (u.regs "IP") := by
    simp [Ensures, CORE_code, d.running, if_pos free]
  obtain ⟨t, r', program, running, pc, next, hip, rp, cell'⟩ :=
    block.reaches core_at d.program d.running (Int.le_refl 0) (d.pc.trans enter) (by decide)
      (by decide)
  obtain ⟨t, r'', rfl⟩ := bare_simulates.reaches (r.trans r')
  have down : t.data.return_stack.pointer = s.data.return_stack.pointer - 1 :=
    rp.trans (congrArg (· - 1) d.rp)
  have pushed : t.data.memory = s.data.memory.set (s.data.return_stack.pointer - 1) (ip + 1) := by
    refine ListMemoryAdapter.ext_cell fun i _ _ => ?_
    rw [ListMemoryAdapter.cell_set _ _ ⟨by omega, by omega⟩, ← d.cell, ← d.rp, ← d.ip]
    exact congrFun cell' i
  refine ⟨t, r'', program.trans d.program, running, pc.trans d.next, next.trans d.next, ?_, ?_⟩
  · exact hip.trans (congrArg (· + 1) d.w)
  · rw [pushed, DownwardStackAdapter.contents_push _ DataPath.return_inside down, h.rs]

/-- `ENTER` needs a cell for the way back. -/
lemma enter_full (h : Between s ip rs) (calls : Calls s ip cfa) (inside : Inside cfa)
    (enter : s.data.memory.cell cfa = ENTER_INDEX)
    (full : ¬rs.length < 1024) : Fails advance s .stackOverflow := by
  have lay := Layout.values
  obtain ⟨u, r, d⟩ := h.dispatch calls inside
  have pointer := h.pointer
  have none : ¬DATA_STACK_BASE < u.rp := by
    rw [d.rp]
    omega
  have there := core_at
  rw [← d.program] at there
  have block : Bare.block (((CORE_code 0).drop 7).take 5) u = .fail .stackOverflow := by
    simp [CORE_code, if_neg none]
  have fails := Bare.part_fails there d.running (by decide : (-1 : ℤ) < 0) 7 5 (d.pc.trans enter)
    (by decide) block
  exact bare_simulates.fails (r.fails fails.of_upTo)

/-- `EXIT` goes back. -/
lemma exit {back : ℤ} (h : Between s ip (back :: rs)) (calls : Calls s ip cfa)
    (inside : Inside cfa) (base : 0 ≤ s.data.memory.cell cfa)
    (code : CodeAt kernelProgram (s.data.memory.cell cfa) EXIT_code) :
    ∃ t, Reaches advance s t ∧ Between t back rs := by
  obtain ⟨u, r, d⟩ := h.dispatch calls inside
  have pointer := h.pointer
  rw [List.length_cons] at pointer
  have pos : u.rp < RETURN_STACK_BASE := by
    rw [d.rp]
    omega
  have block : Ensures ((EXIT_code.drop 0).take 2) u fun t =>
      t.program = u.program ∧ t.halted = false ∧ t.pc = u.regs "NEXTREG" ∧
        t.regs "NEXTREG" = u.regs "NEXTREG" ∧ t.regs "IP" = u.cell u.rp ∧ t.rp = u.rp + 1 ∧
        t.cell = u.cell := by
    simp [Ensures, EXIT_code, d.running, if_pos pos]
  obtain ⟨t, r', program, running, pc, next, hip, rp, cell'⟩ :=
    block.reaches code d.program d.running base (by simpa using d.pc) (by decide) (by decide)
  obtain ⟨t, r'', rfl⟩ := bare_simulates.reaches (r.trans r')
  have up : t.data.return_stack.pointer = s.data.return_stack.pointer + 1 :=
    rp.trans (congrArg (· + 1) d.rp)
  have same : t.data.memory = s.data.memory :=
    ListMemoryAdapter.ext_cell fun i _ _ => congrFun (cell'.trans d.cell) i
  have popped := DownwardStackAdapter.contents_pop s.data.memory up
  rw [h.rs] at popped
  obtain ⟨top, rest⟩ := List.cons.inj popped
  refine ⟨t, r'', program.trans d.program, running, pc.trans d.next, next.trans d.next, ?_, ?_⟩
  · refine hip.trans ?_
    rw [d.cell, d.rp]
    exact top.symm
  · rw [same, ← rest]

end Between

/-- A word that returns: it is called in `s`, and in `t` the emulator is back in the thread, one
    cell further and with the return stack as it was. -/
def Returned (s t : EmulatorService) : Prop :=
  ∃ ip rs, Between s ip rs ∧ Reaches advance s t ∧ Between t (ip + 1) rs

/-- So many words, one after the other, each of which returns. -/
inductive BodyReturns : ℕ → EmulatorService → EmulatorService → Prop
  | nil {s : EmulatorService} : BodyReturns 0 s s
  | cons {k : ℕ} {s t u : EmulatorService} (first : Returned s t) (rest : BodyReturns k t u) :
      BodyReturns (k + 1) s u

/-- Where the words of a body leave the emulator. -/
lemma BodyReturns.between {k : ℕ} {s t : EmulatorService} {ip : ℤ} {rs : List ℤ}
    (h : BodyReturns k s t) (b : Between s ip rs) : Reaches advance s t ∧ Between t (ip + k) rs := by
  induction h generalizing ip with
  | nil => exact ⟨.refl, by simpa using b⟩
  | cons first rest ih =>
    obtain ⟨ip', rs', b', r, next⟩ := first
    obtain ⟨rfl, rfl⟩ := b.unique b'
    obtain ⟨r', last⟩ := ih next
    refine ⟨r.trans r', ?_⟩
    rwa [Int.add_assoc, Int.add_comm 1, ← Int.natCast_succ] at last

end Calling

section Terminator

variable {n : ℕ} {m m' : ListMemoryAdapter n} {d d' : Dictionary} {word_cfas word_cfas' : PyDict ℤ}

/-- The words that a build installs after the kernel's `EXIT`. -/
def afterExit (colon_words : List ColonWordDto) : List WordSpecDto :=
  (CODE_WORDS.drop 2).map .code ++ colon_words.map .colon

/-- The kernel's `EXIT` is the second of the words that a build installs. -/
lemma specs_exit (colon_words : List ColonWordDto) : specs colon_words =
    [.code LIT_primitive.word] ++ .code EXIT_primitive.word :: afterExit colon_words := by
  have split : CODE_WORDS = [LIT_primitive.word] ++ EXIT_primitive.word :: CODE_WORDS.drop 2 := rfl
  rw [specs, afterExit]
  conv_lhs => rw [split]
  simp

/-- After it, the name is defined by colon words only. -/
lemma afterExit_named {colon_words : List ColonWordDto} :
    (∀ word ∈ afterExit colon_words, word.name ≠ EXIT_WORD) ↔
      ∀ w ∈ colon_words, w.name ≠ EXIT_WORD := by
  have kernel : ∀ w ∈ CODE_WORDS.drop 2, w.name ≠ EXIT_WORD := by decide +kernel
  constructor
  · intro h w mem
    exact h (.colon w) (List.mem_append_right _ (List.mem_map_of_mem mem))
  · intro h word mem
    rcases List.mem_append.mp mem with code | colon
    · obtain ⟨w, listed, rfl⟩ := List.mem_map.mp code
      exact kernel w listed
    · obtain ⟨w, listed, rfl⟩ := List.mem_map.mp colon
      exact h w listed

/-- Where a colon word's thread ends. -/
lemma thread_end {cell : ℤ → ℤ} {w : ColonWordDto} {op : Append} {entry : Entry}
    (h : appendOf word_cfas (.colon w) = .ok op)
    (first : (d.append op).entries = entry :: d.entries)
    (stored : CellsAt cell entry.start entry.cells) :
    word_cfas.lookup EXIT_WORD = some (cell (entry.cfa + 1 + w.words.length)) ∧
      entry.thread.length = w.words.length + 1 ∧ entry.code_field = ENTER_INDEX := by
  obtain ⟨-, -, -, -, -, thread_at⟩ := Entry.cellsAt_iff.mp stored
  obtain ⟨thread, resolved, rfl⟩ := appendOf_colon h
  obtain rfl : d.next w.name ENTER_INDEX thread w.immediate = entry := (List.cons.inj first).1
  obtain ⟨len, -, last⟩ := thread_laid resolved thread_at
  exact ⟨last, len, rfl⟩

/-- What `EXIT` denotes after some colon words: it is the kernel's exactly if none of them has that
    name. -/
lemma exit_denotes {before : List ColonWordDto} {d₀ d₁ : Dictionary} {cfas₀ cfas₁ : PyDict ℤ}
    {op : Append} (lit : laidOut d [] [.code LIT_primitive.word] = .ok (d₀, cfas₀))
    (e : appendOf cfas₀ (.code EXIT_primitive.word) = .ok op)
    (found : laidOut d [] (specs before) = .ok (d₁, cfas₁)) :
    ∃ cfa, cfas₁.lookup EXIT_WORD = some cfa ∧
      (cfa = d₀.returned op ↔ ∀ w ∈ before, w.name ≠ EXIT_WORD) := by
  rw [specs_exit, laidOut_append] at found
  obtain ⟨⟨d₂, cfas₂⟩, lit', found⟩ := Fallible.bind_eq_ok.mp found
  cases lit.symm.trans lit'
  obtain ⟨op', e', rest⟩ := laidOut_cons found
  cases e.symm.trans e'
  rw [← afterExit_named]
  by_cases named : ∃ word ∈ afterExit before, word.name = EXIT_WORD
  · obtain ⟨low, high⟩ := returned_bounds (d := d₀) e
    obtain ⟨cfa, found, le⟩ := laidOut_lookup_new rest named
    refine ⟨cfa, found, iff_of_false (by omega) ?_⟩
    intro other
    obtain ⟨word, mem, same⟩ := named
    exact other word mem same
  · have other : ∀ word ∈ afterExit before, word.name ≠ EXIT_WORD :=
      fun word mem same => named ⟨word, mem, same⟩
    refine ⟨d₀.returned op, ?_, iff_of_true rfl other⟩
    rw [laidOut_lookup_old rest other, PyDict.lookup_setItem]
    exact if_pos rfl

/-- The machine's memory holds what a build has laid down. -/
def HoldsImage (m' : ListMemoryAdapter n) (s : EmulatorService) : Prop :=
  ∀ i, DICTIONARY_BASE ≤ i → i < m'.cell DP_ADDR → Inside i ∧ s.data.memory.cell i = m'.cell i

/-- How a colon word runs, given its code field address and the number of words in its body. Called
    from a thread, it saves the way back and goes to its body, unless the return stack is full. Where
    each word of the body has returned and the words of the build are still in place, it resumes its
    caller right after the call, with the return stack as it was. -/
def Resumes (m' : ListMemoryAdapter n) (cfa : ℤ) (length : ℕ) : Prop :=
  ∀ s ip rs, Between s ip rs → HoldsImage m' s → Calls s ip cfa →
    (rs.length < 1024 → ∃ s₀, Reaches advance s s₀ ∧ Between s₀ (cfa + 1) ((ip + 1) :: rs) ∧
      ∀ u, BodyReturns length s₀ u → HoldsImage m' u →
        ∃ t, Reaches advance s t ∧ Between t (ip + 1) rs) ∧
    (¬rs.length < 1024 → Fails advance s .stackOverflow)

/-- A colon word's thread ends in the given `EXIT`, so that the word resumes its caller. -/
structure ReturnsBy (m' : ListMemoryAdapter n) (word : ColonWordDto)
    (header exit : DictionaryHeaderDto) : Prop where
  /-- The last cell of the thread, after those of the words in its body. -/
  last : m'.cell (header.cfa + 1 + word.words.length) = exit.cfa
  resumes : Resumes m' header.cfa word.words.length

/-- A thread that ends in the kernel's `EXIT`. -/
lemma resumes_of_last {cfa exit : ℤ} {length : ℕ} (low : DICTIONARY_BASE ≤ cfa)
    (high : cfa + 1 + length < m'.cell DP_ADDR) (enter : m'.cell cfa = ENTER_INDEX)
    (last : m'.cell (cfa + 1 + length) = exit) (low' : DICTIONARY_BASE ≤ exit)
    (high' : exit < m'.cell DP_ADDR) (base : 0 ≤ m'.cell exit)
    (code : CodeAt kernelProgram (m'.cell exit) EXIT_code) : Resumes m' cfa length := by
  intro s ip rs between holds calls
  obtain ⟨inside, code_field⟩ := holds cfa low (by omega)
  rw [enter] at code_field
  refine ⟨fun room => ?_, between.enter_full calls inside code_field⟩
  obtain ⟨s₀, r, start⟩ := between.enter calls inside code_field room
  refine ⟨s₀, r, start, fun u body holds' => ?_⟩
  obtain ⟨r', stop⟩ := body.between start
  obtain ⟨place, cell⟩ := holds' (cfa + 1 + length) (by omega) high
  obtain ⟨inside', code_field'⟩ := holds' exit low' high'
  rw [← code_field'] at base code
  obtain ⟨t, r'', back⟩ := stop.exit ⟨_, if_pos place, cell.trans last⟩ inside' base code
  exact ⟨t, (r.trans r').trans r'', back⟩

/-- In the chain of headers, `header` is that of the word which a build installs after the words
    `before`. -/
def HeaderOf (colon_words : List ColonWordDto) (hs : List DictionaryHeaderDto)
    (before : List WordSpecDto) (word : WordSpecDto) (header : DictionaryHeaderDto) : Prop :=
  ∃ after, specs colon_words = before ++ word :: after ∧ hs[after.length]? = some header

/-- Where the code field of a word and its thread lie. -/
lemma cfa_bounds (rep : Represents m d) {entry : Entry} (mem : entry ∈ d.entries) :
    DICTIONARY_BASE ≤ entry.cfa ∧ entry.cfa + entry.thread.length < m.cell DP_ADDR := by
  obtain ⟨low, high⟩ := d.linked.bounds mem
  have place : entry.cfa = entry.start + 3 + 1 + entry.name.length := rfl
  rw [rep.ready.dp]
  simp only [Entry.stop, Entry.length_cells] at high
  omega

/-- What a build makes of the kernel's `EXIT` and of every colon word. -/
lemma build_returns_by [UnicodeData] (rep : Represents m d) {colon_words : List ColonWordDto}
    {boot : List ThreadItemDto} {image : KernelImageDto}
    (run : build colon_words boot m = .ok image m') :
    ∃ (hs : List DictionaryHeaderDto) (exit : DictionaryHeaderDto),
      (∀ fuel, hs.length < fuel → headers fuel m' = .ok (some hs) m') ∧
      HeaderOf colon_words hs [.code LIT_primitive.word] (.code EXIT_primitive.word) exit ∧
      exit.name = EXIT_WORD ∧
      kernelLabels.lookup EXIT_primitive.word.routine_label = some (m'.cell exit.cfa) ∧
      ∀ before word after, colon_words = before ++ word :: after → ∃ header,
        HeaderOf colon_words hs (specs before) (.colon word) header ∧ header.name = word.name ∧
          (m'.cell (header.cfa + 1 + word.words.length) = exit.cfa ↔
            ∀ w ∈ before, w.name ≠ EXIT_WORD) ∧
          ((∀ w ∈ before, w.name ≠ EXIT_WORD) → Resumes m' header.cfa word.words.length) := by
  have lay := Layout.values
  obtain ⟨d', word_cfas, cells, laid, -, rfl, rep', -⟩ := build_inv rep run
  have size : (d'.skip cells.length).entries.length = (d'.entries.map Entry.header).length :=
    (List.length_map _).symm
  have laid' := laid
  rw [specs_exit] at laid'
  obtain ⟨d₀, cfas₀, op₀, exit, placed₀⟩ := laidOut_placed laid'
  have stored₀ := rep'.stored exit placed₀.mem
  have compiled₀ :=
    (Tabulates.nil.laidOut placed₀.found).compiled placed₀.append placed₀.first stored₀
  have label := compiled₀.code _ rfl
  obtain ⟨low₀, high₀⟩ := cfa_bounds rep' placed₀.mem
  obtain ⟨above, code⟩ := EXIT_runs.codeAt (w := EXIT_primitive.word)
    (List.mem_map_of_mem (List.mem_of_getElem? (i := 1) rfl)) rfl
    (show label_index kernelLabels _ = .ok (m'.cell exit.cfa) by rw [label_index, label]; rfl)
  refine ⟨d'.entries.map Entry.header, exit.header, ?_, ?_, placed₀.name, label, ?_⟩
  · intro fuel enough
    rw [← size] at enough
    have answer := headers_run rep' enough
    exact answer
  · refine ⟨afterExit colon_words, specs_exit colon_words, ?_⟩
    rw [← List.head?_drop, placed₀.header]
    rfl
  · rintro before word after rfl
    have split : specs (before ++ word :: after) =
        specs before ++ .colon word :: after.map .colon := by
      simp [specs]
    rw [split] at laid
    obtain ⟨d₁, cfas₁, op₁, entry, placed⟩ := laidOut_placed laid
    have stored := rep'.stored entry placed.mem
    obtain ⟨found, len, code_field⟩ := thread_end placed.append placed.first stored
    obtain ⟨cfa, found', own⟩ := exit_denotes placed₀.found placed₀.append placed.found
    cases found.symm.trans found'
    rw [← placed₀.cfa] at own
    refine ⟨entry.header, ⟨after.map .colon, split, ?_⟩, placed.name, own, fun other => ?_⟩
    · rw [← List.head?_drop, placed.header]
      rfl
    · obtain ⟨low, high⟩ := cfa_bounds rep' placed.mem
      obtain ⟨-, -, -, -, at_cfa, -⟩ := Entry.cellsAt_iff.mp stored
      refine resumes_of_last low ?_ (at_cfa.trans code_field) (own.mpr other) low₀ ?_ ?_ code
      · rw [len] at high
        change entry.cfa + 1 + word.words.length < _
        omega
      · omega
      · exact Int.le_trans (by decide) above.le

/-- The position of a word determines its header. -/
lemma HeaderOf.unique {colon_words : List ColonWordDto} {hs : List DictionaryHeaderDto}
    {before : List WordSpecDto} {word : WordSpecDto} {header header' : DictionaryHeaderDto}
    (h : HeaderOf colon_words hs before word header)
    (h' : HeaderOf colon_words hs before word header') : header = header' := by
  obtain ⟨after, split, found⟩ := h
  obtain ⟨after', split', found'⟩ := h'
  have same := List.append_cancel_left (split.symm.trans split')
  cases same
  exact Option.some.inj (found.symm.trans found')

/-- A colon word returns through the kernel's `EXIT` exactly when no colon word before it is named
    `EXIT`. For every memory and dictionary that the build starts from, and all colon words and boot
    threads on which it returns; so all colon words return exactly when none of them but the last
    has that name. -/
theorem colon_words_return [UnicodeData] (rep : Represents m d) {colon_words : List ColonWordDto}
    {boot : List ThreadItemDto} {image : KernelImageDto}
    (run : build colon_words boot m = .ok image m') :
    ∃ (hs : List DictionaryHeaderDto) (exit : DictionaryHeaderDto),
      (∀ fuel, hs.length < fuel → headers fuel m' = .ok (some hs) m') ∧
      HeaderOf colon_words hs [.code LIT_primitive.word] (.code EXIT_primitive.word) exit ∧
      exit.name = EXIT_WORD ∧
      kernelLabels.lookup EXIT_primitive.word.routine_label = some (m'.cell exit.cfa) ∧
      (∀ before word after, colon_words = before ++ word :: after → ∃ header,
        HeaderOf colon_words hs (specs before) (.colon word) header ∧ header.name = word.name ∧
          (ReturnsBy m' word header exit ↔ ∀ w ∈ before, w.name ≠ EXIT_WORD)) ∧
      ((∀ before word after header, colon_words = before ++ word :: after →
          HeaderOf colon_words hs (specs before) (.colon word) header →
          ReturnsBy m' word header exit) ↔
        ∀ w ∈ colon_words.dropLast, w.name ≠ EXIT_WORD) := by
  obtain ⟨hs, exit, chain, position, name, label, words⟩ := build_returns_by rep run
  have each : ∀ before word after, colon_words = before ++ word :: after → ∃ header,
      HeaderOf colon_words hs (specs before) (.colon word) header ∧ header.name = word.name ∧
        (ReturnsBy m' word header exit ↔ ∀ w ∈ before, w.name ≠ EXIT_WORD) := by
    intro before word after split
    obtain ⟨header, place, named, last, resumes⟩ := words before word after split
    refine ⟨header, place, named, fun h => last.mp h.last, fun other => ?_⟩
    exact ⟨last.mpr other, resumes other⟩
  refine ⟨hs, exit, chain, position, name, label, each, ?_, ?_⟩
  · intro all w mem
    -- A word before the last is before another one.
    obtain ⟨before, rest, split⟩ := List.append_of_mem mem
    have ne : colon_words ≠ [] := by
      rintro rfl
      cases mem
    have whole : colon_words = (before ++ [w]) ++ (rest ++ [colon_words.getLast ne]) := by
      conv_lhs => rw [← List.dropLast_append_getLast ne, split]
      simp
    obtain ⟨word, after, tail⟩ := List.exists_cons_of_ne_nil
      (List.append_ne_nil_of_right_ne_nil rest (List.cons_ne_nil (colon_words.getLast ne) []))
    rw [tail] at whole
    obtain ⟨header, place, -, iff⟩ := each _ word after whole
    exact iff.mp (all _ word after header whole place) w (by simp)
  · intro other before word after header split place
    obtain ⟨header', place', -, iff⟩ := each before word after split
    cases place.unique place'
    refine iff.mpr fun w mem => other w ?_
    rw [split, List.dropLast_append_of_ne_nil (List.cons_ne_nil word after)]
    exact List.mem_append_left _ mem

section Instances

attribute [local instance] UnicodeData.ascii

/-- A build of a colon word `EXIT` and of another one. -/
lemma builds_exit : ∃ (m : MachineMemory) (d : Dictionary) (image : KernelImageDto)
    (m' : MachineMemory), MemoryDictionaryAdapter.init (.zeroed MEMORY_SIZE.toNat) = .ok () m ∧
      Represents m d ∧ build [⟨"EXIT", ["DUP"], false⟩, ⟨"A", [], false⟩]
        [.reference "A", .reference "BYE"] m = .ok image m' := by
  obtain ⟨m₀, e₀, rep, -⟩ := init_represents (.zeroed MEMORY_SIZE.toNat) (by decide)
  have resolvable : Resolvable [⟨"EXIT", ["DUP"], false⟩, ⟨"A", [], false⟩]
      [.reference "A", .reference "BYE"] := ⟨by decide +kernel, by decide +kernel⟩
  have size : buildSize [⟨"EXIT", ["DUP"], false⟩, ⟨"A", [], false⟩]
      [.reference "A", .reference "BYE"] = 323 := by decide +kernel
  obtain ⟨image, m', run⟩ := (build_returns rep).mpr
    (fresh_laid.mpr ⟨resolvable, by rw [size]; decide⟩)
  exact ⟨m₀, _, image, m', e₀, rep, run⟩

/-- The word `EXIT` returns, since its thread is resolved before its name is taken over. -/
theorem colon_words_return_own : ∃ (m : MachineMemory) (image : KernelImageDto)
    (m' : MachineMemory) (header exit : DictionaryHeaderDto),
    build [⟨"EXIT", ["DUP"], false⟩, ⟨"A", [], false⟩] [.reference "A", .reference "BYE"] m =
      .ok image m' ∧
    header.name = "EXIT" ∧ ReturnsBy m' ⟨"EXIT", ["DUP"], false⟩ header exit := by
  obtain ⟨m, d, image, m', -, rep, run⟩ := builds_exit
  obtain ⟨hs, exit, -, -, -, -, each, -⟩ := colon_words_return rep run
  obtain ⟨header, -, name, iff⟩ := each [] ⟨"EXIT", ["DUP"], false⟩ [⟨"A", [], false⟩] rfl
  exact ⟨m, image, m', header, exit, run, name, iff.mpr nofun⟩

/-- The word after it does not: its thread ends in the colon word `EXIT`, and not in the kernel's. -/
theorem ends_in_shadow : ∃ (m : MachineMemory) (image : KernelImageDto) (m' : MachineMemory)
    (hs : List DictionaryHeaderDto) (header exit : DictionaryHeaderDto),
    build [⟨"EXIT", ["DUP"], false⟩, ⟨"A", [], false⟩] [.reference "A", .reference "BYE"] m =
      .ok image m' ∧
    (∀ fuel, hs.length < fuel → headers fuel m' = .ok (some hs) m') ∧
    HeaderOf [⟨"EXIT", ["DUP"], false⟩, ⟨"A", [], false⟩] hs [.code LIT_primitive.word]
      (.code EXIT_primitive.word) exit ∧
    HeaderOf [⟨"EXIT", ["DUP"], false⟩, ⟨"A", [], false⟩] hs
      (specs [⟨"EXIT", ["DUP"], false⟩]) (.colon ⟨"A", [], false⟩) header ∧
    m'.cell (header.cfa + 1) ≠ exit.cfa := by
  obtain ⟨m, d, image, m', -, rep, run⟩ := builds_exit
  obtain ⟨hs, exit, chain, position, -, -, words⟩ := build_returns_by rep run
  obtain ⟨header, place, -, last, -⟩ :=
    words [⟨"EXIT", ["DUP"], false⟩] ⟨"A", [], false⟩ [] rfl
  refine ⟨m, image, m', hs, header, exit, run, chain, position, place, fun same => ?_⟩
  have other := last.mp ((congrArg m'.cell (Int.add_zero _)).trans same)
  exact other ⟨"EXIT", ["DUP"], false⟩ (List.mem_cons_self ..) rfl

end Instances

end Terminator

end MinCpuForth.Kernel
