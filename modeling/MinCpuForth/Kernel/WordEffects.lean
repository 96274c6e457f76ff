import MinCpuForth.Kernel.Accesses
import MinCpuForth.Kernel.ThreadedMachine

/-!
# What the words of the kernel do between two `NEXT`s

Each word on the state of the threaded machine: where it leads, and how it fails.
-/

namespace MinCpuForth.Kernel
open Python Domain Layout Adapters Emulator Lib Decimal MemoryDictionaryAdapter View Routines

section Devices

variable {v : View} {t : Threaded} {c : ℤ} {input ds : List ℤ}

/-- `KEY` pushes a character of the input. -/
lemma key_run (h : AtNext v t) (ip : Below t.ip) (cfa : Below (t.mem t.ip))
    (code : CodeAt kernelProgram (t.mem (t.mem t.ip)) KEY_code) (typed : t.input = c :: input)
    (room : t.ds.length < 1024) :
    ∃ u, Reaches step v u ∧
      AtNext u { t with ip := t.ip + 1, ds := c :: t.ds, input := input } := by
  obtain ⟨u, r, ⟨running, ds_le, rs_le⟩, program, pc, next, hip, w, ds, rs, mem, hi, output⟩ :=
    next_run h ip cfa
  simp only [Register.IP, Register.NEXT_POINTER] at next hip
  rw [rs] at rs_le
  rw [← pc, ← program] at code
  obtain ⟨u', run, next'⟩ : ∃ u', block KEY_code u = .next u' ∧
      AtNext u' { t with ip := t.ip + 1, ds := c :: t.ds, input := input } := by
    simp [KEY_code, block, running, hi, typed, ds, room, rs, rs_le, hip, mem, program, next,
      output, atNext_iff, runs_iff, Register.IP, Register.NEXT_POINTER]
  exact ⟨u', r.trans (block_next running code run), next'⟩

/-- `KEY` needs a character. -/
lemma key_exhausted (h : AtNext v t) (ip : Below t.ip) (cfa : Below (t.mem t.ip))
    (code : CodeAt kernelProgram (t.mem (t.mem t.ip)) KEY_code) (none : t.input = []) :
    Fails step v .inputExhausted := by
  obtain ⟨u, r, ⟨running, -, -⟩, program, pc, -, -, -, -, -, -, hi, -⟩ := next_run h ip cfa
  rw [← pc, ← program] at code
  refine r.fails (block_fail running code ?_)
  simp [KEY_code, block, hi, none]

/-- `KEY` needs a cell for it. -/
lemma key_overflow (h : AtNext v t) (ip : Below t.ip) (cfa : Below (t.mem t.ip))
    (code : CodeAt kernelProgram (t.mem (t.mem t.ip)) KEY_code) (typed : t.input = c :: input)
    (full : ¬t.ds.length < 1024) : Fails step v .stackOverflow := by
  obtain ⟨u, r, ⟨running, -, -⟩, program, pc, -, -, -, hd, -, -, hi, -⟩ := next_run h ip cfa
  rw [← pc, ← program] at code
  refine r.fails (block_fail running code ?_)
  simp [KEY_code, block, running, hi, typed, hd, full]

/-- `EMIT` writes the top cell to the output. -/
lemma emit_run (h : AtNext v t) (ip : Below t.ip) (cfa : Below (t.mem t.ip))
    (code : CodeAt kernelProgram (t.mem (t.mem t.ip)) EMIT_code) (stack : t.ds = c :: ds) :
    ∃ u, Reaches step v u ∧
      AtNext u { t with ip := t.ip + 1, ds := ds, output := t.output ++ [c] } := by
  obtain ⟨u, r, ⟨running, ds_le, rs_le⟩, program, pc, next, hip, w, hd, rs, mem, input, output⟩ :=
    next_run h ip cfa
  simp only [Register.IP, Register.NEXT_POINTER] at next hip
  rw [rs] at rs_le
  rw [hd, stack, List.length_cons] at ds_le
  rw [← pc, ← program] at code
  obtain ⟨u', run, next'⟩ : ∃ u', block EMIT_code u = .next u' ∧
      AtNext u' { t with ip := t.ip + 1, ds := ds, output := t.output ++ [c] } := by
    simp [EMIT_code, block, running, hd, stack, Nat.le_of_succ_le ds_le, rs, rs_le, hip, mem,
      program, next, input, output, atNext_iff, runs_iff, Register.IP, Register.NEXT_POINTER]
  exact ⟨u', r.trans (block_next running code run), next'⟩

/-- `EMIT` needs a cell. -/
lemma emit_fails (h : AtNext v t) (ip : Below t.ip) (cfa : Below (t.mem t.ip))
    (code : CodeAt kernelProgram (t.mem (t.mem t.ip)) EMIT_code) (stack : t.ds = []) :
    Fails step v .stackUnderflow := by
  obtain ⟨u, r, ⟨running, -, -⟩, program, pc, -, -, -, hd, -⟩ := next_run h ip cfa
  rw [← pc, ← program] at code
  refine r.fails (block_fail running code ?_)
  simp [EMIT_code, block, hd, stack]

/-- `EXIT` needs a way back. -/
lemma exit_fails (h : AtNext v t) (ip : Below t.ip) (cfa : Below (t.mem t.ip))
    (code : CodeAt kernelProgram (t.mem (t.mem t.ip)) EXIT_code) (none : t.rs = []) :
    Fails step v .stackUnderflow := by
  obtain ⟨u, r, ⟨running, -, -⟩, program, pc, -, -, -, -, rs, -⟩ := next_run h ip cfa
  rw [← pc, ← program] at code
  refine r.fails (block_fail running code ?_)
  simp [EXIT_code, block, rs, none]

end Devices


section Routines

/-! What the routines that work on the memory do to the threaded machine, from their labels on. -/

variable {s u : EmulatorService} {t : Threaded} {label : PyStr} {a i x : ℤ} {ds : List ℤ}

/-- A routine that raises. -/
lemma Loaded.fails {code : List InstructionDto} {b : ℤ} {e : PyError} {k n : ℕ}
    (loaded : Loaded code b (bare s)) (pc : s.pc = b + k) (le : k ≤ code.length)
    (run : Bare.block ((code.drop k).take n) (bare s) = .fail e) :
    Fails EmulatorService.advance s e := by
  have f := Bare.part_fails loaded.codeAt loaded.running loaded.above k n pc le run
  exact (routine_simulates.fails f).of_upTo

/-- How many cells are on the data stack. -/
lemma depth_view :
    (s.data.contents.ds.length : ℤ) = DATA_STACK_BASE - s.data.data_stack.pointer := by
  have place := s.data.data_stack.pointer_eq
  rw [DataPath.contents, DownwardStackAdapter.length_contents]
  omega

/-- A routine that begins by taking a cell. -/
lemma Loaded.underflow {r : PyStr} {rest : List InstructionDto}
    (loaded : Loaded (.POP_D r :: rest) s.pc (bare s)) (empty : s.data.contents.ds = []) :
    Fails EmulatorService.advance s .stackUnderflow := by
  have none : ¬(bare s).sp < DATA_STACK_BASE := by
    have size := depth_view (s := s)
    rw [empty, List.length_nil] at size
    have same : (bare s).sp = s.data.data_stack.pointer := rfl
    omega
  refine loaded.fails (Int.add_zero _).symm (Nat.zero_le _) (n := 1) ?_
  simp [none]

/-- The cells below the stacks, in the view and in the memory. -/
lemma Entered.cell (h : Entered (view s) t) (below : Below i) :
    s.data.memory.cell i = t.mem i := by
  rw [← h.mem]
  exact (view_mem below.1 below.2).symm

/-- `@` and `C@` on a cell below the stacks. -/
lemma Entered.fetches (enters : Enters label s) (loaded : Loaded FETCH_code s.pc (bare s))
    (h : Entered (view s) t) (stack : t.ds = a :: ds) (place : cellOf a = some i)
    (below : Below i) :
    ∃ u, Reaches EmulatorService.advance s u ∧
      AtNext (view u) { t with ip := t.ip + 1, ds := t.mem i :: ds } := by
  have lay := Layout.values
  have stack' : s.data.contents.ds = a :: ds := h.ds.trans stack
  obtain ⟨rest, above, on_top, -⟩ := DataPath.below_top stack'
  have top := rest.le_base
  have floor := s.data.data_stack.floor_le
  have floor' := s.data.return_stack.floor_le
  have same : (bare s).sp = s.data.data_stack.pointer := rfl
  rw [on_top] at place
  obtain ⟨v, p, kept, input, cell, sp, pc⟩ := (fetch_block enters.running (by omega) (by omega)
    place).run loaded (Int.add_zero _).symm (by simp [FETCH_code]) (by omega)
  obtain ⟨u, r, rfl⟩ := routine_simulates.reaches p.reaches
  have written : u.data.memory.cell =
    Function.update s.data.memory.cell s.data.data_stack.pointer (s.data.memory.cell i) := cell
  have other : ∀ j, j ≠ s.data.data_stack.pointer →
      u.data.memory.cell j = s.data.memory.cell j := by
    intro j ne
    rw [written, Function.update_of_ne ne]
  have pointer : u.data.data_stack.pointer = s.data.data_stack.pointer := sp
  have replaced : u.data.contents.ds = t.mem i :: ds := by
    rw [DataPath.ds_replaced stack' pointer fun j past => other j (by omega), pointer, written,
      Function.update_self, h.cell below]
  have rs : u.data.contents.rs = s.data.contents.rs :=
    DataPath.rs_kept kept.rp fun j le => other j (by omega)
  have mem : u.data.contents.mem = s.data.contents.mem :=
    DataPath.mem_kept fun j _ lt => other j (by omega)
  have resumes := h.resumes (enters.returns kept pc) rs
  have e : (view u).ds = t.mem i :: ds := replaced
  have e' : (view u).mem = t.mem := mem.trans h.mem
  have e'' : (view u).input = t.input := input.trans h.input
  rw [e, e', e''] at resumes
  exact ⟨u, r.of_upTo, resumes⟩

/-- `!` and `C!` on a cell below the stacks. -/
lemma Entered.stores (enters : Enters label s) (loaded : Loaded STOREW_code s.pc (bare s))
    (h : Entered (view s) t) (stack : t.ds = a :: x :: ds) (place : cellOf a = some i)
    (below : Below i) :
    ∃ u, Reaches EmulatorService.advance s u ∧
      AtNext (view u)
        { t with ip := t.ip + 1, ds := ds, mem := Function.update t.mem i x } := by
  have lay := Layout.values
  have stack' : s.data.contents.ds = a :: x :: ds := h.ds.trans stack
  obtain ⟨one, above, on_top, below_it⟩ := DataPath.below_top stack'
  obtain ⟨two, above', second, rest⟩ :=
    DataPath.below_top (p := { s.data with data_stack := one }) below_it.symm
  simp only at above' second rest
  have top := two.le_base
  have floor := s.data.data_stack.floor_le
  have floor' := s.data.return_stack.floor_le
  have same : (bare s).sp = s.data.data_stack.pointer := rfl
  rw [on_top] at place
  obtain ⟨v, p, kept, input, cell, sp, pc⟩ := (store_block enters.running (by omega) place).run
    loaded (Int.add_zero _).symm (by simp [STOREW_code]) (by omega)
  obtain ⟨u, r, rfl⟩ := routine_simulates.reaches p.reaches
  have written : u.data.memory.cell = Function.update s.data.memory.cell i
    (s.data.memory.cell (s.data.data_stack.pointer + 1)) := cell
  have other : ∀ j, j ≠ i → u.data.memory.cell j = s.data.memory.cell j := by
    intro j ne
    rw [written, Function.update_of_ne ne]
  have pointer : u.data.data_stack.pointer = s.data.data_stack.pointer + 2 := sp
  have taken : u.data.contents.ds = ds := by
    rw [rest]
    exact DownwardStackAdapter.contents_congr_above (by omega) fun j le => other j (by omega)
  have rs : u.data.contents.rs = s.data.contents.rs :=
    DataPath.rs_kept kept.rp fun j le => other j (by omega)
  have mem : u.data.contents.mem = Function.update t.mem i x := by
    funext j
    by_cases here : j = i
    · subst here
      rw [Function.update_self, second, above]
      exact (if_pos below).trans (by rw [written, Function.update_self])
    · rw [Function.update_of_ne here, ← h.mem]
      exact if_congr Iff.rfl (other j here) rfl
  have resumes := h.resumes (enters.returns kept pc) rs
  have e : (view u).ds = ds := taken
  have e' : (view u).mem = Function.update t.mem i x := mem
  have e'' : (view u).input = t.input := input.trans h.input
  rw [e, e', e''] at resumes
  exact ⟨u, r.of_upTo, resumes⟩

end Routines

section Tokens

variable {s u : EmulatorService} {t : Threaded} {v : Bare} {delim d : ℤ} {input rest ds : List ℤ}

/-- The delimiters before a token, the token, and what is left. -/
lemma token_append (delim : ℤ) (input : List ℤ) :
    input.takeWhile (· = delim) ++ (token delim input ++
      (input.dropWhile (· = delim)).dropWhile (· ≠ delim)) = input := by
  rw [token, List.takeWhile_append_dropWhile, List.takeWhile_append_dropWhile]

/-- The first element that is not dropped. -/
lemma not_of_dropWhile_eq_cons {p : ℤ → Bool} {xs ys : List ℤ} {y : ℤ}
    (h : xs.dropWhile p = y :: ys) : p y = false := by
  have ne : xs.dropWhile p ≠ [] := by
    rw [h]
    exact List.cons_ne_nil y ys
  have out := List.head_dropWhile_not p ne
  simpa only [h, List.head_cons] using out

/-- A token is followed by a delimiter, unless the input ends with it. -/
lemma token_ended (h : (input.dropWhile (· = delim)).dropWhile (· ≠ delim) = d :: rest) :
    d = delim ∧ token delim input ≠ [] := by
  have last : d = delim := by
    have out := not_of_dropWhile_eq_cons h
    simpa using out
  refine ⟨last, fun empty => ?_⟩
  have shape := List.takeWhile_append_dropWhile (p := fun c => decide (c ≠ delim))
    (l := input.dropWhile (· = delim))
  rw [token] at empty
  rw [empty, h, List.nil_append] at shape
  have out := not_of_dropWhile_eq_cons shape.symm
  simp [last] at out

/-- The characters of a token are not the delimiter. -/
lemma ne_of_mem_token : ∀ c ∈ token delim input, c ≠ delim := by
  intro c mem
  simpa using List.mem_takeWhile_imp mem

/-- The input ends before a token does. -/
lemma word_exhausted (loaded : Loaded (WORD_code v.pc) v.pc v) (one : v.sp < DATA_STACK_BASE)
    (fits : (token (v.cell v.sp) v.input).length < WORD_BUFFER_SIZE)
    (ends : (v.input.dropWhile (· = v.cell v.sp)).dropWhile (· ≠ v.cell v.sp) = []) :
    Fails bareRoutine v .inputExhausted := by
  have lay := Layout.values
  have split := token_append (v.cell v.sp) v.input
  rw [ends, List.append_nil] at split
  obtain ⟨u₁, r₁, skip⟩ := word_enters loaded one
  rw [← split] at skip
  have delims : ∀ x ∈ v.input.takeWhile (· = v.cell v.sp), x = v.cell v.sp := by
    intro x mem
    simpa using List.mem_takeWhile_imp mem
  obtain ⟨u₂, r₂, skipped⟩ := skip.skips loaded delims
  have chars : ∀ c ∈ token (v.cell v.sp) v.input, c ≠ v.cell v.sp := ne_of_mem_token
  generalize token (v.cell v.sp) v.input = text at fits chars skipped
  cases text with
  | nil =>
    have here := loaded.kept skipped.kept
    have f := Bare.part_fails here.codeAt here.running here.above 1 5 skipped.pc
      (by simp [WORD_code]) (word_skip_fails skipped.input)
    exact r₁.fails (r₂.fails f)
  | cons c x =>
    obtain ⟨first, others⟩ := List.forall_mem_cons.mp chars
    simp only [List.length_cons] at fits
    obtain ⟨u₃, r₃, loop⟩ := skipped.starts loaded first
    rw [← List.append_nil x] at loop
    obtain ⟨w, c', u₄, r₄, collected, e⟩ := loop.collects loaded others
      (by simp only [List.nil_append]; omega)
    have length := congrArg List.length e
    simp only [List.length_append, List.length_cons, List.length_nil, List.nil_append] at length
    have here := loaded.kept collected.kept
    have f := Bare.part_fails here.codeAt here.running here.above 10 8 collected.pc
      (by simp [WORD_code]) (word_collect_fails here.running (collected.inside (by omega))
        collected.input)
    exact r₁.fails (r₂.fails (r₃.fails (r₄.fails f)))

end Tokens

section Words

variable {s u : EmulatorService} {t t' : Threaded} {a d delim : ℤ} {rest ds codes : List ℤ}

/-- The cells below the stacks. -/
lemma contents_mem {p : DataPath} {i : ℤ} (below : Below i) :
    p.contents.mem i = p.memory.cell i := if_pos below

/-- The memory after a token has been read, as the view shows it. -/
lemma mem_withToken {p q : DataPath} {text : List ℤ} {top : ℤ} (above : DICTIONARY_TOP ≤ top)
    (fits : text.length < WORD_BUFFER_SIZE)
    (cell : q.memory.cell = Function.update (Function.update
      (writeCells p.memory.cell (WORD_BUFFER_BASE + 1) text) WORD_BUFFER_BASE text.length) top
        WORD_BUFFER_BASE) :
    q.contents.mem = Threaded.withToken p.contents.mem text := by
  have lay := Layout.values
  funext i
  rw [Threaded.withToken]
  by_cases count : i = WORD_BUFFER_BASE
  · subst count
    rw [Function.update_self]
    rw [contents_mem ⟨by omega, by omega⟩, cell, Function.update_of_ne (by omega),
      Function.update_self]
  rw [Function.update_of_ne count]
  by_cases inside : WORD_BUFFER_BASE + 1 ≤ i ∧ i < WORD_BUFFER_BASE + 1 + text.length
  · obtain ⟨k, rfl⟩ : ∃ k : ℕ, i = WORD_BUFFER_BASE + 1 + k :=
      ⟨(i - (WORD_BUFFER_BASE + 1)).toNat, by omega⟩
    have lt : k < text.length := by omega
    rw [writeCells_get lt, contents_mem ⟨by omega, by omega⟩, cell,
      Function.update_of_ne (by omega), Function.update_of_ne count, writeCells_get lt]
  · rw [writeCells_of_not (by omega)]
    refine if_ctx_congr Iff.rfl (fun below => ?_) fun _ => rfl
    rw [cell, Function.update_of_ne (by omega), Function.update_of_ne count,
      writeCells_of_not (by omega)]

/-- `WORD` reads a token that fits into its buffer. -/
lemma Entered.reads (enters : Enters "WORD" s) (h : Entered (view s) t) (stack : t.ds = delim :: ds)
    (fits : (token delim t.input).length < WORD_BUFFER_SIZE)
    (more : (t.input.dropWhile (· = delim)).dropWhile (· ≠ delim) = d :: rest) :
    ∃ u, Reaches EmulatorService.advance s u ∧
      AtNext (view u)
        { t with
          ip := t.ip + 1, ds := WORD_BUFFER_BASE :: ds,
          mem := Threaded.withToken t.mem (token delim t.input), input := rest } := by
  have lay := Layout.values
  have loaded := enters.loaded 38 WORD_code rfl (.head _) rfl (by decide)
  have stack' : s.data.contents.ds = delim :: ds := h.ds.trans stack
  obtain ⟨one, above, on_top, -⟩ := DataPath.below_top stack'
  have top := one.le_base
  have floor := s.data.data_stack.floor_le
  have floor' := s.data.return_stack.floor_le
  have same : (bare s).sp = s.data.data_stack.pointer := rfl
  have delim_eq : (bare s).cell (bare s).sp = delim := on_top.symm
  obtain ⟨rfl, nonempty⟩ := token_ended more
  have input : (bare s).input = t.input := h.input
  have split := token_append d t.input
  rw [more, ← List.append_assoc] at split
  obtain ⟨v, r, done⟩ := word_reads (v := bare s) loaded (by omega) (by omega)
    (t.input.takeWhile (· = d)) (token d t.input)
    (fun x mem => by
      rw [delim_eq]
      simpa using List.mem_takeWhile_imp mem)
    nonempty (fun x mem => by
      rw [delim_eq]
      exact ne_of_mem_token x mem)
    (by omega) (by rw [input, delim_eq]; exact split.symm)
  obtain ⟨u, r', rfl⟩ := routine_simulates.reaches r
  obtain ⟨kept, cell, sp, left, pc⟩ := done
  have pointer : u.data.data_stack.pointer = s.data.data_stack.pointer := sp
  have written : u.data.memory.cell = Function.update (Function.update
    (writeCells s.data.memory.cell (WORD_BUFFER_BASE + 1) (token d t.input)) WORD_BUFFER_BASE
      (token d t.input).length) s.data.data_stack.pointer WORD_BUFFER_BASE := cell
  have other : ∀ j, s.data.data_stack.pointer < j →
      u.data.memory.cell j = s.data.memory.cell j := by
    intro j past
    rw [written, Function.update_of_ne (by omega), Function.update_of_ne (by omega),
      writeCells_of_not (by omega)]
  have replaced : u.data.contents.ds = WORD_BUFFER_BASE :: ds := by
    rw [DataPath.ds_replaced stack' pointer other, pointer, written, Function.update_self]
  have rs : u.data.contents.rs = s.data.contents.rs :=
    DataPath.rs_kept kept.rp fun j le => other j (by omega)
  have resumes := h.resumes (enters.returns kept pc) rs
  have e : (view u).ds = WORD_BUFFER_BASE :: ds := replaced
  have e' : (view u).mem = Threaded.withToken t.mem (token d t.input) := by
    rw [← h.mem]
    exact mem_withToken floor fits written
  have e'' : (view u).input = rest := left
  rw [e, e', e''] at resumes
  exact ⟨u, r'.of_upTo, resumes⟩

/-- A counted string below the stacks. -/
lemma stringAt?_eq_some {mem : ℤ → ℤ} (h : Threaded.stringAt? mem a = some codes) :
    0 ≤ a ∧ a + codes.length < DICTIONARY_TOP ∧ CellsAt mem a (codes.length :: codes) := by
  rw [Threaded.stringAt?] at h
  split at h
  · rename_i inside
    obtain ⟨low, nonneg, high⟩ := inside
    cases h
    have length : ((mem a).toNat : ℤ) = mem a := Int.toNat_of_nonneg nonneg
    simp only [List.length_map, List.length_range, length]
    refine ⟨low, high, rfl, CellsAt.of_get fun i lt => ?_⟩
    simp
  · cases h

end Words

end MinCpuForth.Kernel
