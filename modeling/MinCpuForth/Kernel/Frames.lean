import MinCpuForth.Emulator.Run
import MinCpuForth.Kernel.Convention
import MinCpuForth.Kernel.Threads

/-!
# Every state of a run

The reference semantics says what a program has done when it ends. A run may also be given up by the
step guard, or raise in the middle of a word. In all states of a run of a sound and balanced program
the memory below the stacks is what it was: between two `NEXT`s the routine of a word keeps its
discipline, and at each `NEXT` the return stack leads back through threads of sound words.
-/

namespace MinCpuForth.Kernel
open Python Domain Layout Adapters Assembler Emulator EmulatorService Lib KernelBuilder Routines

/-- What is left of a thread: items from `ip` on that bring the own return stack from `depth` to
    nothing, and the word in which the thread ends. -/
structure Rest (mem : ℤ → ℤ) (top : ℤ) (last : PyStr) (ip : ℤ) (items : List Item) (depth : ℕ) :
    Prop where
  known : ∃ env word_cfas, Threads mem top env word_cfas ∧ Sound env ∧ Laid word_cfas mem ip items ∧
    itemsDepth env items depth = some 0 ∧ word_cfas.lookup last = some (mem (ip + itemsSize items))
  lo : DICTIONARY_BASE ≤ ip
  hi : ip + itemsSize items < top

/-- The threads to which the return stack leads back, from the place in the innermost one. The
    memory holds the threads, `cell` the return stack from `rp` on. -/
inductive Framed (mem : ℤ → ℤ) (top : ℤ) (cell : ℤ → ℤ) : ℤ → ℤ → Prop
  | boot {ip rp : ℤ} {items : List Item} {depth : ℕ} (rest : Rest mem top "BYE" ip items depth) :
    Framed mem top cell ip rp
  | body {ip rp : ℤ} {items : List Item} {depth : ℕ} (rest : Rest mem top "EXIT" ip items depth)
    (outer : Framed mem top cell (cell (rp + depth)) (rp + depth + 1)) : Framed mem top cell ip rp

section Words

variable {mem cell cell' : ℤ → ℤ} {top ip rp cfa : ℤ} {last name : PyStr} {items : List Item}
  {depth : ℕ} {env : Env} {word_cfas : PyDict ℤ}

/-- The code field at an address holds the routine of the CODE word of this name. -/
def CodeField (mem : ℤ → ℤ) (name : PyStr) (cfa : ℤ) : Prop :=
  ∃ k ∈ CODE_WORDS, k.name = name ∧ label_index kernelLabels k.routine_label = .ok (mem cfa)

/-- What a name of the table denotes: a CODE word, or a colon word with a thread of its own. -/
lemma Threads.found (h : Threads mem top env word_cfas) (sound : Sound env)
    (found : word_cfas.lookup name = some cfa) : DICTIONARY_BASE ≤ cfa ∧ cfa < top ∧
      (CodeField mem name cfa ∧ (∀ depth, wordDepth env name depth =
          (StackWord.ofName? name).bind (·.returnDepth depth)) ∨
        name ∉ RESERVED ∧ mem cfa = ENTER_INDEX ∧ (∀ depth, wordDepth env name depth = some depth) ∧
          ∃ items, Rest mem top "EXIT" (cfa + 1) items 0) := by
  induction env generalizing word_cfas with
  | nil =>
    cases h
    cases found
  | cons word env ih =>
    cases word with
    | code k =>
      obtain ⟨older, at_cfa, rfl, lo, hi, label, rest⟩ := h
      rw [PyDict.lookup_setItem] at found
      simp only [wordDepth]
      split at found
      · rename_i same
        cases found
        refine ⟨lo, hi, .inl ⟨⟨k, sound.1, same.symm, label⟩, fun depth => if_pos same.symm⟩⟩
      · rename_i other
        simp only [if_neg (Ne.symm other)]
        exact ih rest sound.2 found
    | colon k =>
      obtain ⟨older, at_cfa, thread, rfl, lo, cell, cells, fits, resolved, rest⟩ := h
      rw [PyDict.lookup_setItem] at found
      simp only [wordDepth]
      split at found
      · rename_i same
        cases found
        obtain ⟨len, laid, ends⟩ := thread_laid resolved cells
        have size := itemsSize_words k.words
        refine ⟨lo, by omega, .inr ⟨?_, cell, fun depth => if_pos (Eq.symm same), k.words.map .word,
          ⟨env, older, rest, sound.2.2, laid, sound.2.1, ?_⟩, by omega, by omega⟩⟩
        · rw [same]
          exact sound.1
        · rw [size]
          exact ends
      · rename_i other
        simp only [if_neg (Ne.symm other)]
        exact ih rest sound.2.2 found

/-- What is left after a literal. -/
lemma Rest.lit {n : ℤ} (h : Rest mem top last ip (.lit n :: items) depth) :
    CodeField mem "LIT" (mem ip) ∧ DICTIONARY_BASE ≤ mem ip ∧ mem ip < top ∧
      Rest mem top last (ip + 2) items depth := by
  obtain ⟨env, word_cfas, threads, sound, ⟨lit, -, laid⟩, balanced, ends⟩ := h.known
  have lo := h.lo
  have hi := h.hi
  simp only [itemsSize, Nat.cast_add, Nat.cast_ofNat] at hi ends
  have place : ip + 2 + (itemsSize items : ℤ) = ip + (itemsSize items + 2) := by omega
  obtain ⟨lo', hi', ⟨calls, -⟩ | ⟨own, -⟩⟩ := threads.found sound lit
  · exact ⟨calls, lo', hi', ⟨env, word_cfas, threads, sound, laid, balanced, place ▸ ends⟩,
      by omega, by omega⟩
  · exact absurd (by simp [RESERVED]) own

/-- What is left after a word. -/
lemma Rest.word (h : Rest mem top last ip (.word name :: items) depth) :
    DICTIONARY_BASE ≤ mem ip ∧ mem ip < top ∧
      ((∃ w : StackWord, CodeField mem w.name (mem ip) ∧ ∃ depth',
          w.returnDepth depth = some depth' ∧ Rest mem top last (ip + 1) items depth') ∨
        mem (mem ip) = ENTER_INDEX ∧ Rest mem top last (ip + 1) items depth ∧
          ∃ items, Rest mem top "EXIT" (mem ip + 1) items 0) := by
  obtain ⟨env, word_cfas, threads, sound, ⟨word, laid⟩, balanced, ends⟩ := h.known
  have lo := h.lo
  have hi := h.hi
  simp only [itemsSize, Nat.cast_add, Nat.cast_one] at hi ends
  have place : ip + 1 + (itemsSize items : ℤ) = ip + (itemsSize items + 1) := by omega
  obtain ⟨depth', leaves, balanced⟩ := Option.bind_eq_some_iff.mp balanced
  have rest : Rest mem top last (ip + 1) items depth' :=
    ⟨⟨env, word_cfas, threads, sound, laid, balanced, place ▸ ends⟩, by omega, by omega⟩
  obtain ⟨lo', hi', ⟨calls, does⟩ | ⟨-, enter, does, inner⟩⟩ := threads.found sound word
  · rw [does] at leaves
    obtain ⟨w, known, leaves⟩ := Option.bind_eq_some_iff.mp leaves
    rw [← StackWord.name_of_ofName? known] at calls
    exact ⟨lo', hi', .inl ⟨w, calls, depth', leaves, rest⟩⟩
  · rw [does] at leaves
    cases leaves
    exact ⟨lo', hi', .inr ⟨enter, rest, inner⟩⟩

/-- The word in which a thread ends. -/
lemma Rest.ends (h : Rest mem top last ip [] depth) (reserved : last ∈ RESERVED) :
    CodeField mem last (mem ip) ∧ DICTIONARY_BASE ≤ mem ip ∧ mem ip < top ∧ depth = 0 := by
  obtain ⟨env, word_cfas, threads, sound, -, balanced, ends⟩ := h.known
  rw [itemsSize, Int.natCast_zero, Int.add_zero] at ends
  obtain ⟨lo, hi, ⟨calls, -⟩ | ⟨own, -⟩⟩ := threads.found sound ends
  · exact ⟨calls, lo, hi, Option.some.inj balanced⟩
  · exact absurd reserved own

/-- The cells of the return stack are all that counts. -/
lemma Framed.congr (h : Framed mem top cell ip rp) (same : ∀ i, rp ≤ i → cell' i = cell i) :
    Framed mem top cell' ip rp := by
  induction h with
  | boot rest => exact .boot rest
  | @body ip rp items depth rest _ ih =>
    refine .body rest ?_
    rw [same _ (by omega)]
    exact ih fun i le => same i (by omega)

/-- A place in a thread, and how it may be left, whatever is put on the return stack. -/
lemma Framed.place (h : Framed mem top cell ip rp) : ∃ last items depth,
    Rest mem top last ip items depth ∧
      (last = py "BYE" ∨ last = py "EXIT" ∧ ∀ cell', (∀ i, rp ≤ i → cell' i = cell i) →
        Framed mem top cell' (cell (rp + depth)) (rp + depth + 1)) ∧
      ∀ cell', (∀ i, rp ≤ i → cell' i = cell i) → ∀ ip' rp' items' (depth' : ℕ),
        Rest mem top last ip' items' depth' → rp' + depth' = rp + depth →
          Framed mem top cell' ip' rp' := by
  cases h with
  | boot rest => exact ⟨_, _, _, rest, .inl rfl, fun _ _ _ _ _ _ rest' _ => .boot rest'⟩
  | @body ip rp items depth rest outer =>
    have kept : ∀ cell', (∀ i, rp ≤ i → cell' i = cell i) →
        Framed mem top cell' (cell (rp + depth)) (rp + depth + 1) :=
      fun cell' same => outer.congr fun i le => same i (by omega)
    refine ⟨_, _, _, rest, .inr ⟨rfl, kept⟩, fun cell' same _ _ _ _ rest' place => .body rest' ?_⟩
    rw [place, same _ (by omega)]
    exact kept cell' same

end Words

section Rounds

variable {mem : ℤ → ℤ} {top : ℤ} {v u e : Bare}

/-- `NEXT` is about to run in threads of sound words, and the memory below the stacks is as it
    was. -/
structure InThread (mem : ℤ → ℤ) (top : ℤ) (v : Bare) : Prop where
  program : v.program = kernelProgram
  running : v.halted = false
  pc : v.pc = NEXT_INDEX
  next : v.regs Register.NEXT_POINTER = NEXT_INDEX
  same : ∀ i, i < DICTIONARY_TOP → v.cell i = mem i
  framed : Framed mem top v.cell (v.regs Register.IP) v.rp

/-- The memory below the stacks is as it was, and `NEXT` finds a thread of sound words. -/
def Untouched (mem : ℤ → ℤ) (top : ℤ) (v : Bare) : Prop :=
  (∀ i, i < DICTIONARY_TOP → v.cell i = mem i) ∧ (v.pc = NEXT_INDEX → InThread mem top v)

/-- `NEXT` has jumped to a routine; the memory and the stacks are as they were. -/
@[mk_iff] structure Jumped (v e : Bare) : Prop where
  program : e.program = v.program
  running : e.halted = false
  pc : e.pc = v.cell (v.cell (v.regs Register.IP))
  next : e.regs Register.NEXT_POINTER = v.regs Register.NEXT_POINTER
  ip : e.regs Register.IP = v.regs Register.IP + 1
  w : e.regs Register.W = v.cell (v.regs Register.IP)
  cell : e.cell = v.cell
  sp : e.sp = v.sp
  rp : e.rp = v.rp

/-- Away from `NEXT`, the memory is all that counts. -/
lemma Untouched.elsewhere (same : ∀ i, i < DICTIONARY_TOP → v.cell i = mem i)
    (cells : u.cell = v.cell) (elsewhere : u.pc ≠ NEXT_INDEX) : Untouched mem top u := by
  refine ⟨fun i low => ?_, fun there => absurd there elsewhere⟩
  rw [cells, same i low]

/-- The routine to which `NEXT` has jumped. -/
lemma InThread.routine_pc (h : InThread mem top v) (jumped : Jumped v e)
    (ip : v.regs Register.IP < DICTIONARY_TOP) (cfa : mem (v.regs Register.IP) < DICTIONARY_TOP) :
    e.pc = mem (mem (v.regs Register.IP)) := by
  rw [jumped.pc, h.same _ ip, h.same _ cfa]

/-- On the way from `NEXT` to the routine, nothing happens to the memory. -/
lemma InThread.jumps (h : InThread mem top v) (ip : Inside (v.regs Register.IP))
    (cfa : Inside (v.cell (v.regs Register.IP))) :
    ∃ u e, Bare.step v = .next u ∧ Jumped v e ∧
      (Always (Untouched mem top) bareRoutine e → Always (Untouched mem top) bareRoutine u) := by
  obtain ⟨program, running, pc, next, same, -⟩ := h
  have first := core_at.part 3 1 (by simp [CORE_code])
  have more := core_at.part 4 3 (by simp [CORE_code])
  have at_next : v.pc = 3 := pc
  have here : v.pc = 0 + (3 : ℕ) := pc
  rw [← here, ← program] at first
  rw [← program] at more
  let u : Bare := Bare.setReg { v with pc := v.pc + 1 } "W" (v.cell (v.regs Register.IP))
  have step : Bare.step v = .next u := by
    rw [Bare.step_fetch running first]
    exact if_pos ip
  obtain ⟨e, run, jumped, through⟩ :
      ∃ e, Bare.block ((((CORE_code 0).drop 4).take 3).take 3) u = .next e ∧ Jumped v e ∧
        ∀ w ∈ Bare.visits ((((CORE_code 0).drop 4).take 3).take 3) u,
          w.cell = v.cell ∧ w.pc ≠ NEXT_INDEX := by
    simp only [Register.IP] at cfa
    simp [CORE_code, u, running, at_next, if_pos cfa, jumped_iff, Register.IP, Register.W,
      Register.NEXT_POINTER, NEXT_INDEX]
  refine ⟨u, e, step, jumped, fun after => ?_⟩
  have pc' : u.pc = 4 + (0 : ℕ) := by simp [u, at_next]
  refine Bare.part_always more running (by decide) 0 3 pc' (Nat.zero_le _) run
    (fun w visited => ?_) after
  obtain ⟨cells, elsewhere⟩ := through w visited
  exact .elsewhere same cells elsewhere

/-- The routine of a word that stores nothing. -/
lemma InThread.routine {name : PyStr} (h : InThread mem top v) (jumped : Jumped v e)
    (calls : CodeField mem name (mem (v.regs Register.IP))) (quiet : name ∉ STORING)
    (ip : v.regs Register.IP < DICTIONARY_TOP) (cfa : mem (v.regs Register.IP) < DICTIONARY_TOP)
    (sp_le : v.sp ≤ DATA_STACK_BASE) (base : DATA_STACK_BASE ≤ v.rp)
    (back : ∀ u, Sees false e (leaveOf name) u →
      Framed mem top u.cell (u.regs Register.IP) u.rp) :
    Always (Untouched mem top) bareRoutine e := by
  obtain ⟨k, listed, rfl, label⟩ := calls
  obtain ⟨p, prim, rfl⟩ := List.mem_map.mp listed
  obtain ⟨r, tail, -, own, some, disciplined⟩ := routine_of_primitive prim
  have routine_mem := List.mem_of_mem_tail tail
  have wf : ∀ i ∈ r.code, WellFormed i := fun i hi =>
    kernel_wellFormed i (List.mem_flatten.mpr ⟨r.code, List.mem_map_of_mem routine_mem, hi⟩)
  have above := routines_above r tail
  have program : e.program = kernelProgram := jumped.program.trans h.program
  have pc : e.pc = r.base := by
    rw [label_index, lookup_kernelLabels routine_mem own] at label
    rw [h.routine_pc jumped ip cfa]
    exact (Except.ok.inj label).symm
  have loaded : Loaded r.code r.base e := by
    refine ⟨jumped.running, above, ?_⟩
    rw [program]
    exact codeAt_kernel routine_mem
  have same : ∀ {t p}, Sees false e p t → ∀ i, i < DICTIONARY_TOP → t.cell i = mem i := by
    intro t p sees i low
    rw [sees.frame rfl i (.inl low), jumped.cell, h.same i low]
  intro t run
  rw [decide_eq_false quiet] at disciplined
  have course := disciplined.course loaded some wf pc (jumped.next.trans h.next)
    (jumped.sp.trans_le sp_le) (base.trans_eq jumped.rp.symm) run
  cases course with
  | within k within =>
    obtain ⟨q, -, sees⟩ := within.sees
    refine ⟨same sees, fun there => ?_⟩
    have pc' := within.pc
    omega
  | back running there sees =>
    have next := sees.next.trans (jumped.next.trans h.next)
    exact ⟨same sees,
      fun _ => ⟨sees.program.trans program, running, there, next, same sees, back t sees⟩⟩
  | halt _ above' sees =>
    obtain ⟨q, sees⟩ := sees
    exact ⟨same sees, fun there => absurd there (Int.ne_of_gt above')⟩

/-- What a word on the stacks does to `IP` and to the return stack. -/
lemma leaveOf_stackWord (w : StackWord) : w.name ∉ STORING ∧ (leaveOf w.name).ip = .kept ∧
    (leaveOf w.name).popped = if w = .TOR then -1 else if w = .FROMR then 1 else 0 := by
  cases w <;> decide

/-- The depth that the discipline counts is that of the reference semantics. -/
lemma popped_returnDepth {w : StackWord} {depth depth' : ℕ}
    (h : w.returnDepth depth = some depth') : (leaveOf w.name).popped = depth - depth' := by
  rw [(leaveOf_stackWord w).2.2]
  cases w with
  | TOR =>
    cases h
    simp
  | FROMR =>
    cases depth with
    | zero => cases h
    | succ depth =>
      cases h
      simp
  | RFETCH =>
    cases depth with
    | zero => cases h
    | succ depth =>
      cases h
      simp
  | _ =>
    cases h
    simp

/-- `BYE` halts at once. -/
lemma InThread.bye (h : InThread mem top v) (jumped : Jumped v e)
    (calls : CodeField mem "BYE" (mem (v.regs Register.IP)))
    (ip : v.regs Register.IP < DICTIONARY_TOP) (cfa : mem (v.regs Register.IP) < DICTIONARY_TOP) :
    Always (Untouched mem top) bareRoutine e := by
  obtain ⟨k, listed, named, label⟩ := calls
  obtain ⟨above, code⟩ := BYE_runs.codeAt listed named label
  rw [← h.routine_pc jumped ip cfa] at above code
  rw [← h.program, ← jumped.program] at code
  have untouched : ∀ pc halted, NEXT_INDEX < pc →
      Untouched mem top { e with pc := pc, halted := halted } :=
    fun pc halted elsewhere => .elsewhere h.same jumped.cell (Int.ne_of_gt elsewhere)
  have halt : bareRoutine e = .next { e with pc := e.pc + 1, halted := true } := by
    have goes_on : e.pc ≠ NEXT_INDEX := Int.ne_of_gt above
    exact (if_neg goes_on).trans (Bare.step_fetch jumped.running code)
  have stopped : ∀ t, bareRoutine { e with pc := e.pc + 1, halted := true } ≠ .next t := by
    intro t e
    cases (step_of_upTo e).2
  exact .head (untouched e.pc e.halted above) halt (.last (untouched _ _ (by omega)) stopped)

/-- `ENTER` puts the way back on the return stack. -/
lemma InThread.enter (h : InThread mem top v) (jumped : Jumped v e)
    (calls : mem (mem (v.regs Register.IP)) = ENTER_INDEX)
    (ip : v.regs Register.IP < DICTIONARY_TOP) (cfa : mem (v.regs Register.IP) < DICTIONARY_TOP)
    (framed : ∀ cell, cell (v.rp - 1) = v.regs Register.IP + 1 →
      (∀ i, v.rp ≤ i → cell i = v.cell i) →
        Framed mem top cell (mem (v.regs Register.IP) + 1) (v.rp - 1)) :
    Always (Untouched mem top) bareRoutine e := by
  have lay := Layout.values
  have at_cfa : e.regs Register.W = mem (v.regs Register.IP) := by
    rw [jumped.w, h.same _ ip]
  have pc : e.pc = 7 := (h.routine_pc jumped ip cfa).trans calls
  have program : e.program = kernelProgram := jumped.program.trans h.program
  have next : e.regs Register.NEXT_POINTER = 3 := jumped.next.trans h.next
  have code := core_at.part 7 5 (by simp [CORE_code])
  rw [← program] at code
  let pushed : ℤ → ℤ := Function.update e.cell (e.rp - 1) (e.regs Register.IP)
  have same : ∀ i, i < DICTIONARY_TOP → e.cell i = mem i := fun i below =>
    (congrFun jumped.cell i).trans (h.same i below)
  by_cases room : DATA_STACK_BASE < e.rp
  · have same' : ∀ i, i < DICTIONARY_TOP → pushed i = mem i := by
      intro i below
      rw [← same i below]
      exact Function.update_of_ne (by omega) ..
    obtain ⟨n, run, program', running, pc', next', ip', rp', cell, through⟩ :
        ∃ n, Bare.block (((((CORE_code 0).drop 7).take 5).drop 0).take 5) e = .next n ∧
          n.program = e.program ∧ n.halted = false ∧ n.pc = 3 ∧
          n.regs Register.NEXT_POINTER = 3 ∧ n.regs Register.IP = e.regs Register.W + 1 ∧
          n.rp = e.rp - 1 ∧ n.cell = pushed ∧
          ∀ w ∈ Bare.visits (((((CORE_code 0).drop 7).take 5).drop 0).take 5) e,
            (w.cell = e.cell ∨ w.cell = pushed) ∧ w.pc ≠ 3 := by
      simp only [Register.NEXT_POINTER] at next
      simp [CORE_code, room, pc, pushed, next, jumped.running, Register.IP, Register.W,
        Register.NEXT_POINTER]
    have entered : InThread mem top n := by
      refine ⟨program'.trans program, running, pc', next', cell ▸ same', ?_⟩
      rw [ip', rp', cell, at_cfa, jumped.rp]
      refine framed pushed ?_ fun i above => ?_
      · have top : pushed (e.rp - 1) = e.regs Register.IP := Function.update_self ..
        rw [← jumped.rp, top, jumped.ip]
      · rw [← jumped.cell]
        refine Function.update_of_ne ?_ ..
        have := jumped.rp
        omega
    have stops : ∀ t, bareRoutine n ≠ .next t := fun t e => (step_of_upTo e).1 pc'
    refine Bare.part_always code jumped.running (by decide) 0 5 (by simp [pc]) (Nat.zero_le _) run
      (fun w visited => ?_) (.last ⟨entered.same, fun _ => entered⟩ stops)
    obtain ⟨cells | cells, elsewhere⟩ := through w visited
    · exact .elsewhere same cells elsewhere
    · exact .elsewhere (v := n) entered.same (cells.trans cell.symm) elsewhere
  · have fails : Bare.block (((((CORE_code 0).drop 7).take 5).drop 0).take 5) e =
        .fail .stackOverflow ∧
        ∀ w ∈ Bare.visits (((((CORE_code 0).drop 7).take 5).drop 0).take 5) e,
          w.cell = e.cell ∧ w.pc ≠ NEXT_INDEX := by
      simp [CORE_code, room, pc]
    refine Bare.part_always_of_fail code jumped.running (by decide) 0 5 ?_ (Nat.zero_le _) fails.1
      fun w visited => ?_
    · simp [pc]
    · exact .elsewhere same (fails.2 w visited).1 (fails.2 w visited).2

/-- From one `NEXT` to the next one. -/
lemma InThread.round (h : InThread mem top v) (low : top ≤ DICTIONARY_TOP)
    (sp_le : v.sp ≤ DATA_STACK_BASE) (base : DATA_STACK_BASE ≤ v.rp)
    (step : Bare.step v = .next u) : Always (Untouched mem top) bareRoutine u := by
  have lay := Layout.values
  obtain ⟨last, items, depth, rest, outer, goes_on⟩ := h.framed.place
  have lo := rest.lo
  have hi := rest.hi
  have ip : v.regs Register.IP < DICTIONARY_TOP := by omega
  have leads : DICTIONARY_BASE ≤ mem (v.regs Register.IP) → mem (v.regs Register.IP) < top →
      ∃ e, Jumped v e ∧ mem (v.regs Register.IP) < DICTIONARY_TOP ∧
        (Always (Untouched mem top) bareRoutine e → Always (Untouched mem top) bareRoutine u) := by
    intro lo' hi'
    have at_ip := h.same _ ip
    obtain ⟨u', e, step', jumped, always⟩ := h.jumps ⟨by omega, by omega⟩ ⟨by omega, by omega⟩
    obtain rfl := Outcome.next.inj (step.symm.trans step')
    exact ⟨e, jumped, by omega, always⟩
  -- The return stack from the pointer on outlasts every routine that stores nothing.
  have kept : ∀ {e leave x}, Jumped v e → Sees false e leave x → ∀ i, v.rp ≤ i →
      x.cell i = v.cell i := by
    intro e leave x jumped sees i above
    rw [sees.frame rfl i (.inr (jumped.rp.trans_le above)), jumped.cell]
  cases items with
  | nil =>
    rcases outer with rfl | ⟨rfl, outer⟩
    · obtain ⟨calls, lo', hi', -⟩ := rest.ends (by simp [RESERVED])
      obtain ⟨e, jumped, cfa, always⟩ := leads lo' hi'
      exact always (h.bye jumped calls ip cfa)
    · obtain ⟨calls, lo', hi', rfl⟩ := rest.ends (by simp [RESERVED])
      obtain ⟨e, jumped, cfa, always⟩ := leads lo' hi'
      refine always (h.routine jumped calls (by decide) ip cfa sp_le base fun x sees => ?_)
      have back := outer x.cell (kept jumped sees)
      have ip' : x.regs Register.IP = e.cell e.rp := sees.ip
      have rp' : x.rp = e.rp + 1 := sees.rp
      rw [Int.natCast_zero, Int.add_zero, ← jumped.cell, ← jumped.rp] at back
      rw [ip', rp']
      exact back
  | cons item items =>
    cases item with
    | lit n =>
      obtain ⟨calls, lo', hi', rest'⟩ := rest.lit
      obtain ⟨e, jumped, cfa, always⟩ := leads lo' hi'
      refine always (h.routine jumped calls (by decide) ip cfa sp_le base fun x sees => ?_)
      have ip' : x.regs Register.IP = e.regs Register.IP + 1 := sees.ip
      have rp' : x.rp = e.rp + 0 := sees.rp
      rw [ip', rp', jumped.ip, jumped.rp, Int.add_assoc, Int.add_zero]
      exact goes_on x.cell (kept jumped sees) _ _ _ _ rest' rfl
    | word name =>
      obtain ⟨lo', hi', ⟨w, calls, depth', leaves, rest'⟩ | ⟨calls, rest', inner, body⟩⟩ :=
        rest.word
      · obtain ⟨quiet, keeps, -⟩ := leaveOf_stackWord w
        obtain ⟨e, jumped, cfa, always⟩ := leads lo' hi'
        refine always (h.routine jumped calls quiet ip cfa sp_le base fun x sees => ?_)
        have ip' : x.regs Register.IP = e.regs Register.IP := by
          rw [sees.ip, keeps]
          rfl
        have rp' := sees.rp
        rw [popped_returnDepth leaves] at rp'
        rw [ip', rp', jumped.ip, jumped.rp]
        exact goes_on x.cell (kept jumped sees) _ _ _ _ rest' (by omega)
      · obtain ⟨e, jumped, cfa, always⟩ := leads lo' hi'
        refine always (h.enter jumped calls ip cfa fun cell saved same => ?_)
        refine .body body ?_
        rw [Int.natCast_zero, Int.add_zero, Int.sub_add_cancel, saved]
        exact goes_on cell same _ _ _ _ rest' rfl

end Rounds

/-- `START` puts the program index of `NEXT` into its register and goes there. -/
lemma Framed.start {mem : ℤ → ℤ} {top : ℤ} {v : Bare} (program : v.program = kernelProgram)
    (running : v.halted = false) (pc : v.pc = 0)
    (same : ∀ i, i < DICTIONARY_TOP → v.cell i = mem i)
    (h : Framed mem top v.cell (v.regs Register.IP) v.rp) :
    Always (Untouched mem top) bareRoutine v := by
  have code : CodeAt v.program v.pc (CORE_code 0) := by
    rw [program, pc]
    exact core_at
  let v₁ := Bare.setReg { v with pc := v.pc + 1 } "NEXTREG" (v.regs "NEXTREG" - v.regs "NEXTREG")
  let v₂ := Bare.setReg { v₁ with pc := v₁.pc + 1 } "NEXTREG" (v₁.regs "NEXTREG" + 3)
  let v₃ := { v₂ with pc := v₂.regs "NEXTREG" }
  have next : NEXT_INDEX = 3 := rfl
  have pc₁ : v₁.pc = v.pc + 1 := rfl
  have pc₂ : v₂.pc = v.pc + 1 + 1 := rfl
  have untouched : ∀ w : Bare, w.cell = v.cell → w.pc < NEXT_INDEX → Untouched mem top w :=
    fun w cells before => .elsewhere same cells (Int.ne_of_lt before)
  have on : ∀ {w u : Bare}, w.pc < NEXT_INDEX → Bare.step w = .next u → bareRoutine w = .next u :=
    fun before e => (if_neg (Int.ne_of_lt before)).trans e
  have e₁ : Bare.step v = .next v₁ := Bare.step_fetch running code
  have e₂ : Bare.step v₁ = .next v₂ := Bare.step_fetch (v := v₁) running code.tail
  have e₃ : Bare.step v₂ = .next v₃ := Bare.step_fetch (v := v₂) running code.tail.tail
  have start : InThread mem top v₃ := by
    refine ⟨program, running, ?_, ?_, same, ?_⟩
    · simp [v₃, v₂, v₁, NEXT_INDEX]
    · simp [v₃, v₂, v₁, NEXT_INDEX, Register.NEXT_POINTER]
    · simpa [v₃, v₂, v₁, Register.IP] using h
  have stops : ∀ t, bareRoutine v₃ ≠ .next t := fun t e => (step_of_upTo e).1 start.pc
  refine .head (untouched v rfl (by omega)) (on (by omega) e₁) ?_
  refine .head (untouched v₁ rfl (by omega)) (on (by omega) e₂) ?_
  refine .head (untouched v₂ rfl (by omega)) (on (by omega) e₃) ?_
  exact .last ⟨same, fun _ => start⟩ stops

/-- Booted at a place in a thread of sound words, the emulator leaves the memory below the stacks as
    it was, in every state that it comes to. -/
lemma Framed.always {s : EmulatorService} {mem : ℤ → ℤ} {top : ℤ}
    (program : s.program = kernelProgram) (running : s.halted = false) (pc : s.pc = 0)
    (same : ∀ i, i < DICTIONARY_TOP → s.data.memory.cell i = mem i)
    (h : Framed mem top s.data.memory.cell (s.registers Register.IP) s.data.return_stack.pointer)
    (low : top ≤ DICTIONARY_TOP) :
    Always (fun t => ∀ i, i < DICTIONARY_TOP → t.data.memory.cell i = mem i) advance s := by
  have first : Always (fun t => Untouched mem top (bare t)) routine s := fun t reaches =>
    Framed.start (v := bare s) program running pc same h (bare t) (reaches_bare program reaches)
  refine .of_rounds (fun t u (inside : InThread mem top (bare t)) step => ?_) first
  have step' := step_bare inside.program step
  have program' : u.program = kernelProgram :=
    (Bare.step_program (by rw [inside.program]; exact kernel_wellFormed) step').trans inside.program
  have round := inside.round low t.data.data_stack.le_base t.data.return_stack.floor_le step'
  exact fun x reaches => round (bare x) (reaches_bare program' reaches)

end MinCpuForth.Kernel
