import MinCpuForth.Kernel.Accesses
import MinCpuForth.Kernel.Discipline
import MinCpuForth.Kernel.WordRuns

/-!
# The calling convention

The routine of every CODE word keeps the register discipline, so that whatever the registers, the
memory, the stacks and the input: it leaves the registers of the threading core alone, it is in its
own code until it goes back to `NEXT` or halts, and it comes back with `IP`, the return stack and the
memory below the stacks as its word has to leave them.
-/

namespace MinCpuForth.Kernel
open Python Domain Adapters Assembler Emulator Lib Layout EmulatorService Routines

/-- The words that store at an address which they are given or compute. -/
def STORING : List PyStr := [py "!", py "C!", py "WORD"]

/-- How the routine of a word is to leave. -/
def leaveOf (name : PyStr) : Point where
  target := none
  saved := false
  popped := if name = py ">R" then -1 else if name = py "R>" ∨ name = py "EXIT" then 1 else 0
  ip := if name = py "LIT" then .stepped else if name = py "EXIT" then .loaded else .kept

/-- The routine of a primitive is named by its label and keeps the discipline. -/
def Orderly (p : KernelPrimitive) (r : Routine) : Prop :=
  (p.word.routine_label, r.base) ∈ r.labels ∧ 0 < r.code.length ∧
    Disciplined r.base (p.word.name ∈ STORING) (leaveOf p.word.name) r.code

instance (p : KernelPrimitive) (r : Routine) : Decidable (Orderly p r) :=
  inferInstanceAs (Decidable (_ ∧ _ ∧ _))

/-- All routines do. -/
lemma primitives_orderly : ∀ x ∈ PRIMITIVES.zip ROUTINES.tail, Orderly x.1 x.2 := by
  decide +kernel

/-- The routine that a primitive's text assembles to. -/
lemma routine_of_primitive {p : KernelPrimitive} (mem : p ∈ PRIMITIVES) :
    ∃ r ∈ ROUTINES.tail, r.lines = p.lines ∧ Orderly p r := by
  have texts : PRIMITIVES.map KernelPrimitive.lines = ROUTINES.tail.map Routine.lines := rfl
  have pairs := primitives_orderly
  generalize PRIMITIVES = ps at mem texts pairs
  generalize ROUTINES.tail = rs at texts pairs ⊢
  induction ps generalizing rs with
  | nil => cases mem
  | cons q ps ih =>
    cases rs with
    | nil => cases texts
    | cons r rs =>
      obtain ⟨text, texts⟩ := List.cons.inj texts
      cases mem with
      | head => exact ⟨r, List.mem_cons_self .., text.symm, pairs (p, r) (List.mem_cons_self ..)⟩
      | tail _ mem =>
        obtain ⟨r', mem', text', orderly⟩ :=
          ih mem rs texts fun x hx => pairs x (List.mem_cons_of_mem _ hx)
        exact ⟨r', List.mem_cons_of_mem _ mem', text', orderly⟩

/-- A state in the code of a routine. -/
def InCode (r : Routine) (s : EmulatorService) : Prop :=
  r.base ≤ s.pc ∧ s.pc < r.base + r.code.length

/-- The instruction at the program counter. -/
def At (r : Routine) (s : EmulatorService) (i : InstructionDto) : Prop :=
  ∃ k : ℕ, s.pc = r.base + k ∧ r.code[k]? = some i

/-- How control goes on from a state in the code of a routine. -/
inductive Control (r : Routine) (s t : EmulatorService) : Prop
  | stays (h : InCode r t)
  | next (h : At r s (.JMP Register.NEXT_POINTER)) (pc : t.pc = NEXT_INDEX)
  | halts (h : At r s .HALT) (halted : t.halted = true)

/-- The values on the return stack. -/
def returnStack (s : EmulatorService) : List ℤ := s.data.return_stack.contents s.data.memory

/-- What the routine of a word has left alone when it comes back. -/
structure Respects (name : PyStr) (s t : EmulatorService) : Prop where
  ip : t.registers Register.IP =
    if name = py "LIT" then s.registers Register.IP + 1
    else if name = py "EXIT" then s.data.memory.cell s.data.return_stack.pointer
    else s.registers Register.IP
  pointer : t.data.return_stack.pointer = s.data.return_stack.pointer +
    if name = py ">R" then -1 else if name = py "R>" ∨ name = py "EXIT" then 1 else 0
  stack : name ∉ STORING →
    if name = py ">R" then ∃ x, returnStack t = x :: returnStack s
    else if name = py "R>" ∨ name = py "EXIT" then ∃ x, returnStack s = x :: returnStack t
    else returnStack t = returnStack s
  memory : name ∉ STORING → ∀ i, i < DICTIONARY_TOP → t.data.memory.cell i = s.data.memory.cell i

variable {s t : EmulatorService} {name : PyStr}

/-- A routine that leaves as its word has to. -/
lemma Sees.respects (h : Sees (name ∈ STORING) (bare s) (leaveOf name) (bare t)) :
    Respects name s t := by
  have pointer : t.data.return_stack.pointer = s.data.return_stack.pointer +
      if name = py ">R" then -1 else if name = py "R>" ∨ name = py "EXIT" then 1 else 0 := h.rp
  have keeps : name ∉ STORING → ∀ i, i < DICTIONARY_TOP ∨ s.data.return_stack.pointer ≤ i →
      t.data.memory.cell i = s.data.memory.cell i := fun other => h.frame (decide_eq_false other)
  refine ⟨?_, pointer, fun other => ?_, fun other i low => keeps other i (.inl low)⟩
  · refine h.ip.trans ?_
    rw [leaveOf]
    dsimp only
    split
    · rfl
    · split <;> rfl
  · have above : ∀ i, s.data.return_stack.pointer ≤ i →
        t.data.memory.cell i = s.data.memory.cell i := fun i le => keeps other i (.inr le)
    unfold returnStack
    by_cases pushed : name = py ">R"
    · rw [if_pos pushed] at pointer ⊢
      have grown := DownwardStackAdapter.contents_cons t.data.memory pointer
      rw [DownwardStackAdapter.contents_congr_above rfl above] at grown
      exact ⟨_, grown⟩
    · rw [if_neg pushed] at pointer ⊢
      by_cases popped : name = py "R>" ∨ name = py "EXIT"
      · rw [if_pos popped] at pointer ⊢
        have shrunk := DownwardStackAdapter.contents_pop s.data.memory pointer
        have rest : t.data.return_stack.contents t.data.memory =
            t.data.return_stack.contents s.data.memory :=
          DownwardStackAdapter.contents_congr_above rfl fun i le => above i (by omega)
        exact ⟨_, shrunk.trans (congrArg (_ :: ·) rest.symm)⟩
      · rw [if_neg popped] at pointer ⊢
        exact DownwardStackAdapter.contents_congr_above (pointer.trans (Int.add_zero _)) above

/-- A step of the emulator in the kernel's program is one of the bare machine. -/
lemma step_bare (program : s.program = kernelProgram) (e : advance s = .next t) :
    Bare.step (bare s) = .next (bare t) := by
  have wf : ∀ i ∈ (bare s).program, WellFormed i := by
    rw [show (bare s).program = kernelProgram from program]
    exact kernel_wellFormed
  exact bare_simulates.reflects_step e (Bare.step_known wf)

/-- Control goes on as the discipline says. -/
lemma Onward.control {r : Routine} {stores : Bool} {leave : Point} {v : Bare} {k : ℕ}
    (h : Onward r.base stores leave r.code v k (bare t)) (pc : s.pc = r.base + k)
    (next : v.regs Register.NEXT_POINTER = NEXT_INDEX) : Control r s t := by
  cases h with
  | within j h =>
    have there : t.pc = r.base + j := h.pc
    have lt := h.lt
    exact .stays ⟨by omega, by omega⟩
  | back at_k running there sees => exact .next ⟨k, pc, at_k⟩ (Eq.trans there next)
  | halt at_k halted there sees => exact .halts ⟨k, pc, at_k⟩ halted

/-- The calling convention of every CODE word. For every primitive, with the routine that its text
    assembles to, and every state in which the emulator enters that routine. In every state that the
    run comes to, `NEXTREG`, `W` and `XT` have their values, the emulator is in the routine's code
    unless it has come to `NEXT` or halted, and a step leads on within the code, through
    `JMP NEXTREG` to `NEXT`, or through `HALT` to the end. Where it has come to `NEXT`, `IP`, the
    return stack and the memory below the stacks are as the word has to leave them. -/
theorem calling_convention {p : KernelPrimitive} (mem : p ∈ PRIMITIVES) :
    ∃ r ∈ ROUTINES, r.lines = p.lines ∧
      ∀ s, Enters p.word.routine_label s → s.pc = r.base ∧
        ∀ t, Reaches routine s t →
          t.registers Register.NEXT_POINTER = s.registers Register.NEXT_POINTER ∧
          t.registers Register.W = s.registers Register.W ∧
          t.registers Register.XT = s.registers Register.XT ∧
          (InCode r t ∨ t.pc = NEXT_INDEX ∨ t.halted = true) ∧
          (∀ u, routine t = .next u → Control r t u) ∧
          (t.pc = NEXT_INDEX → Respects p.word.name s t) := by
  obtain ⟨r, tail, text, label, some, disciplined⟩ := routine_of_primitive mem
  have routine_mem := List.mem_of_mem_tail tail
  have wf : ∀ i ∈ r.code, WellFormed i := fun i hi =>
    kernel_wellFormed i (List.mem_flatten.mpr ⟨r.code, List.mem_map_of_mem routine_mem, hi⟩)
  refine ⟨r, routine_mem, text, fun s h => ?_⟩
  have pc : s.pc = r.base := by
    have known := h.pc
    rw [lookup_kernelLabels routine_mem label] at known
    exact (Option.some.inj known).symm
  have next : s.registers Register.NEXT_POINTER = NEXT_INDEX := by
    have known := h.next
    rw [lookup_NEXT] at known
    exact (Option.some.inj known).symm
  have loaded : Loaded r.code r.base (bare s) := by
    refine ⟨h.running, routines_above r tail, ?_⟩
    rw [show (bare s).program = kernelProgram from h.program]
    exact codeAt_kernel routine_mem
  have base : DATA_STACK_BASE ≤ (bare s).rp := s.data.return_stack.floor_le
  refine ⟨pc, fun t run => ?_⟩
  have course := disciplined.course loaded some wf pc next s.data.data_stack.le_base base
    (reaches_bare h.program run)
  cases course with
  | within k within =>
    have there : t.pc = r.base + k := within.pc
    have above := loaded.above
    have lt := within.lt
    obtain ⟨q, -, sees⟩ := within.sees
    refine ⟨sees.next, sees.w, sees.xt, .inl ⟨by omega, by omega⟩, fun u e => ?_, fun back => ?_⟩
    · have program : t.program = kernelProgram := Eq.trans sees.program h.program
      have onward := within.step disciplined loaded.codeAt wf base
        (step_bare program (step_of_upTo e).2)
      exact onward.control there next
    · omega
  | back running there sees =>
    refine ⟨sees.next, sees.w, sees.xt, .inr (.inl there), fun u e => ?_, fun _ => sees.respects⟩
    exact absurd there (step_of_upTo e).1
  | halt halted above sees =>
    obtain ⟨q, sees⟩ := sees
    refine ⟨sees.next, sees.w, sees.xt, .inr (.inr halted), fun u e => ?_, fun back => ?_⟩
    · have stopped : advance t = .halt := if_pos halted
      cases stopped.symm.trans (step_of_upTo e).2
    · exact absurd back (Int.ne_of_gt above)

/-- `>R` with one value on the data stack. -/
theorem calling_convention_push :
    let s := poised 118 (storing [(3071, 7)]) ⟨3071, by decide, by decide⟩ []
    ∃ t, Reaches routine s t ∧ t.registers Register.W = s.registers Register.W ∧
      ∃ x, returnStack t = [x] := by
  intro s
  have mem : TOR_primitive ∈ PRIMITIVES := List.mem_of_getElem? (i := 22) rfl
  have enters : Enters "TOR" s := poised_enters 23 rfl (.head _)
  have ds : s.data.contents.ds = [s.data.memory.cell 3071] := rfl
  have rs : s.data.contents.rs = [] := rfl
  clear_value s
  have meets := stackWord_meets (w := .TOR) (List.mem_map_of_mem mem) rfl enters
  rw [ds, rs] at meets
  have verdict : ∀ x, StackWord.TOR.verdict [x] [] 0 = .ok [] [x] := fun _ => rfl
  rw [verdict] at meets
  obtain ⟨t, r, back⟩ := meets.reaches
  have pc := (enters.back back).1
  rw [lookup_NEXT] at pc
  obtain ⟨_, -, -, convention⟩ := calling_convention mem
  obtain ⟨-, all⟩ := convention s enters
  obtain ⟨-, w, -, -, -, respects⟩ := all t r
  have stack := (respects (Option.some.inj pc).symm).stack (by decide +kernel)
  have named : TOR_primitive.word.name = py ">R" := rfl
  rw [if_pos named] at stack
  obtain ⟨x, grown⟩ := stack
  exact ⟨t, r, w, x, grown.trans (congrArg (x :: ·) rs)⟩

/-- `!` stores wherever it is told to, also on the return stack. -/
theorem store_changes_return_stack : ∃ s t : EmulatorService, Enters "STOREW" s ∧
    Reaches routine s t ∧ t.pc = NEXT_INDEX ∧ returnStack t ≠ returnStack s := by
  let memory := storing [(3070, 4095), (3071, 5), (4095, 7)]
  let s : EmulatorService :=
    { poised 106 memory ⟨3070, by decide, by decide⟩ [] with
      data := ⟨memory, ⟨3070, by decide, by decide⟩, ⟨4095, by decide, by decide⟩⟩ }
  have enters : Enters "STOREW" s := by
    have h : Enters "STOREW" (poised 106 memory ⟨3070, by decide, by decide⟩ []) :=
      poised_enters 20 rfl (.head _)
    exact ⟨h.program, h.running, h.pc, h.next⟩
  have cell : s.data.memory.cell = _ := cell_storing (by decide)
  have pointer : s.data.data_stack.pointer = 3070 := rfl
  have top : s.data.return_stack.pointer = 4095 := rfl
  have shape : ∀ t : EmulatorService, t.data.return_stack.pointer = 4095 →
      returnStack t = [t.data.memory.cell 4095] := by
    intro t e
    have depth : t.data.return_stack.depth = 1 := congrArg (fun p => (RETURN_STACK_BASE - p).toNat) e
    simp [returnStack, DownwardStackAdapter.contents, depth, e]
  have two : s.data.data_stack.pointer + (2 : ℕ) ≤ DATA_STACK_BASE :=
    (by decide : (3070 : ℤ) + (2 : ℕ) ≤ 3072)
  clear_value s
  have stores := store_words (.head _) enters
  have address : target 2 s.data = .ok 4095 := by
    rw [target, if_pos two, pointer, cell]
    decide
  rw [address] at stores
  obtain ⟨t, r, returns, stored⟩ := stores
  have back := returns.pc
  rw [lookup_NEXT] at back
  refine ⟨s, t, enters, r, (Option.some.inj back).symm, ?_⟩
  rw [shape s top, shape t (stored.return_pointer.trans top), stored.cell, Function.update_self,
    pointer, cell]
  decide

end MinCpuForth.Kernel
