import MinCpuForth.Emulator.Fetch
import MinCpuForth.Emulator.Symmetry

/-!
# Programs one after the other

Branches are relative, so a program without jumps, none of whose branches leaves it, does the same
wherever it is placed. Two such programs one after the other run as the first does, and where it
runs past its end, as the second does from there.
-/

namespace MinCpuForth.Emulator
open Python Domain Adapters Lib EmulatorService

/-- A program without jumps, with all branch targets inside it or at its end. -/
def Relocatable (code : List InstructionDto) : Prop :=
  ∀ (k : ℕ) i, code[k]? = some i → i.opcode ≠ .JMP ∧
    ∀ o : ℤ, i.offset = some o → 0 ≤ k + 1 + o ∧ k + 1 + o ≤ code.length

/-- The emulator with its program placed somewhere in another. -/
def EmulatorService.placed (program : List InstructionDto) (start : ℤ) (s : EmulatorService) :
    EmulatorService :=
  { s with program := program, pc := s.pc + start }

/-- The same at the end of a run. -/
def placedEnd (program : List InstructionDto) (start : ℤ) :
    EStateM.Result PyError EmulatorService Unit → EStateM.Result PyError EmulatorService Unit
  | .ok a s => .ok a (s.placed program start)
  | .error e s => .error e (s.placed program start)

/-- An emulator inside the program or at its end, and the same emulator with the program placed
    between two others. -/
structure Placed (pre code post : List InstructionDto) (s t : EmulatorService) : Prop where
  program : s.program = code
  low : 0 ≤ s.pc
  high : s.pc ≤ code.length
  placed : t = s.placed (pre ++ code ++ post) pre.length

namespace Placed

variable {pre code post : List InstructionDto} {s t : EmulatorService}

/-- What the handlers do, but for branches and jumps, leaves `pc` where it is. -/
lemma symmetric (pre code post : List InstructionDto) (pc : ℤ) :
    Symmetric (fun _ => False) (Placed pre code post) (fun _ => True) id
      fun s t => Placed pre code post s t ∧ s.pc = pc where
  stopped _ _ h := h.1
  read := by
    rintro r - s t ⟨h, -⟩
    obtain rfl := h.placed
    rfl
  write := by
    rintro r - v s t ⟨h, here⟩
    obtain rfl := h.placed
    exact .ok ⟨rfl, ⟨h.program, h.low, h.high, rfl⟩, here⟩
  data op := by
    rintro s t ⟨h, here⟩
    obtain rfl := h.placed
    have same : (s.placed (pre ++ code ++ post) pre.length).data = s.data := rfl
    simp only [onData, same]
    cases op s.data with
    | ok a d => exact .ok ⟨rfl, ⟨h.program, h.low, h.high, rfl⟩, here⟩
    | error e d => exact .error ⟨h.program, h.low, h.high, rfl⟩
  input := by
    rintro s t ⟨h, here⟩
    obtain rfl := h.placed
    have same : (s.placed (pre ++ code ++ post) pre.length).char_input = s.char_input := rfl
    simp only [readInput, same]
    cases s.char_input with
    | nil => exact .error h
    | cons c cs => exact .ok ⟨rfl, ⟨h.program, h.low, h.high, rfl⟩, here⟩
  output v := by
    rintro s t ⟨h, here⟩
    obtain rfl := h.placed
    exact .ok ⟨rfl, ⟨h.program, h.low, h.high, rfl⟩, here⟩
  halt := by
    rintro s t ⟨h, here⟩
    obtain rfl := h.placed
    exact ⟨⟨h.program, h.low, h.high, rfl⟩, here⟩

/-- One step inside the program. -/
lemma step (reloc : Relocatable code) (h : Placed pre code post s t) (lt : s.pc < code.length) :
    CoupledEnds (fun _ => False) (Placed pre code post) (Equally (Placed pre code post)) (step s)
      (step t) := by
  obtain ⟨k, pc⟩ : ∃ k : ℕ, s.pc = k := Int.eq_ofNat_of_zero_le h.low
  have inside : k < code.length := by omega
  obtain ⟨i, found⟩ : ∃ i, code[k]? = some i := ⟨_, List.getElem?_eq_getElem inside⟩
  obtain ⟨noJump, targets⟩ := reloc k i found
  obtain rfl := h.placed
  have pc' : (s.placed (pre ++ code ++ post) pre.length).pc = (pre.length + k : ℕ) := by
    show s.pc + pre.length = _
    omega
  have found' : (s.placed (pre ++ code ++ post) pre.length).program[pre.length + k]? = some i := by
    show (pre ++ code ++ post)[pre.length + k]? = some i
    rw [List.append_assoc, List.getElem?_append_right (by omega), Nat.add_sub_cancel_left,
      List.getElem?_append_left inside]
    exact found
  have executed : Coupled (fun _ => False) (Placed pre code post)
      (fun s t => Placed pre code post s t ∧ s.pc = k + 1) (execute i) (execute (i.rename id))
      (Equally (Placed pre code post)) := by
    refine (symmetric pre code post (k + 1)).execute (fun _ _ => trivial) (fun _ _ kept => kept.1)
      (fun isJump => absurd isJump noJump) ?_
    rintro o target s t ⟨kept, here⟩
    obtain ⟨low, high⟩ := targets o target
    obtain rfl := kept.placed
    refine .ok ⟨rfl, kept.program, ?_, ?_, ?_⟩
    · show 0 ≤ s.pc + o
      omega
    · show s.pc + o ≤ code.length
      omega
    · show { s with program := _, pc := s.pc + pre.length + o } = _
      rw [add_right_comm]
      rfl
  rw [InstructionDto.rename_id] at executed
  rw [step_at pc (h.program ▸ found), step_at pc' found']
  refine executed _ _ ⟨⟨h.program, ?_, ?_, ?_⟩, rfl⟩
  · show (0 : ℤ) ≤ k + 1
    omega
  · show (k : ℤ) + 1 ≤ code.length
    omega
  · have next : ((pre.length + k : ℕ) : ℤ) + 1 = k + 1 + pre.length := by omega
    rw [next]
    rfl

/-- Where a step returns, it is a step inside the program. -/
lemma next (reloc : Relocatable code) (h : Placed pre code post s t) {s' : EmulatorService}
    (run : EmulatorService.step s = .ok () s') :
    ∃ t', EmulatorService.step t = .ok () t' ∧ Placed pre code post s' t' := by
  have lt : s.pc < code.length := by
    by_contra past
    have fails := (step_fetches s).2.2 (.inr (h.program ▸ Int.not_lt.mp past))
    cases fails.symm.trans run
  obtain ⟨_, t', run', -, h'⟩ := (h.step reloc lt).returns run
  exact ⟨t', run', h'⟩

/-- Steps that return. -/
lemma goes (reloc : Relocatable code) (h : Placed pre code post s t) {k : ℕ} {s' : EmulatorService}
    (steps : Goes (·.halted) EmulatorService.step k s s') :
    ∃ t', Goes (·.halted) EmulatorService.step k t t' ∧ Placed pre code post s' t' := by
  induction steps generalizing t with
  | refl => exact ⟨t, .refl, h⟩
  | head going run _ ih =>
    obtain ⟨t', run', h'⟩ := h.next reloc run
    obtain ⟨u, steps', last⟩ := ih h'
    have going' : t.halted = false := by
      obtain rfl := h.placed
      exact going
    exact ⟨u, .head going' run' steps', last⟩

/-- Where nothing follows the program, the two go on and past the end alike. -/
lemma last_step (reloc : Relocatable code) (h : Placed pre code [] s t) :
    CoupledEnds (fun _ => False) (Placed pre code []) (Equally (Placed pre code []))
      (EmulatorService.step s) (EmulatorService.step t) := by
  by_cases lt : s.pc < code.length
  · exact h.step reloc lt
  · have past := Int.not_lt.mp lt
    have fails := (step_fetches s).2.2 (.inr (h.program ▸ past))
    have past' : (t.program.length : ℤ) ≤ t.pc := by
      obtain rfl := h.placed
      show ((pre ++ code ++ []).length : ℤ) ≤ s.pc + pre.length
      simp only [List.append_nil, List.length_append]
      omega
    have fails' := (step_fetches t).2.2 (.inr past')
    rw [fails, fails']
    exact .error h

/-- Ends that are alike. -/
lemma ends {r r' : EStateM.Result PyError EmulatorService Unit}
    (h : CoupledEnds (fun _ => False) (Placed pre code post) (Equally (Placed pre code post)) r
      r') :
    r' = placedEnd (pre ++ code ++ post) pre.length r := by
  cases h with
  | ok ends =>
    obtain ⟨-, related⟩ := ends
    obtain rfl := related.placed
    rfl
  | error related =>
    obtain rfl := related.placed
    rfl
  | lost impossible => exact impossible.elim

end Placed

variable {A B : List InstructionDto}

/-- A program at the beginning of another. -/
lemma placed_first (s : EmulatorService) (A B : List InstructionDto) :
    Placed [] A B (s.load A) (s.load (A ++ B)) :=
  ⟨rfl, Int.le_refl 0, Int.natCast_nonneg _, rfl⟩

/-- The second program, where the first one runs past its end. -/
lemma placed_second {u t : EmulatorService} (h : Placed [] A B u t) (running : u.halted = false)
    (past : u.pc = A.length) : Placed A B [] (u.load B) t := by
  refine ⟨rfl, Int.le_refl 0, Int.natCast_nonneg _, ?_⟩
  obtain rfl := h.placed
  have pc : u.pc + ([] : List InstructionDto).length = 0 + A.length := by
    rw [past]
    exact add_comm _ _
  have program : [] ++ A ++ B = A ++ B ++ [] := (List.append_nil _).symm
  simp only [EmulatorService.placed, load, pc, program, running]

/-- Two programs one after the other, neither of which jumps or branches out of itself. Where the
    first runs past its end, the second runs from the state that it has left, with the steps that
    remain; where the first never does, the second has no part in the run. -/
theorem append_run (relocA : Relocatable A) (relocB : Relocatable B) (s : EmulatorService)
    (max_steps : ℤ) :
    (∀ (k : ℕ) u, k ≤ max_steps → iterate step k (s.load A) = .ok () u → u.halted = false →
      u.pc = A.length → run max_steps (s.load (A ++ B)) =
        placedEnd (A ++ B) A.length (runLoop max_steps k (u.load B))) ∧
    ((∀ (k : ℕ) u, k ≤ max_steps → iterate step k (s.load A) = .ok () u → u.halted = false →
      u.pc ≠ A.length) →
      run max_steps (s.load (A ++ B)) = placedEnd (A ++ B) 0 (run max_steps (s.load A))) := by
  have first := placed_first s A B
  constructor
  · intro k u le steps running past
    have goes := Goes.of_iterate step_halted steps running
    obtain ⟨t, goes', related⟩ := first.goes relocA goes
    have whole : (max_steps - 0).toNat = k + (max_steps - k).toNat := by omega
    have rest := runLoop_coupled
      (fun s t (h : Placed A B [] s t ∧ s.halted = false) => h.1.last_step relocB)
      (fun s t h => by obtain rfl := h.placed; rfl) max_steps k _ _
      (placed_second related running past)
    have same : run max_steps (s.load (A ++ B)) = runLoop max_steps k t := by
      rw [run, runLoop_eq, runLoop_eq, whole, goes'.untilStop]
    rw [same, Placed.ends rest, List.append_nil]
  · intro inside
    have halts : run max_steps = _ := runLoop_eq max_steps 0
    cases ends : run max_steps (s.load A) with
    | ok _ u =>
      obtain ⟨k, le, goes, halted⟩ := untilStop_ok.mp ((congrFun halts _).symm.trans ends)
      obtain ⟨t, goes', related⟩ := first.goes relocA goes
      obtain rfl := related.placed
      exact (congrFun halts _).trans (untilStop_ok.mpr ⟨k, le, goes', halted⟩)
    | error e u =>
      rcases untilStop_error ((congrFun halts _).symm.trans ends) with
        ⟨k, lt, v, goes, running, raised⟩ | ⟨rfl, goes, running⟩
      · obtain ⟨t, goes', related⟩ := first.goes relocA goes
        have apart := inside k v (by omega) (Goes.iff_iterate.mp goes).1 running
        have lt' : v.pc < A.length := Int.lt_iff_le_and_ne.mpr ⟨related.high, apart⟩
        obtain ⟨t', raised', related'⟩ := (related.step relocA lt').raises raised id
        obtain rfl := related'.placed
        have running' : t.halted = false := by
          obtain rfl := related.placed
          exact running
        exact (congrFun halts _).trans (goes'.raises_within running' raised' lt)
      · obtain ⟨t, goes', related⟩ := first.goes relocA goes
        obtain rfl := related.placed
        exact (congrFun halts _).trans (goes'.exceeds running)

/-- A branch past the end of the first program leads to the second. -/
theorem append_run_branch : ∃ s u : EmulatorService,
    run 2 (s.load [.JZ "X" 1, .OUT "X", .HALT]) =
      placedEnd [.JZ "X" 1, .OUT "X", .HALT] 2 (runLoop 2 1 (u.load [.HALT])) := by
  let A : List InstructionDto := [.JZ "X" 1, .OUT "X"]
  let s : EmulatorService :=
    ⟨fun _ => 0, ⟨.zeroed _, .init .., .init ..⟩, [], [], [], 0, false⟩
  let u : EmulatorService := { s with program := A, pc := 2 }
  have relocA : Relocatable A := by
    intro k i found
    rcases k with _ | _ | k
    · cases found
      refine ⟨by decide, fun o target => ?_⟩
      cases target
      decide
    · cases found
      exact ⟨by decide, fun o target => by cases target⟩
    · cases found
  have relocB : Relocatable [.HALT] := by
    intro k i found
    rcases k with _ | k
    · cases found
      exact ⟨by decide, fun o target => by cases target⟩
    · cases found
  have branch : step (s.load A) = .ok () u := rfl
  have steps : iterate step 1 (s.load A) = .ok () u := (bind_ok branch).trans rfl
  have runs := (append_run relocA relocB s 2).1 1 u (by decide) steps rfl rfl
  exact ⟨s, u, runs⟩

end MinCpuForth.Emulator
