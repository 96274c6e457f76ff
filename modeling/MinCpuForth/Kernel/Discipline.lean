import MinCpuForth.Kernel.Calls

/-!
# The register discipline of the routines

A checker that goes through the code of a routine once. At every instruction it knows what has
become of `IP` and of the return stack, and where a jump through `R` leads. Code that it accepts
leaves the registers of the threading core alone, stays within itself until it goes back to `NEXT`
or halts, and stores only where it may.
-/

namespace MinCpuForth.Kernel
open Python Domain Adapters Assembler Emulator Lib Layout

/-- What becomes of `IP`. -/
inductive IpEffect where
  | kept
  /-- It has moved past a cell of the thread. -/
  | stepped
  /-- It has been loaded from the top of the return stack. -/
  | loaded
  deriving DecidableEq

/-- `IP`, in terms of the state in which the routine was entered. -/
def IpEffect.value (v : Bare) : IpEffect → ℤ
  | kept => v.regs Register.IP
  | stepped => v.regs Register.IP + 1
  | loaded => v.cell v.rp

/-- What is known where an instruction of a routine is about to be executed. -/
structure Point where
  /-- The value of `R`, through which the routine jumps. -/
  target : Option ℤ
  /-- `X` holds the cell that was on top of the return stack. -/
  saved : Bool
  /-- How many cells the return stack has lost. -/
  popped : ℤ
  ip : IpEffect
  deriving DecidableEq

/-- The registers that a routine has to leave alone, `IP` apart from the words that move it. -/
def RESERVED_REGISTERS : List PyStr :=
  [Register.NEXT_POINTER, Register.W, Register.XT, Register.IP]

namespace Point

/-- What is known where a routine begins, and at its labels. -/
def start : Point := ⟨none, false, 0, .kept⟩

/-- What is known after writing a register; `value` is what is known about `R` if it is the one. -/
def write (p : Point) (d : PyStr) (value : Option ℤ) : Option Point :=
  if d ∈ RESERVED_REGISTERS then none
  else some { p with target := if d = py "R" then value else p.target,
                     saved := p.saved && d ≠ py "X" }

/-- What is known after an instruction that goes on to the next one, if it may stand there. -/
def next (stores : Bool) (p : Point) (i : InstructionDto) : Option Point :=
  match i.opcode, i.a, i.b with
  | .STORE, _, _ => if stores then some p else none
  | .ADD, some d, some o =>
    if d = Register.IP then
      if o = .imm 1 ∧ p.ip = .kept then some { p with ip := .stepped } else none
    else p.write d (match o with | .imm n => p.target.map (· + n) | .reg _ => none)
  | .SUB, some d, some o => p.write d (if o = .reg d then some 0 else none)
  | .LOAD, some d, _ | .AND, some d, _ | .OR, some d, _ | .INVERT, some d, _ | .POP_D, some d, _
  | .IN, some d, _ => p.write d none
  | .PUSH_R, some r, _ =>
    if p.popped = 0 then some { p with popped := -1 }
    else if p.popped = 1 ∧ p.saved = true ∧ r = py "X" then some { p with popped := 0 }
    else none
  | .POP_R, some d, _ =>
    if p.popped = 0 ∧ stores = false then
      if d = Register.IP then
        if p.ip = .kept then some { p with popped := 1, ip := .loaded } else none
      else (p.write d none).map fun q => { q with popped := 1, saved := d = py "X" }
    else none
  | .PUSH_D, _, _ | .OUT, _, _ | .JZ, _, _ | .JS, _, _ => some p
  | _, _, _ => none

/-- Nothing more is known in `q` than in `p`. -/
def Weaker (q p : Point) : Prop :=
  q.popped = p.popped ∧ q.ip = p.ip ∧ (q.target = none ∨ q.target = p.target) ∧
    (q.saved = true → p.saved = true)

instance (q p : Point) : Decidable (q.Weaker p) := inferInstanceAs (Decidable (_ ∧ _ ∧ _ ∧ _))

/-- What is known at each instruction, going through the code in order. A jump is followed by a
    label. -/
def along (stores : Bool) : Point → List InstructionDto → List Point
  | _, [] => []
  | p, i :: is => p :: along stores ((p.next stores i).getD start) is

end Point

/-- The routine may go from a point to the one with that index. -/
def Arrives (ps : List Point) (p : Point) (j : ℤ) : Prop :=
  0 ≤ j ∧ ∃ q ∈ ps[j.toNat]?, q.Weaker p

instance (ps : List Point) (p : Point) (j : ℤ) : Decidable (Arrives ps p j) :=
  inferInstanceAs (Decidable (_ ∧ _))

/-- The instruction may stand at index `k` of a routine which lies at `b` and leaves as `leave`
    says. -/
def Allowed (b : ℤ) (stores : Bool) (leave : Point) (ps : List Point) (k : ℕ) (p : Point)
    (i : InstructionDto) : Prop :=
  match i.opcode, i.a, i.offset with
  | .JMP, some r, _ =>
    (r = Register.NEXT_POINTER ∧ leave.Weaker p) ∨
      (r = py "R" ∧ ∃ c ∈ p.target, Arrives ps p (c - b))
  | .JZ, _, some o | .JS, _, some o => Arrives ps p (k + 1) ∧ Arrives ps p (k + 1 + o)
  | .HALT, _, _ => True
  | _, _, _ => ∃ q ∈ p.next stores i, Arrives ps q (k + 1)

instance (b : ℤ) (stores : Bool) (leave : Point) (ps : List Point) (k : ℕ) (p : Point)
    (i : InstructionDto) : Decidable (Allowed b stores leave ps k p i) := by
  unfold Allowed
  split <;> infer_instance

/-- Every instruction may stand where it is. -/
def Disciplined (b : ℤ) (stores : Bool) (leave : Point) (code : List InstructionDto) : Prop :=
  let ps := Point.along stores .start code
  ∀ x ∈ (ps.zip code).zipIdx, Allowed b stores leave ps x.2 x.1.1 x.1.2

instance (b : ℤ) (stores : Bool) (leave : Point) (code : List InstructionDto) :
    Decidable (Disciplined b stores leave code) := List.decidableBAll ..

section Soundness

variable {stores : Bool} {p q : Point} {v₀ v u : Bare} {d : PyStr} {value : Option ℤ} {x : ℤ}

/-- A state agrees with what is known, the routine having been entered in `v₀`. -/
structure Sees (stores : Bool) (v₀ : Bare) (p : Point) (v : Bare) : Prop where
  program : v.program = v₀.program
  next : v.regs Register.NEXT_POINTER = v₀.regs Register.NEXT_POINTER
  w : v.regs Register.W = v₀.regs Register.W
  xt : v.regs Register.XT = v₀.regs Register.XT
  ip : v.regs Register.IP = p.ip.value v₀
  rp : v.rp = v₀.rp + p.popped
  sp_le : v.sp ≤ DATA_STACK_BASE
  /-- The memory below the stacks and the cells of the return stack. -/
  frame : stores = false → ∀ i, i < DICTIONARY_TOP ∨ v₀.rp ≤ i → v.cell i = v₀.cell i
  target : ∀ c, p.target = some c → v.regs (py "R") = c
  saved : p.saved = true → v.regs (py "X") = v₀.cell v₀.rp

namespace Sees

/-- Where the emulator is does not matter. -/
lemma move (h : Sees stores v₀ p v) (pc : ℤ) (halted : Bool) :
    Sees stores v₀ p { v with pc := pc, halted := halted } :=
  ⟨h.program, h.next, h.w, h.xt, h.ip, h.rp, h.sp_le, h.frame, h.target, h.saved⟩

/-- Less is known. -/
lemma weaken (h : Sees stores v₀ p v) (le : q.Weaker p) : Sees stores v₀ q v := by
  obtain ⟨popped, ip, target, saved⟩ := le
  refine ⟨h.program, h.next, h.w, h.xt, ?_, ?_, h.sp_le, h.frame, ?_, fun e => h.saved (saved e)⟩
  · rw [ip]
    exact h.ip
  · rw [popped]
    exact h.rp
  · intro c e
    rcases target with none | same
    · cases none.symm.trans e
    · exact h.target c (same.symm.trans e)

/-- A register of the routine's own is written. -/
lemma write (h : Sees stores v₀ p v) (e : p.write d value = some q)
    (known : d = py "R" → ∀ c, value = some c → x = c) : Sees stores v₀ q (v.setReg d x) := by
  unfold Point.write at e
  split at e
  · cases e
  rename_i own
  cases e
  simp only [RESERVED_REGISTERS, List.mem_cons, List.not_mem_nil, or_false, not_or] at own
  obtain ⟨next, w, xt, ip⟩ := own
  have other : ∀ {name : PyStr}, d ≠ name → (v.setReg d x).regs name = v.regs name :=
    fun ne => Function.update_of_ne (Ne.symm ne) ..
  refine ⟨h.program, (other next).trans h.next, (other w).trans h.w, (other xt).trans h.xt,
    (other ip).trans h.ip, h.rp, h.sp_le, h.frame, fun c e => ?_, fun e => ?_⟩
  · dsimp only at e
    split at e
    · rename_i same
      subst same
      rw [Bare.setReg_regs, if_pos rfl]
      exact known rfl c e
    · rename_i ne
      exact (other ne).trans (h.target c e)
  · simp only [Bool.and_eq_true, decide_eq_true_eq] at e
    exact (other e.2).trans (h.saved e.1)

/-- `IP` is written. -/
lemma write_ip (h : Sees stores v₀ p v) {effect : IpEffect} (value : x = effect.value v₀) :
    Sees stores v₀ { p with ip := effect } (v.setReg Register.IP x) := by
  have other : ∀ {name : PyStr}, Register.IP ≠ name →
      (v.setReg Register.IP x).regs name = v.regs name :=
    fun ne => Function.update_of_ne (Ne.symm ne) ..
  refine ⟨h.program, (other (by decide +kernel)).trans h.next,
    (other (by decide +kernel)).trans h.w, (other (by decide +kernel)).trans h.xt, ?_, h.rp,
    h.sp_le, h.frame, fun c e => (other (by decide +kernel)).trans (h.target c e),
    fun e => (other (by decide +kernel)).trans (h.saved e)⟩
  rw [Bare.setReg_regs, if_pos rfl]
  exact value

/-- A cell is written that is neither below the stacks nor on the return stack. -/
lemma setCell (h : Sees stores v₀ p v) {a : ℤ} (x : ℤ)
    (free : stores = false → DICTIONARY_TOP ≤ a ∧ a < v₀.rp) :
    Sees stores v₀ p (v.setCell a x) := by
  refine ⟨h.program, h.next, h.w, h.xt, h.ip, h.rp, h.sp_le, fun keep i place => ?_, h.target,
    h.saved⟩
  obtain ⟨low, high⟩ := free keep
  have ne : i ≠ a := by omega
  exact (Function.update_of_ne ne ..).trans (h.frame keep i place)

/-- `PUSH_D` -/
lemma push_d (h : Sees stores v₀ p v) (base : DATA_STACK_BASE ≤ v₀.rp) (x : ℤ)
    (room : DICTIONARY_TOP < v.sp) :
    Sees stores v₀ p ({ v with sp := v.sp - 1 }.setCell (v.sp - 1) x) := by
  have le := h.sp_le
  have pushed : Sees stores v₀ p { v with sp := v.sp - 1 } :=
    ⟨h.program, h.next, h.w, h.xt, h.ip, h.rp, Int.le_trans (Int.sub_le_self _ (by decide)) le,
      h.frame, h.target, h.saved⟩
  exact pushed.setCell x fun _ => ⟨by omega, by omega⟩

/-- `POP_D`, before the register is written. -/
lemma pop_d (h : Sees stores v₀ p v) (some : v.sp < DATA_STACK_BASE) :
    Sees stores v₀ p { v with sp := v.sp + 1 } :=
  ⟨h.program, h.next, h.w, h.xt, h.ip, h.rp, some, h.frame, h.target, h.saved⟩

/-- `PUSH_R`: a new cell, or the one that has been popped, back in its place. -/
lemma push_r (h : Sees stores v₀ p v) {r : PyStr} {b : Option Operand} {o : Option ℤ}
    (e : p.next stores ⟨.PUSH_R, some r, b, o⟩ = some q) (room : DATA_STACK_BASE < v.rp) :
    Sees stores v₀ q ({ v with rp := v.rp - 1 }.setCell (v.rp - 1) (v.regs r)) := by
  have lay := Layout.values
  have rp := h.rp
  simp only [Point.next] at e
  split at e
  · rename_i whole
    cases e
    refine ⟨h.program, h.next, h.w, h.xt, h.ip, ?_, h.sp_le, fun keep i place => ?_, h.target,
      h.saved⟩
    · change v.rp - 1 = v₀.rp + -1
      omega
    · have ne : i ≠ v.rp - 1 := by omega
      exact (Function.update_of_ne ne ..).trans (h.frame keep i place)
  · split at e
    · rename_i again
      obtain ⟨popped, saved, rfl⟩ := again
      cases e
      refine ⟨h.program, h.next, h.w, h.xt, h.ip, ?_, h.sp_le, fun keep i place => ?_, h.target,
        h.saved⟩
      · change v.rp - 1 = v₀.rp + 0
        omega
      · have cell : v.regs (py "X") = v₀.cell v₀.rp := h.saved saved
        change Function.update v.cell (v.rp - 1) (v.regs (py "X")) i = v₀.cell i
        by_cases same : i = v₀.rp
        · have top : v.rp - 1 = v₀.rp := by omega
          rw [same, top, Function.update_self, cell]
        · rw [Function.update_of_ne (by omega)]
          exact h.frame keep i place
    · cases e

/-- `POP_R`: into `IP`, or into a register of the routine's own. -/
lemma pop_r (h : Sees stores v₀ p v) {b : Option Operand} {o : Option ℤ}
    (e : p.next stores ⟨.POP_R, some d, b, o⟩ = some q) :
    Sees stores v₀ q ({ v with rp := v.rp + 1 }.setReg d (v.cell v.rp)) := by
  have rp := h.rp
  simp only [Point.next] at e
  split at e
  · rename_i fresh
    obtain ⟨whole, keep⟩ := fresh
    have same : v.rp = v₀.rp := by omega
    have top : v.cell v.rp = v₀.cell v₀.rp := by
      rw [same]
      exact h.frame keep _ (.inr (Int.le_refl _))
    rw [top]
    split at e
    · rename_i ip
      subst ip
      split at e
      · cases e
        have loaded := h.write_ip (show v₀.cell v₀.rp = IpEffect.loaded.value v₀ from rfl)
        exact ⟨loaded.program, loaded.next, loaded.w, loaded.xt, loaded.ip,
          congrArg (· + 1) same, loaded.sp_le, loaded.frame, loaded.target, loaded.saved⟩
      · cases e
    · obtain ⟨q', own, rfl⟩ := Option.map_eq_some_iff.mp e
      have known : d = py "R" → ∀ c, none = some c → v₀.cell v₀.rp = c := fun _ _ e => nomatch e
      have written := h.write own known
      refine ⟨written.program, written.next, written.w, written.xt, written.ip,
        congrArg (· + 1) same, written.sp_le, written.frame, written.target, fun e => ?_⟩
      have x : d = py "X" := of_decide_eq_true e
      subst x
      rw [Bare.setReg_regs, if_pos rfl]
  · cases e

/-- `ADD` to `IP`, or to a register of the routine's own. -/
lemma add (h : Sees stores v₀ p v) {a : Operand} {o : Option ℤ}
    (e : p.next stores ⟨.ADD, some d, some a, o⟩ = some q) :
    Sees stores v₀ q (v.setReg d (v.regs d + v.operand a)) := by
  simp only [Point.next] at e
  split at e
  · rename_i ip
    subst ip
    split at e
    · rename_i step
      obtain ⟨rfl, kept⟩ := step
      cases e
      have ip := h.ip
      rw [kept] at ip
      exact h.write_ip (congrArg (· + (1 : ℤ)) ip)
    · cases e
  · refine h.write e fun r c known => ?_
    subst r
    cases a with
    | reg name => cases known
    | imm n =>
      obtain ⟨c', at_r, rfl⟩ := Option.map_eq_some_iff.mp known
      exact congrArg (· + n) (h.target c' at_r)

/-- `SUB`: a register less itself is zero. -/
lemma sub (h : Sees stores v₀ p v) {a : Operand} {o : Option ℤ}
    (e : p.next stores ⟨.SUB, some d, some a, o⟩ = some q) :
    Sees stores v₀ q (v.setReg d (v.regs d - v.operand a)) := by
  refine h.write e fun r c known => ?_
  split at known
  · rename_i itself
    cases known
    subst itself
    exact Int.sub_self _
  · cases known

/-- What a routine knows after an instruction that goes on to the next one. -/
lemma next_instruction {i : InstructionDto} (wf : WellFormed i) (base : DATA_STACK_BASE ≤ v₀.rp)
    (h : Sees stores v₀ p v) (e : p.next stores i = some q)
    (ahead : i.opcode ≠ .JZ ∧ i.opcode ≠ .JS) (run : Bare.exec i v = .next u) :
    Sees stores v₀ q u ∧ u.pc = v.pc ∧ u.halted = v.halted := by
  cases wf with
  | load d r =>
    rw [Bare.exec_LOAD] at run
    split at run
    · cases run
      exact ⟨h.write e nofun, rfl, rfl⟩
    · split at run <;> cases run
      exact ⟨h.write e nofun, rfl, rfl⟩
  | store a r =>
    have given : stores = true ∧ p = q := by
      cases stores with
      | false => cases e
      | true => exact ⟨rfl, Option.some.inj e⟩
    obtain ⟨rfl, rfl⟩ := given
    rw [Bare.exec_STORE] at run
    split at run
    · cases run
      exact ⟨h.setCell _ nofun, rfl, rfl⟩
    · split at run <;> cases run
      exact ⟨h.setCell _ nofun, rfl, rfl⟩
  | add d a =>
    cases run
    exact ⟨h.add e, rfl, rfl⟩
  | sub d a =>
    cases run
    exact ⟨h.sub e, rfl, rfl⟩
  | and d a | or d a | invert d =>
    cases run
    exact ⟨h.write e nofun, rfl, rfl⟩
  | jmp r | halt => cases e
  | jz r o => exact absurd rfl ahead.1
  | js r o => exact absurd rfl ahead.2
  | push_d r =>
    cases e
    rw [Bare.exec_PUSH_D] at run
    split at run
    · rename_i room
      cases run
      exact ⟨h.push_d base _ room, rfl, rfl⟩
    · cases run
  | pop_d d =>
    rw [Bare.exec_POP_D] at run
    split at run
    · rename_i some
      cases run
      exact ⟨(h.pop_d some).write e nofun, rfl, rfl⟩
    · cases run
  | push_r r =>
    rw [Bare.exec_PUSH_R] at run
    split at run
    · rename_i room
      cases run
      exact ⟨h.push_r e room, rfl, rfl⟩
    · cases run
  | pop_r d =>
    rw [Bare.exec_POP_R] at run
    split at run
    · cases run
      exact ⟨h.pop_r e, rfl, rfl⟩
    · cases run
  | «in» d =>
    rw [Bare.exec_IN] at run
    split at run
    · cases run
    · cases run
      refine ⟨Sees.write ?_ e nofun, rfl, rfl⟩
      exact ⟨h.program, h.next, h.w, h.xt, h.ip, h.rp, h.sp_le, h.frame, h.target, h.saved⟩
  | out r =>
    cases e
    cases run
    refine ⟨?_, rfl, rfl⟩
    exact ⟨h.program, h.next, h.w, h.xt, h.ip, h.rp, h.sp_le, h.frame, h.target, h.saved⟩

end Sees

/-- There is a point for each instruction. -/
lemma length_along (stores : Bool) (p : Point) (code : List InstructionDto) :
    (Point.along stores p code).length = code.length := by
  induction code generalizing p with
  | nil => rfl
  | cons i is ih => exact congrArg (· + 1) (ih _)

/-- What the discipline says about an instruction. -/
lemma Disciplined.allowed {b : ℤ} {leave : Point} {code : List InstructionDto}
    (h : Disciplined b stores leave code) {k : ℕ} {i : InstructionDto}
    (hp : (Point.along stores .start code)[k]? = some p) (hi : code[k]? = some i) :
    Allowed b stores leave (Point.along stores .start code) k p i := by
  have pair : ((Point.along stores .start code).zip code)[k]? = some (p, i) :=
    List.getElem?_zip_eq_some.mpr ⟨hp, hi⟩
  exact h ((p, i), k) (List.mem_zipIdx_iff_getElem?.mpr pair)

/-- The kinds of instructions that may stand in a routine. -/
lemma Allowed.cases {b : ℤ} {leave : Point} {ps : List Point} {k : ℕ} {i : InstructionDto}
    (wf : WellFormed i) (h : Allowed b stores leave ps k p i) :
    (i = .JMP Register.NEXT_POINTER ∧ leave.Weaker p) ∨
    (i = .JMP (py "R") ∧ ∃ c, p.target = some c ∧ Arrives ps p (c - b)) ∨
    (∃ r o, (i = .JZ r o ∨ i = .JS r o) ∧ Arrives ps p (k + 1) ∧ Arrives ps p (k + 1 + o)) ∨
    i = .HALT ∨
    ((i.opcode ≠ .JZ ∧ i.opcode ≠ .JS) ∧ ∃ q, p.next stores i = some q ∧ Arrives ps q (k + 1)) := by
  cases wf with
  | jmp r =>
    rcases h with ⟨rfl, le⟩ | ⟨rfl, there⟩
    · exact .inl ⟨rfl, le⟩
    · exact .inr (.inl ⟨rfl, there⟩)
  | jz r o => exact .inr (.inr (.inl ⟨r, o, .inl rfl, h⟩))
  | js r o => exact .inr (.inr (.inl ⟨r, o, .inr rfl, h⟩))
  | halt => exact .inr (.inr (.inr (.inl rfl)))
  | _ => exact .inr (.inr (.inr (.inr ⟨⟨nofun, nofun⟩, h⟩)))

/-- The machine is in a routine, at its `k`-th instruction. -/
structure Within (b : ℤ) (stores : Bool) (code : List InstructionDto) (v₀ : Bare) (k : ℕ)
    (v : Bare) : Prop where
  running : v.halted = false
  pc : v.pc = b + k
  lt : k < code.length
  sees : ∃ p, (Point.along stores .start code)[k]? = some p ∧ Sees stores v₀ p v

/-- Where a step from the `k`-th instruction takes the machine. -/
inductive Onward (b : ℤ) (stores : Bool) (leave : Point) (code : List InstructionDto) (v₀ : Bare)
    (k : ℕ) (u : Bare) : Prop
  | within (j : ℕ) (h : Within b stores code v₀ j u)
  | back (at_k : code[k]? = some (.JMP Register.NEXT_POINTER)) (running : u.halted = false)
      (pc : u.pc = v₀.regs Register.NEXT_POINTER) (sees : Sees stores v₀ leave u)
  | halt (at_k : code[k]? = some .HALT) (halted : u.halted = true) (pc : u.pc = b + k + 1)
      (sees : ∃ p, Sees stores v₀ p u)

variable {b : ℤ} {leave : Point} {code : List InstructionDto} {k : ℕ}

/-- The routine arrives at one of its instructions. -/
lemma Arrives.within {j : ℤ} (h : Arrives (Point.along stores .start code) p j)
    (running : u.halted = false) (pc : u.pc = b + j) (sees : Sees stores v₀ p u) :
    ∃ j, Within b stores code v₀ j u := by
  obtain ⟨pos, q, there, le⟩ := h
  have lt := (List.getElem?_eq_some_iff.mp there).1
  rw [length_along] at lt
  exact ⟨j.toNat, running, by omega, lt, q, there, sees.weaken le⟩

/-- A step within a routine. -/
lemma Within.step (d : Disciplined b stores leave code) (there : CodeAt v₀.program b code)
    (wf : ∀ i ∈ code, WellFormed i) (base : DATA_STACK_BASE ≤ v₀.rp)
    (h : Within b stores code v₀ k v) (e : Bare.step v = .next u) :
    Onward b stores leave code v₀ k u := by
  obtain ⟨running, pc, lt, p, at_k, sees⟩ := h
  have here := there.part k (code.length - k) lt.le
  rw [← pc, ← sees.program, List.take_of_length_le (by simp), List.drop_eq_getElem_cons lt] at here
  rw [Bare.step_fetch running here] at e
  have hi : code[k]? = some code[k] := List.getElem?_eq_getElem lt
  have moved := sees.move (v.pc + 1) v.halted
  rcases (d.allowed at_k hi).cases (wf _ (List.getElem_mem lt)) with
    ⟨jmp, le⟩ | ⟨jmp, c, known, arrives⟩ | ⟨r, o, jump, ahead, taken⟩ | halt | ⟨straight, q, hq, ahead⟩
  · rw [jmp, Bare.exec_JMP] at e
    cases e
    exact .back (hi.trans (congrArg some jmp)) running sees.next
      ((sees.move _ _).weaken le)
  · rw [jmp, Bare.exec_JMP] at e
    cases e
    have pc' : v.regs (py "R") = b + (c - b) := by
      rw [sees.target c known]
      omega
    obtain ⟨j, within⟩ := arrives.within (u := { v with pc := v.regs (py "R") }) running pc'
      (sees.move _ _)
    exact .within j within
  · obtain ⟨j, rfl, arrives⟩ : ∃ j : ℤ, u = { v with pc := b + j } ∧
        Arrives (Point.along stores .start code) p j := by
      have fall : v.pc + 1 = b + (k + 1) := by omega
      have jump' : v.pc + 1 + o = b + (k + 1 + o) := by omega
      rcases jump with jz | js
      · rw [jz, Bare.exec_JZ] at e
        cases e
        split
        · exact ⟨k + 1 + o, by rw [← jump'], taken⟩
        · exact ⟨k + 1, by rw [← fall], ahead⟩
      · rw [js, Bare.exec_JS] at e
        cases e
        split
        · exact ⟨k + 1 + o, by rw [← jump'], taken⟩
        · exact ⟨k + 1, by rw [← fall], ahead⟩
    obtain ⟨j, within⟩ := arrives.within (u := { v with pc := b + j }) running rfl (sees.move _ _)
    exact .within j within
  · rw [halt, Bare.exec_HALT] at e
    cases e
    exact .halt (hi.trans (congrArg some halt)) rfl (congrArg (· + 1) pc) ⟨p, sees.move _ _⟩
  · obtain ⟨sees', pc', running'⟩ := moved.next_instruction (wf _ (List.getElem_mem lt)) base hq
      straight e
    have place : u.pc = v.pc + 1 := pc'
    have next_pc : u.pc = b + ((k : ℤ) + 1) := by omega
    obtain ⟨j, within⟩ := ahead.within (running'.trans running) next_pc sees'
    exact .within j within

/-- How far the run of a routine has come. -/
inductive Course (b : ℤ) (stores : Bool) (leave : Point) (code : List InstructionDto) (v₀ v : Bare) :
    Prop
  | within (k : ℕ) (h : Within b stores code v₀ k v)
  | back (running : v.halted = false) (pc : v.pc = NEXT_INDEX) (sees : Sees stores v₀ leave v)
  | halt (halted : v.halted = true) (above : NEXT_INDEX < v.pc) (sees : ∃ p, Sees stores v₀ p v)

/-- Every state that the run of a routine comes to. -/
lemma Disciplined.course (d : Disciplined b stores leave code) (loaded : Loaded code b v₀)
    (some : 0 < code.length) (wf : ∀ i ∈ code, WellFormed i) (pc : v₀.pc = b)
    (next : v₀.regs Register.NEXT_POINTER = NEXT_INDEX) (sp_le : v₀.sp ≤ DATA_STACK_BASE)
    (base : DATA_STACK_BASE ≤ v₀.rp) (r : Reaches bareRoutine v₀ v) :
    Course b stores leave code v₀ v := by
  induction r with
  | refl =>
    obtain ⟨i, is, e⟩ := List.exists_cons_of_length_pos some
    refine .within 0 ⟨loaded.running, by simpa using pc, some, .start, ?_, ?_⟩
    · rw [e]
      rfl
    · exact ⟨rfl, rfl, rfl, rfl, rfl, (Int.add_zero _).symm, sp_le, fun _ _ _ => rfl, nofun, nofun⟩
  | tail _ e ih =>
    obtain ⟨goes_on, e⟩ := step_of_upTo e
    cases ih with
    | within k h =>
      have above := loaded.above
      cases h.step d loaded.codeAt wf base e with
      | within j h => exact .within j h
      | back _ running pc sees => exact .back running (pc.trans next) sees
      | halt _ halted pc sees => exact .halt halted (by omega) sees
    | back _ pc _ => exact absurd pc goes_on
    | halt halted _ _ =>
      rw [Bare.step, if_pos halted] at e
      cases e

end Soundness

end MinCpuForth.Kernel
