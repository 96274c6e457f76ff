import MinCpuForth.Domain.Register
import MinCpuForth.Emulator.Block
import MinCpuForth.Kernel.Listing
import Mathlib.Tactic.MkIffOfInductiveProp

/-!
# What a routine promises

A routine is entered with the program index of `NEXT` in `NEXTREG`. It comes back to that index with
the registers of the threading core as they were, or it fails.
-/

namespace MinCpuForth.Kernel
open Python Domain Emulator Lib View

/-- A routine of the kernel lies in the kernel's program. -/
lemma codeAt_kernel {r : Routine} (mem : r ∈ ROUTINES) : CodeAt kernelProgram r.base r.code := by
  suffices h : ∀ (rs : List Routine) (address : ℤ), Contiguous address rs → r ∈ rs →
      ∃ pre post, (rs.map Routine.code).flatten = pre ++ (r.code ++ post) ∧
        r.base = address + pre.length by
    obtain ⟨pre, post, e, b⟩ := h ROUTINES 0 routines_contiguous mem
    exact ⟨pre, post, e, by omega⟩
  intro rs
  induction rs with
  | nil =>
    intro _ _ mem
    cases mem
  | cons r' rs ih =>
    intro address contiguous mem
    cases mem with
    | head => exact ⟨[], (rs.map Routine.code).flatten, rfl, by simpa using contiguous.1⟩
    | tail _ mem =>
      obtain ⟨pre, post, e, b⟩ := ih _ contiguous.2 mem
      refine ⟨r'.code ++ pre, post, ?_, ?_⟩
      · rw [List.map_cons, List.flatten_cons, e, List.append_assoc]
      · rw [b, List.length_append]
        omega

/-- A machine that has not halted, with its stacks within their capacity. -/
@[mk_iff] structure Runs (v : View) : Prop where
  running : v.halted = false
  ds_le : v.ds.length ≤ 1024
  rs_le : v.rs.length ≤ 1024

/-- The registers of the threading core, the program and the devices are as they were. -/
@[mk_iff keeps_iff'] structure Keeps (v u : View) : Prop where
  program : u.program = v.program
  running : u.halted = v.halted
  input : u.input = v.input
  output : u.output = v.output
  ip : u.regs Register.IP = v.regs Register.IP
  w : u.regs Register.W = v.regs Register.W
  xt : u.regs Register.XT = v.regs Register.XT
  next : u.regs Register.NEXT_POINTER = v.regs Register.NEXT_POINTER

namespace Keeps

variable {v u t : View}

lemma trans (h : Keeps v u) (h' : Keeps u t) : Keeps v t :=
  ⟨h'.program.trans h.program, h'.running.trans h.running, h'.input.trans h.input,
    h'.output.trans h.output, h'.ip.trans h.ip, h'.w.trans h.w, h'.xt.trans h.xt,
    h'.next.trans h.next⟩

end Keeps

/-- `Keeps`, with the names of the registers spelled out for the simplifier. -/
lemma keeps_iff {v u : View} : Keeps v u ↔
    u.program = v.program ∧ u.halted = v.halted ∧ u.input = v.input ∧ u.output = v.output ∧
      u.regs "IP" = v.regs "IP" ∧ u.regs "W" = v.regs "W" ∧ u.regs "XT" = v.regs "XT" ∧
      u.regs "NEXTREG" = v.regs "NEXTREG" :=
  keeps_iff' ..

/-- The routine entered at `v` has come back to `NEXT`, and only the stacks have changed. -/
structure Back (v : View) (ds rs : List ℤ) (u : View) : Prop where
  keeps : Keeps v u
  mem : u.mem = v.mem
  pc : u.pc = v.regs Register.NEXT_POINTER
  ds : u.ds = ds
  rs : u.rs = rs

lemma back_iff {v u : View} {ds rs : List ℤ} : Back v ds rs u ↔
    Keeps v u ∧ u.mem = v.mem ∧ u.pc = v.regs "NEXTREG" ∧ u.ds = ds ∧ u.rs = rs := by
  constructor
  · rintro ⟨keeps, mem, pc, hd, hr⟩
    exact ⟨keeps, mem, pc, hd, hr⟩
  · rintro ⟨keeps, mem, pc, hd, hr⟩
    exact ⟨keeps, mem, pc, hd, hr⟩

/-- What becomes of the two stacks. -/
inductive Verdict where
  | ok (ds rs : List ℤ)
  | fault (e : PyError)
  | diverges
  deriving DecidableEq, Repr

/-- The view as far as a routine goes: it stops when it comes to `NEXT`. -/
def viewRoutine : View → Outcome PyError View := upTo (fun v => v.pc = NEXT_INDEX) step

/-- The run from `v` as far as `NEXT` does what the verdict says. -/
def Meets (v : View) : Verdict → Prop
  | .ok ds rs => ∃ u, Reaches viewRoutine v u ∧ Back v ds rs u
  | .fault e => Fails viewRoutine v e
  | .diverges => Diverges viewRoutine v

/-- The block does what the verdict says. -/
def Does (is : List InstructionDto) (v : View) : Verdict → Prop
  | .ok ds rs => ∃ u, block is v = .next u ∧ Back v ds rs u
  | .fault e => block is v = .fail e
  | .diverges => False

/-- A routine that is one block. -/
lemma Does.meets {is : List InstructionDto} {v : View} {verdict : Verdict}
    (h : Does is v verdict) (running : v.halted = false) (above : NEXT_INDEX < v.pc)
    (code : CodeAt v.program v.pc is) : Meets v verdict := by
  cases verdict with
  | ok ds rs =>
    obtain ⟨u, e, back⟩ := h
    exact ⟨u, upTo_next running above code e, back⟩
  | fault e => exact upTo_fail running above code h
  | diverges => cases h

/-- The rest of a routine, from its `k`-th instruction on. -/
lemma Does.meets_part {code : List InstructionDto} {b : ℤ} {v : View} {verdict : Verdict} {k n : ℕ}
    (h : Does ((code.drop k).take n) v verdict) (running : v.halted = false) (above : NEXT_INDEX < b)
    (at_b : CodeAt v.program b code) (pc : v.pc = b + k) (le : k ≤ code.length) :
    Meets v verdict := by
  have there := at_b.part k n le
  rw [← pc] at there
  exact h.meets running (by omega) there

/-- What a run promises that begins with a run to `u`. -/
lemma Meets.after {v u : View} {ds rs : List ℤ} (r : Reaches viewRoutine v u) (keeps : Keeps v u)
    (mem : u.mem = v.mem) (h : Meets u (.ok ds rs)) : Meets v (.ok ds rs) := by
  obtain ⟨t, r', back⟩ := h
  exact ⟨t, r.trans r', keeps.trans back.keeps, back.mem.trans mem,
    back.pc.trans keeps.next, back.ds, back.rs⟩

end MinCpuForth.Kernel
