import MinCpuForth.Kernel.Contract
import Mathlib.Algebra.Order.Group.Unbundled.Int
import Mathlib.Tactic.Ring

/-!
# The words that work on the stacks

Each of them by its stack comment, and what its routine does: it comes back to `NEXT` with the
stacks that the comment says, or raises the stack error that the comment calls for.
-/

namespace MinCpuForth.Kernel
open Python Domain Emulator Lib Routines View

/-- The words that work on the stacks alone, by the labels of their routines. -/
inductive StackWord where
  | DUP | DROP | SWAP | OVER | ROT | NROT | NIP | TUCK
  | PLUS | MINUS | MUL | NEGATE | ABS | ONEPLUS | ONEMINUS
  | TOR | FROMR | RFETCH
  | EQUALS | NOTEQUALS | LESSTHAN | GREATERTHAN | ZEROEQ | ZEROLT
  | BITAND | BITOR | BITINVERT
  deriving DecidableEq, Repr

/-- Forth's flags: all bits set for true. -/
def flag (p : Prop) [Decidable p] : ℤ := if p then -1 else 0

namespace StackWord

/-- The stack comments: the data stack and the return stack, top first, before and after. -/
def comment : StackWord → List ℤ → List ℤ → Option (List ℤ × List ℤ)
  | .DUP, a :: s, r => some (a :: a :: s, r)
  | .DROP, _ :: s, r => some (s, r)
  | .SWAP, b :: a :: s, r => some (a :: b :: s, r)
  | .OVER, b :: a :: s, r => some (a :: b :: a :: s, r)
  | .ROT, c :: b :: a :: s, r => some (a :: c :: b :: s, r)
  | .NROT, c :: b :: a :: s, r => some (b :: a :: c :: s, r)
  | .NIP, b :: _ :: s, r => some (b :: s, r)
  | .TUCK, b :: a :: s, r => some (b :: a :: b :: s, r)
  | .PLUS, b :: a :: s, r => some ((a + b) :: s, r)
  | .MINUS, b :: a :: s, r => some ((a - b) :: s, r)
  | .MUL, b :: a :: s, r => some ((a * b) :: s, r)
  | .NEGATE, a :: s, r => some (-a :: s, r)
  | .ABS, a :: s, r => some (|a| :: s, r)
  | .ONEPLUS, a :: s, r => some ((a + 1) :: s, r)
  | .ONEMINUS, a :: s, r => some ((a - 1) :: s, r)
  | .TOR, a :: s, r => some (s, a :: r)
  | .FROMR, s, a :: r => some (a :: s, r)
  | .RFETCH, s, a :: r => some (a :: s, a :: r)
  | .EQUALS, b :: a :: s, r => some (flag (a = b) :: s, r)
  | .NOTEQUALS, b :: a :: s, r => some (flag (a ≠ b) :: s, r)
  | .LESSTHAN, b :: a :: s, r => some (flag (a < b) :: s, r)
  | .GREATERTHAN, b :: a :: s, r => some (flag (a > b) :: s, r)
  | .ZEROEQ, a :: s, r => some (flag (a = 0) :: s, r)
  | .ZEROLT, a :: s, r => some (flag (a < 0) :: s, r)
  | .BITAND, b :: a :: s, r => some (Int.land a b :: s, r)
  | .BITOR, b :: a :: s, r => some (Int.lor a b :: s, r)
  | .BITINVERT, a :: s, r => some (Int.not a :: s, r)
  | _, _, _ => none

/-- The input on which no routine follows the stack comment: the multiplication counts its top
    operand down to zero. -/
def Endless (w : StackWord) (ds : List ℤ) : Prop :=
  w = .MUL ∧ match ds with
    | b :: _ :: _ => b < 0
    | _ => False

instance (w : StackWord) (ds : List ℤ) : Decidable (w.Endless ds) :=
  match ds with
  | [] | [_] => isFalse fun h => h.2
  | b :: _ :: _ => inferInstanceAs (Decidable (w = .MUL ∧ b < 0))

/-- What the word does to stacks of 1024 cells each, where `below` cells of the return stack are
    not its own. -/
def verdict (w : StackWord) (ds rs : List ℤ) (below : ℕ) : Verdict :=
  match w.comment ds rs with
  | none => .fault .stackUnderflow
  | some (ds', rs') =>
    if w.Endless ds then .diverges
    else if ds'.length ≤ 1024 ∧ below + rs'.length ≤ 1024 then .ok ds' rs'
    else .fault .stackOverflow

/-- The code of the word's routine at index `b`. -/
def code (b : ℤ) : StackWord → List InstructionDto
  | .DUP => DUP_code | .DROP => DROP_code | .SWAP => SWAP_code | .OVER => OVER_code
  | .ROT => ROT_code | .NROT => NROT_code | .NIP => NIP_code | .TUCK => TUCK_code
  | .PLUS => PLUS_code | .MINUS => MINUS_code | .MUL => MUL_code b | .NEGATE => NEGATE_code
  | .ABS => ABS_code | .ONEPLUS => ONEPLUS_code | .ONEMINUS => ONEMINUS_code
  | .TOR => TOR_code | .FROMR => FROMR_code | .RFETCH => RFETCH_code
  | .EQUALS => EQUALS_code | .NOTEQUALS => NOTEQUALS_code | .LESSTHAN => LESSTHAN_code
  | .GREATERTHAN => GREATERTHAN_code | .ZEROEQ => ZEROEQ_code | .ZEROLT => ZEROLT_code
  | .BITAND => BITAND_code | .BITOR => BITOR_code | .BITINVERT => BITINVERT_code

end StackWord

open StackWord

variable {v : View}

attribute [local simp] Does verdict comment Endless block

section StraightLine

/-! The routines without a branch are single blocks; the cases are the depths of the stack. -/

lemma DUP_does (h : Runs v) : Does DUP_code v (DUP.verdict v.ds v.rs 0) := by
  obtain ⟨running, ds_le, rs_le⟩ := h
  rcases e : v.ds with _ | ⟨a, s⟩ <;> simp only [e, List.length_cons] at ds_le
  · simp [DUP_code, e]
  · by_cases room : s.length + 1 < 1024
    · simp (disch := omega) [DUP_code, e, running, back_iff, keeps_iff, if_pos]
    · simp (disch := omega) [DUP_code, e, running, if_pos, if_neg]

lemma DROP_does (h : Runs v) : Does DROP_code v (DROP.verdict v.ds v.rs 0) := by
  obtain ⟨running, ds_le, rs_le⟩ := h
  rcases e : v.ds with _ | ⟨a, s⟩ <;> simp only [e, List.length_cons] at ds_le
  · simp [DROP_code, e]
  · simp (disch := omega) [DROP_code, e, running, back_iff, keeps_iff, if_pos]

lemma SWAP_does (h : Runs v) : Does SWAP_code v (SWAP.verdict v.ds v.rs 0) := by
  obtain ⟨running, ds_le, rs_le⟩ := h
  rcases e : v.ds with _ | ⟨b, _ | ⟨a, s⟩⟩ <;> simp only [e, List.length_cons] at ds_le
  · simp [SWAP_code, e]
  · simp [SWAP_code, e, running]
  · simp (disch := omega) [SWAP_code, e, running, back_iff, keeps_iff, if_pos]

lemma OVER_does (h : Runs v) : Does OVER_code v (OVER.verdict v.ds v.rs 0) := by
  obtain ⟨running, ds_le, rs_le⟩ := h
  rcases e : v.ds with _ | ⟨b, _ | ⟨a, s⟩⟩ <;> simp only [e, List.length_cons] at ds_le
  · simp [OVER_code, e]
  · simp [OVER_code, e, running]
  · by_cases room : s.length + 2 < 1024
    · simp (disch := omega) [OVER_code, e, running, back_iff, keeps_iff, if_pos]
    · simp (disch := omega) [OVER_code, e, running, if_pos, if_neg]

lemma ROT_does (h : Runs v) : Does ROT_code v (ROT.verdict v.ds v.rs 0) := by
  obtain ⟨running, ds_le, rs_le⟩ := h
  rcases e : v.ds with _ | ⟨c, _ | ⟨b, _ | ⟨a, s⟩⟩⟩ <;> simp only [e, List.length_cons] at ds_le
  · simp [ROT_code, e]
  · simp [ROT_code, e, running]
  · simp [ROT_code, e, running]
  · simp (disch := omega) [ROT_code, e, running, back_iff, keeps_iff, if_pos]

lemma NROT_does (h : Runs v) : Does NROT_code v (NROT.verdict v.ds v.rs 0) := by
  obtain ⟨running, ds_le, rs_le⟩ := h
  rcases e : v.ds with _ | ⟨c, _ | ⟨b, _ | ⟨a, s⟩⟩⟩ <;> simp only [e, List.length_cons] at ds_le
  · simp [NROT_code, e]
  · simp [NROT_code, e, running]
  · simp [NROT_code, e, running]
  · simp (disch := omega) [NROT_code, e, running, back_iff, keeps_iff, if_pos]

lemma NIP_does (h : Runs v) : Does NIP_code v (NIP.verdict v.ds v.rs 0) := by
  obtain ⟨running, ds_le, rs_le⟩ := h
  rcases e : v.ds with _ | ⟨b, _ | ⟨a, s⟩⟩ <;> simp only [e, List.length_cons] at ds_le
  · simp [NIP_code, e]
  · simp [NIP_code, e, running]
  · simp (disch := omega) [NIP_code, e, running, back_iff, keeps_iff, if_pos]

lemma TUCK_does (h : Runs v) : Does TUCK_code v (TUCK.verdict v.ds v.rs 0) := by
  obtain ⟨running, ds_le, rs_le⟩ := h
  rcases e : v.ds with _ | ⟨b, _ | ⟨a, s⟩⟩ <;> simp only [e, List.length_cons] at ds_le
  · simp [TUCK_code, e]
  · simp [TUCK_code, e, running]
  · by_cases room : s.length + 2 < 1024
    · simp (disch := omega) [TUCK_code, e, running, back_iff, keeps_iff, if_pos]
    · simp (disch := omega) [TUCK_code, e, running, if_pos, if_neg]

lemma PLUS_does (h : Runs v) : Does PLUS_code v (PLUS.verdict v.ds v.rs 0) := by
  obtain ⟨running, ds_le, rs_le⟩ := h
  rcases e : v.ds with _ | ⟨b, _ | ⟨a, s⟩⟩ <;> simp only [e, List.length_cons] at ds_le
  · simp [PLUS_code, e]
  · simp [PLUS_code, e, running]
  · simp (disch := omega) [PLUS_code, e, running, back_iff, keeps_iff, if_pos]

lemma MINUS_does (h : Runs v) : Does MINUS_code v (MINUS.verdict v.ds v.rs 0) := by
  obtain ⟨running, ds_le, rs_le⟩ := h
  rcases e : v.ds with _ | ⟨b, _ | ⟨a, s⟩⟩ <;> simp only [e, List.length_cons] at ds_le
  · simp [MINUS_code, e]
  · simp [MINUS_code, e, running]
  · simp (disch := omega) [MINUS_code, e, running, back_iff, keeps_iff, if_pos]

lemma NEGATE_does (h : Runs v) : Does NEGATE_code v (NEGATE.verdict v.ds v.rs 0) := by
  obtain ⟨running, ds_le, rs_le⟩ := h
  rcases e : v.ds with _ | ⟨a, s⟩ <;> simp only [e, List.length_cons] at ds_le
  · simp [NEGATE_code, e]
  · simp (disch := omega) [NEGATE_code, e, running, back_iff, keeps_iff, if_pos]

lemma ONEPLUS_does (h : Runs v) : Does ONEPLUS_code v (ONEPLUS.verdict v.ds v.rs 0) := by
  obtain ⟨running, ds_le, rs_le⟩ := h
  rcases e : v.ds with _ | ⟨a, s⟩ <;> simp only [e, List.length_cons] at ds_le
  · simp [ONEPLUS_code, e]
  · simp (disch := omega) [ONEPLUS_code, e, running, back_iff, keeps_iff, if_pos]

lemma ONEMINUS_does (h : Runs v) : Does ONEMINUS_code v (ONEMINUS.verdict v.ds v.rs 0) := by
  obtain ⟨running, ds_le, rs_le⟩ := h
  rcases e : v.ds with _ | ⟨a, s⟩ <;> simp only [e, List.length_cons] at ds_le
  · simp [ONEMINUS_code, e]
  · simp (disch := omega) [ONEMINUS_code, e, running, back_iff, keeps_iff, if_pos]

lemma BITAND_does (h : Runs v) : Does BITAND_code v (BITAND.verdict v.ds v.rs 0) := by
  obtain ⟨running, ds_le, rs_le⟩ := h
  rcases e : v.ds with _ | ⟨b, _ | ⟨a, s⟩⟩ <;> simp only [e, List.length_cons] at ds_le
  · simp [BITAND_code, e]
  · simp [BITAND_code, e, running]
  · simp (disch := omega) [BITAND_code, e, running, back_iff, keeps_iff, if_pos]

lemma BITOR_does (h : Runs v) : Does BITOR_code v (BITOR.verdict v.ds v.rs 0) := by
  obtain ⟨running, ds_le, rs_le⟩ := h
  rcases e : v.ds with _ | ⟨b, _ | ⟨a, s⟩⟩ <;> simp only [e, List.length_cons] at ds_le
  · simp [BITOR_code, e]
  · simp [BITOR_code, e, running]
  · simp (disch := omega) [BITOR_code, e, running, back_iff, keeps_iff, if_pos]

lemma BITINVERT_does (h : Runs v) : Does BITINVERT_code v (BITINVERT.verdict v.ds v.rs 0) := by
  obtain ⟨running, ds_le, rs_le⟩ := h
  rcases e : v.ds with _ | ⟨a, s⟩ <;> simp only [e, List.length_cons] at ds_le
  · simp [BITINVERT_code, e]
  · simp (disch := omega) [BITINVERT_code, e, running, back_iff, keeps_iff, if_pos]

lemma TOR_does (h : Runs v) : Does TOR_code v (TOR.verdict v.ds v.rs 0) := by
  obtain ⟨running, ds_le, rs_le⟩ := h
  rcases e : v.ds with _ | ⟨a, s⟩ <;> simp only [e, List.length_cons] at ds_le
  · simp [TOR_code, e]
  · by_cases room : v.rs.length < 1024
    · simp (disch := omega) [TOR_code, e, running, back_iff, keeps_iff, if_pos]
    · simp (disch := omega) [TOR_code, e, running, if_neg]

lemma FROMR_does (h : Runs v) : Does FROMR_code v (FROMR.verdict v.ds v.rs 0) := by
  obtain ⟨running, ds_le, rs_le⟩ := h
  rcases e : v.rs with _ | ⟨a, r⟩ <;> simp only [e, List.length_cons] at rs_le
  · simp [FROMR_code, e]
  · by_cases room : v.ds.length < 1024
    · simp (disch := omega) [FROMR_code, e, running, back_iff, keeps_iff, if_pos]
    · simp (disch := omega) [FROMR_code, e, running, if_neg]

lemma RFETCH_does (h : Runs v) : Does RFETCH_code v (RFETCH.verdict v.ds v.rs 0) := by
  obtain ⟨running, ds_le, rs_le⟩ := h
  rcases e : v.rs with _ | ⟨a, r⟩ <;> simp only [e, List.length_cons] at rs_le
  · simp [RFETCH_code, e]
  · by_cases room : v.ds.length < 1024
    · simp (disch := omega) [RFETCH_code, e, running, back_iff, keeps_iff, if_pos]
    · simp (disch := omega) [RFETCH_code, e, running, if_pos, if_neg]

end StraightLine

section Flags

/-! The comparisons branch to one of two ends, each of which pushes a constant. -/

/-- The two ends of a comparison: what it pushes if the branch is not taken, and if it is. -/
def flag_code (fall taken : ℤ) : List InstructionDto := [
  .SUB "Z" (.reg "Z"), .ADD "Z" (.imm fall), .PUSH_D "Z", .JMP "NEXTREG",
  .SUB "Z" (.reg "Z"), .ADD "Z" (.imm taken), .PUSH_D "Z", .JMP "NEXTREG"]

/-- A comparison that takes its branch if `p`. -/
lemma Meets.flag (is : List InstructionDto) (fall taken : ℤ) (p : Prop) [Decidable p] {s : List ℤ}
    (h : Runs v) (above : NEXT_INDEX < v.pc)
    (code : CodeAt v.program v.pc (is ++ flag_code fall taken))
    (room : s.length < 1024)
    (run : ∃ u, block is v = .next u ∧ Keeps v u ∧ u.mem = v.mem ∧ u.ds = s ∧ u.rs = v.rs ∧
      u.pc = v.pc + (is.length + if p then 4 else 0 : ℕ)) :
    Meets v (.ok ((if p then taken else fall) :: s) v.rs) := by
  obtain ⟨u, run, keeps, mem, rfl, rs, pc⟩ := run
  have running : u.halted = false := keeps.running.trans h.running
  have first : CodeAt v.program v.pc is := by
    simpa using code.part 0 is.length (Nat.zero_le _)
  refine Meets.after (upTo_next h.running above first run) keeps mem ?_
  rw [← keeps.program] at code
  by_cases hp : p
  · rw [if_pos hp] at pc ⊢
    refine Does.meets_part (n := 4) ?_ running above code pc (by simp [flag_code])
    simp [flag_code, running, room, back_iff, keeps_iff, rs]
  · rw [if_neg hp] at pc ⊢
    refine Does.meets_part (n := 4) ?_ running above code pc (by simp [flag_code])
    simp [flag_code, running, room, back_iff, keeps_iff, rs]

lemma EQUALS_meets (h : Runs v) (above : NEXT_INDEX < v.pc)
    (code : CodeAt v.program v.pc EQUALS_code) : Meets v (EQUALS.verdict v.ds v.rs 0) := by
  obtain ⟨running, ds_le, rs_le⟩ := id h
  rcases e : v.ds with _ | ⟨b, _ | ⟨a, s⟩⟩ <;> simp only [e, List.length_cons] at ds_le
  · exact Does.meets (by simp [EQUALS_code, e]) running above code
  · exact Does.meets (by simp [EQUALS_code, e, running]) running above code
  · have room : s.length < 1024 := by omega
    have run := Meets.flag (EQUALS_code.take 4) 0 (-1) (a - b = 0) h above code room (by
      by_cases c : a - b = 0 <;> simp [EQUALS_code, e, running, keeps_iff, Int.add_assoc, c])
    simpa (disch := omega) [StackWord.verdict, flag, sub_eq_zero, if_pos] using run

lemma NOTEQUALS_meets (h : Runs v) (above : NEXT_INDEX < v.pc)
    (code : CodeAt v.program v.pc NOTEQUALS_code) : Meets v (NOTEQUALS.verdict v.ds v.rs 0) := by
  obtain ⟨running, ds_le, rs_le⟩ := id h
  rcases e : v.ds with _ | ⟨b, _ | ⟨a, s⟩⟩ <;> simp only [e, List.length_cons] at ds_le
  · exact Does.meets (by simp [NOTEQUALS_code, e]) running above code
  · exact Does.meets (by simp [NOTEQUALS_code, e, running]) running above code
  · have room : s.length < 1024 := by omega
    have run := Meets.flag (NOTEQUALS_code.take 4) (-1) 0 (a - b = 0) h above code room (by
      by_cases c : a - b = 0 <;> simp [NOTEQUALS_code, e, running, keeps_iff, Int.add_assoc, c])
    simpa (disch := omega) [StackWord.verdict, flag, sub_eq_zero, if_pos] using run

lemma LESSTHAN_meets (h : Runs v) (above : NEXT_INDEX < v.pc)
    (code : CodeAt v.program v.pc LESSTHAN_code) : Meets v (LESSTHAN.verdict v.ds v.rs 0) := by
  obtain ⟨running, ds_le, rs_le⟩ := id h
  rcases e : v.ds with _ | ⟨b, _ | ⟨a, s⟩⟩ <;> simp only [e, List.length_cons] at ds_le
  · exact Does.meets (by simp [LESSTHAN_code, e]) running above code
  · exact Does.meets (by simp [LESSTHAN_code, e, running]) running above code
  · have room : s.length < 1024 := by omega
    have run := Meets.flag (LESSTHAN_code.take 4) 0 (-1) (a - b < 0) h above code room (by
      by_cases c : a - b < 0 <;> simp [LESSTHAN_code, e, running, keeps_iff, Int.add_assoc, c])
    simpa (disch := omega) [StackWord.verdict, flag, sub_neg, if_pos] using run

lemma GREATERTHAN_meets (h : Runs v) (above : NEXT_INDEX < v.pc)
    (code : CodeAt v.program v.pc GREATERTHAN_code) : Meets v (GREATERTHAN.verdict v.ds v.rs 0) := by
  obtain ⟨running, ds_le, rs_le⟩ := id h
  rcases e : v.ds with _ | ⟨b, _ | ⟨a, s⟩⟩ <;> simp only [e, List.length_cons] at ds_le
  · exact Does.meets (by simp [GREATERTHAN_code, e]) running above code
  · exact Does.meets (by simp [GREATERTHAN_code, e, running]) running above code
  · have room : s.length < 1024 := by omega
    have run := Meets.flag (GREATERTHAN_code.take 4) 0 (-1) (b - a < 0) h above code room (by
      by_cases c : b - a < 0 <;> simp [GREATERTHAN_code, e, running, keeps_iff, Int.add_assoc, c])
    simpa (disch := omega) [StackWord.verdict, flag, sub_neg, if_pos] using run

lemma ZEROEQ_meets (h : Runs v) (above : NEXT_INDEX < v.pc)
    (code : CodeAt v.program v.pc ZEROEQ_code) : Meets v (ZEROEQ.verdict v.ds v.rs 0) := by
  obtain ⟨running, ds_le, rs_le⟩ := id h
  rcases e : v.ds with _ | ⟨a, s⟩ <;> simp only [e, List.length_cons] at ds_le
  · exact Does.meets (by simp [ZEROEQ_code, e]) running above code
  · have run := Meets.flag (ZEROEQ_code.take 2) 0 (-1) (a = 0) h above code ds_le (by
      by_cases c : a = 0 <;> simp [ZEROEQ_code, e, running, keeps_iff, Int.add_assoc, c])
    simpa (disch := omega) [flag, if_pos] using run

lemma ZEROLT_meets (h : Runs v) (above : NEXT_INDEX < v.pc)
    (code : CodeAt v.program v.pc ZEROLT_code) : Meets v (ZEROLT.verdict v.ds v.rs 0) := by
  obtain ⟨running, ds_le, rs_le⟩ := id h
  rcases e : v.ds with _ | ⟨a, s⟩ <;> simp only [e, List.length_cons] at ds_le
  · exact Does.meets (by simp [ZEROLT_code, e]) running above code
  · have run := Meets.flag (ZEROLT_code.take 2) 0 (-1) (a < 0) h above code ds_le (by
      by_cases c : a < 0 <;> simp [ZEROLT_code, e, running, keeps_iff, Int.add_assoc, c])
    simpa (disch := omega) [flag, if_pos] using run

end Flags

lemma ABS_meets (h : Runs v) (above : NEXT_INDEX < v.pc)
    (code : CodeAt v.program v.pc ABS_code) : Meets v (ABS.verdict v.ds v.rs 0) := by
  obtain ⟨running, ds_le, rs_le⟩ := h
  rcases e : v.ds with _ | ⟨a, s⟩ <;> simp only [e, List.length_cons] at ds_le
  · exact Does.meets (by simp [ABS_code, e]) running above code
  · have first : CodeAt v.program v.pc (ABS_code.take 2) := by
      simpa using code.part 0 2 (Nat.zero_le _)
    obtain ⟨u, run, keeps, mem, x, ds, rs, pc⟩ : ∃ u, block (ABS_code.take 2) v = .next u ∧
        Keeps v u ∧ u.mem = v.mem ∧ u.regs "X" = a ∧ u.ds = s ∧ u.rs = v.rs ∧
        u.pc = v.pc + (if a < 0 then 4 else 2 : ℕ) := by
      by_cases neg : a < 0 <;> simp [ABS_code, e, running, keeps_iff, neg, Int.add_assoc]
    have room : s.length < 1024 := ds_le
    have running' : u.halted = false := keeps.running.trans running
    rw [← keeps.program] at code
    have rest : Meets u (.ok (|a| :: s) v.rs) := by
      by_cases neg : a < 0
      · rw [if_pos neg] at pc
        refine Does.meets_part (n := 4) ?_ running' above code pc (by simp [ABS_code])
        simp [ABS_code, back_iff, keeps_iff, running', x, ds, rs, abs_of_neg neg, room]
      · rw [if_neg neg] at pc
        have pos : |a| = a := abs_of_nonneg (Int.not_lt.mp neg)
        refine Does.meets_part (n := 2) ?_ running' above code pc (by simp [ABS_code])
        simp [ABS_code, back_iff, keeps_iff, running', x, ds, rs, pos, room]
    simpa (disch := omega) [if_pos] using Meets.after (upTo_next running above first run) keeps mem rest

section Multiplication

/-- At `MUL_LOOP`, `x` turns before the end, with the product `p` to come. -/
@[mk_iff] structure MulLoop (v : View) (s : List ℤ) (p x : ℤ) (u : View) : Prop where
  keeps : Keeps v u
  mem : u.mem = v.mem
  pc : u.pc = v.pc + (3 : ℕ)
  ds : u.ds = s
  rs : u.rs = v.rs
  count : u.regs "X" = x
  sum : u.regs "ACC" + x * u.regs "Y" = p

variable {s : List ℤ} {p x : ℤ} {u : View}

/-- A turn of the loop. -/
lemma MulLoop.turn (running : v.halted = false) (above : NEXT_INDEX < v.pc)
    (code : CodeAt v.program v.pc (MUL_code v.pc))
    (h : MulLoop v s p x u) (ne : x ≠ 0) :
    ∃ t, Progresses viewRoutine u t ∧ MulLoop v s p (x - 1) t := by
  obtain ⟨keeps, mem, pc, ds, rs, count, sum⟩ := h
  have running' : u.halted = false := keeps.running.trans running
  rw [← keeps.program] at code
  have sum' : u.regs "ACC" + u.regs "Y" + (x - 1) * u.regs "Y" = p := by
    rw [← sum]
    ring
  obtain ⟨t, run, next⟩ : ∃ t, block (((MUL_code v.pc).drop 3).take 6) u = .next t ∧
      MulLoop v s p (x - 1) t := by
    simp only [MUL_code, List.drop_succ_cons, List.drop_zero, List.take_succ_cons, List.take_zero]
    simp only [keeps_iff] at keeps
    simp [mulLoop_iff, keeps_iff, running, running', keeps, mem, ds, rs, count, sum', ne]
  exact ⟨t, upTo_progress code running' above 3 6 pc (by simp [MUL_code]) (by omega) run, next⟩

/-- The end of the loop. -/
lemma MulLoop.exit (running : v.halted = false) (above : NEXT_INDEX < v.pc)
    (code : CodeAt v.program v.pc (MUL_code v.pc))
    (room : s.length < 1024) (h : MulLoop v s p 0 u) :
    ∃ t, Reaches viewRoutine u t ∧ Back v (p :: s) v.rs t := by
  obtain ⟨keeps, mem, pc, ds, rs, count, sum⟩ := h
  have running' : u.halted = false := keeps.running.trans running
  rw [← keeps.program] at code
  have taken : block (((MUL_code v.pc).drop 3).take 1) u = .next { u with pc := u.pc + 1 + 5 } := by
    simp [MUL_code, count]
  have first := upTo_progress code running' above 3 1 pc (by simp [MUL_code]) (by omega) taken
  obtain ⟨t, r, back⟩ : Meets { u with pc := u.pc + 1 + 5 } (.ok (p :: s) v.rs) := by
    refine Does.meets_part (k := 9) (n := 2) ?_ running' above code (by simp only [pc]; omega)
      (by simp [MUL_code])
    simp only [Int.zero_mul, Int.add_zero] at sum
    simp [MUL_code, running', ds, rs, room, back_iff, keeps_iff, sum]
  have here : Keeps u { u with pc := u.pc + 1 + 5 } := by simp [keeps_iff]
  exact ⟨t, first.reaches.trans r, (keeps.trans here).trans back.keeps, back.mem.trans mem,
    back.pc.trans keeps.next, back.ds, back.rs⟩

lemma MUL_meets (h : Runs v) (above : NEXT_INDEX < v.pc)
    (code : CodeAt v.program v.pc (MUL_code v.pc)) : Meets v (MUL.verdict v.ds v.rs 0) := by
  obtain ⟨running, ds_le, rs_le⟩ := h
  rcases e : v.ds with _ | ⟨b, _ | ⟨a, s⟩⟩ <;> simp only [e, List.length_cons] at ds_le
  · exact Does.meets (by simp [MUL_code, e]) running above code
  · exact Does.meets (by simp [MUL_code, e, running]) running above code
  · obtain ⟨u, run, loop⟩ : ∃ u, block (((MUL_code v.pc).drop 0).take 3) v = .next u ∧
        MulLoop v s (a * b) b u := by
      simp [MUL_code, e, running, mulLoop_iff, keeps_iff, Int.add_assoc, Int.mul_comm]
    have enter := upTo_progress code running above 0 3 (by simp) (by simp [MUL_code]) (by omega) run
    by_cases neg : b < 0
    · -- The counter moves away from zero.
      have endless : Diverges viewRoutine u := by
        refine Diverges.of_invariant (fun t => ∃ y < 0, MulLoop v s (a * b) y t) ?_ ⟨b, neg, loop⟩
        rintro t ⟨y, hy, ht⟩
        obtain ⟨t', p, next⟩ := ht.turn running above code (by omega)
        exact ⟨t', p, y - 1, by omega, next⟩
      have m : Meets v .diverges := enter.reaches.diverges endless
      simpa [neg] using m
    · obtain ⟨t, r, back⟩ := Reaches.loop (fun k t => MulLoop v s (a * b) k t)
        (Back v (a * b :: s) v.rs) (fun t ht => ht.exit running above code (by omega))
        (fun k t ht => by
          obtain ⟨t', p, next⟩ := ht.turn running above code (by omega)
          exact ⟨t', p.reaches, by simpa using next⟩)
        b.toNat (by simpa [Int.toNat_of_nonneg (Int.not_lt.mp neg)] using loop)
      have m : Meets v (.ok (a * b :: s) v.rs) := ⟨t, enter.reaches.trans r, back⟩
      simpa (disch := omega) [neg, if_pos] using m

end Multiplication

/-- Every word does what its stack comment says. -/
theorem performs (w : StackWord) (h : Runs v) (above : NEXT_INDEX < v.pc)
    (code : CodeAt v.program v.pc (w.code v.pc)) :
    Meets v (w.verdict v.ds v.rs 0) := by
  cases w with
  | DUP => exact (DUP_does h).meets h.running above code
  | DROP => exact (DROP_does h).meets h.running above code
  | SWAP => exact (SWAP_does h).meets h.running above code
  | OVER => exact (OVER_does h).meets h.running above code
  | ROT => exact (ROT_does h).meets h.running above code
  | NROT => exact (NROT_does h).meets h.running above code
  | NIP => exact (NIP_does h).meets h.running above code
  | TUCK => exact (TUCK_does h).meets h.running above code
  | PLUS => exact (PLUS_does h).meets h.running above code
  | MINUS => exact (MINUS_does h).meets h.running above code
  | MUL => exact MUL_meets h above code
  | NEGATE => exact (NEGATE_does h).meets h.running above code
  | ABS => exact ABS_meets h above code
  | ONEPLUS => exact (ONEPLUS_does h).meets h.running above code
  | ONEMINUS => exact (ONEMINUS_does h).meets h.running above code
  | TOR => exact (TOR_does h).meets h.running above code
  | FROMR => exact (FROMR_does h).meets h.running above code
  | RFETCH => exact (RFETCH_does h).meets h.running above code
  | EQUALS => exact EQUALS_meets h above code
  | NOTEQUALS => exact NOTEQUALS_meets h above code
  | LESSTHAN => exact LESSTHAN_meets h above code
  | GREATERTHAN => exact GREATERTHAN_meets h above code
  | ZEROEQ => exact ZEROEQ_meets h above code
  | ZEROLT => exact ZEROLT_meets h above code
  | BITAND => exact (BITAND_does h).meets h.running above code
  | BITOR => exact (BITOR_does h).meets h.running above code
  | BITINVERT => exact (BITINVERT_does h).meets h.running above code

end MinCpuForth.Kernel
