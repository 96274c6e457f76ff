import MinCpuForth.Assembler.Listing
import MinCpuForth.Kernel.Routines

/-!
# The assembled kernel

What every routine assembles to, and where it lies. The code of a routine that jumps to a label of
its own depends on the index `b` of its first instruction.
-/

namespace MinCpuForth.Kernel
open Python Domain Assembler

namespace Routines

def CORE_code (b : ℤ) : List InstructionDto := [
  .SUB "NEXTREG" (.reg "NEXTREG"), .ADD "NEXTREG" (.imm (b + 3)), .JMP "NEXTREG",
  -- NEXT
  .LOAD "W" "IP", .ADD "IP" (.imm 1), .LOAD "XT" "W", .JMP "XT",
  -- ENTER
  .PUSH_R "IP", .ADD "W" (.imm 1), .SUB "IP" (.reg "IP"), .ADD "IP" (.reg "W"), .JMP "NEXTREG"]

def LIT_code : List InstructionDto := [
  .LOAD "ACC" "IP", .PUSH_D "ACC", .ADD "IP" (.imm 1), .JMP "NEXTREG"]

def EXIT_code : List InstructionDto := [
  .POP_R "IP", .JMP "NEXTREG"]

def BYE_code : List InstructionDto := [
  .HALT]

def DUP_code : List InstructionDto := [
  .POP_D "X", .PUSH_D "X", .PUSH_D "X", .JMP "NEXTREG"]

def DROP_code : List InstructionDto := [
  .POP_D "X", .JMP "NEXTREG"]

def SWAP_code : List InstructionDto := [
  .POP_D "X", .POP_D "Y", .PUSH_D "X", .PUSH_D "Y", .JMP "NEXTREG"]

def OVER_code : List InstructionDto := [
  .POP_D "X", .POP_D "Y", .PUSH_D "Y", .PUSH_D "X", .PUSH_D "Y", .JMP "NEXTREG"]

def ROT_code : List InstructionDto := [
  .POP_D "X", .POP_D "Y", .POP_D "Z", .PUSH_D "Y", .PUSH_D "X", .PUSH_D "Z", .JMP "NEXTREG"]

def NROT_code : List InstructionDto := [
  .POP_D "X", .POP_D "Y", .POP_D "Z", .PUSH_D "X", .PUSH_D "Z", .PUSH_D "Y", .JMP "NEXTREG"]

def NIP_code : List InstructionDto := [
  .POP_D "X", .POP_D "Y", .PUSH_D "X", .JMP "NEXTREG"]

def TUCK_code : List InstructionDto := [
  .POP_D "X", .POP_D "Y", .PUSH_D "X", .PUSH_D "Y", .PUSH_D "X", .JMP "NEXTREG"]

def PLUS_code : List InstructionDto := [
  .POP_D "X", .POP_D "Y", .ADD "Y" (.reg "X"), .PUSH_D "Y", .JMP "NEXTREG"]

def MINUS_code : List InstructionDto := [
  .POP_D "X", .POP_D "Y", .SUB "Y" (.reg "X"), .PUSH_D "Y", .JMP "NEXTREG"]

def MUL_code (b : ℤ) : List InstructionDto := [
  .POP_D "X", .POP_D "Y", .SUB "ACC" (.reg "ACC"),
  -- MUL_LOOP
  .JZ "X" 5, .ADD "ACC" (.reg "Y"), .SUB "X" (.imm 1), .SUB "R" (.reg "R"),
  .ADD "R" (.imm (b + 3)), .JMP "R",
  -- MUL_DONE
  .PUSH_D "ACC", .JMP "NEXTREG"]

def NEGATE_code : List InstructionDto := [
  .POP_D "X", .SUB "Y" (.reg "Y"), .SUB "Y" (.reg "X"), .PUSH_D "Y", .JMP "NEXTREG"]

def ABS_code : List InstructionDto := [
  .POP_D "X", .JS "X" 2, .PUSH_D "X", .JMP "NEXTREG",
  -- ABS_NEG
  .SUB "Y" (.reg "Y"), .SUB "Y" (.reg "X"), .PUSH_D "Y", .JMP "NEXTREG"]

def ONEPLUS_code : List InstructionDto := [
  .POP_D "X", .ADD "X" (.imm 1), .PUSH_D "X", .JMP "NEXTREG"]

def ONEMINUS_code : List InstructionDto := [
  .POP_D "X", .SUB "X" (.imm 1), .PUSH_D "X", .JMP "NEXTREG"]

def FETCH_code : List InstructionDto := [
  .POP_D "X", .LOAD "Y" "X", .PUSH_D "Y", .JMP "NEXTREG"]

def STOREW_code : List InstructionDto := [
  .POP_D "X", .POP_D "Y", .STORE "X" "Y", .JMP "NEXTREG"]

def CFETCH_code : List InstructionDto := [
  .POP_D "X", .LOAD "Y" "X", .PUSH_D "Y", .JMP "NEXTREG"]

def CSTOREW_code : List InstructionDto := [
  .POP_D "X", .POP_D "Y", .STORE "X" "Y", .JMP "NEXTREG"]

def TOR_code : List InstructionDto := [
  .POP_D "X", .PUSH_R "X", .JMP "NEXTREG"]

def FROMR_code : List InstructionDto := [
  .POP_R "X", .PUSH_D "X", .JMP "NEXTREG"]

def RFETCH_code : List InstructionDto := [
  .POP_R "X", .PUSH_R "X", .PUSH_D "X", .JMP "NEXTREG"]

def EQUALS_code : List InstructionDto := [
  .POP_D "X", .POP_D "Y", .SUB "Y" (.reg "X"), .JZ "Y" 4, .SUB "Z" (.reg "Z"), .ADD "Z" (.imm 0),
  .PUSH_D "Z", .JMP "NEXTREG",
  -- EQ_TRUE
  .SUB "Z" (.reg "Z"), .ADD "Z" (.imm (-1)), .PUSH_D "Z", .JMP "NEXTREG"]

def NOTEQUALS_code : List InstructionDto := [
  .POP_D "X", .POP_D "Y", .SUB "Y" (.reg "X"), .JZ "Y" 4, .SUB "Z" (.reg "Z"),
  .ADD "Z" (.imm (-1)), .PUSH_D "Z", .JMP "NEXTREG",
  -- NE_FALSE
  .SUB "Z" (.reg "Z"), .ADD "Z" (.imm 0), .PUSH_D "Z", .JMP "NEXTREG"]

def LESSTHAN_code : List InstructionDto := [
  .POP_D "X", .POP_D "Y", .SUB "Y" (.reg "X"), .JS "Y" 4, .SUB "Z" (.reg "Z"), .ADD "Z" (.imm 0),
  .PUSH_D "Z", .JMP "NEXTREG",
  -- LT_TRUE
  .SUB "Z" (.reg "Z"), .ADD "Z" (.imm (-1)), .PUSH_D "Z", .JMP "NEXTREG"]

def GREATERTHAN_code : List InstructionDto := [
  .POP_D "X", .POP_D "Y", .SUB "X" (.reg "Y"), .JS "X" 4, .SUB "Z" (.reg "Z"), .ADD "Z" (.imm 0),
  .PUSH_D "Z", .JMP "NEXTREG",
  -- GT_TRUE
  .SUB "Z" (.reg "Z"), .ADD "Z" (.imm (-1)), .PUSH_D "Z", .JMP "NEXTREG"]

def ZEROEQ_code : List InstructionDto := [
  .POP_D "X", .JZ "X" 4, .SUB "Z" (.reg "Z"), .ADD "Z" (.imm 0), .PUSH_D "Z", .JMP "NEXTREG",
  -- ZE_TRUE
  .SUB "Z" (.reg "Z"), .ADD "Z" (.imm (-1)), .PUSH_D "Z", .JMP "NEXTREG"]

def ZEROLT_code : List InstructionDto := [
  .POP_D "X", .JS "X" 4, .SUB "Z" (.reg "Z"), .ADD "Z" (.imm 0), .PUSH_D "Z", .JMP "NEXTREG",
  -- ZL_TRUE
  .SUB "Z" (.reg "Z"), .ADD "Z" (.imm (-1)), .PUSH_D "Z", .JMP "NEXTREG"]

def BITAND_code : List InstructionDto := [
  .POP_D "X", .POP_D "Y", .AND "Y" (.reg "X"), .PUSH_D "Y", .JMP "NEXTREG"]

def BITOR_code : List InstructionDto := [
  .POP_D "X", .POP_D "Y", .OR "Y" (.reg "X"), .PUSH_D "Y", .JMP "NEXTREG"]

def BITINVERT_code : List InstructionDto := [
  .POP_D "X", .INVERT "X", .PUSH_D "X", .JMP "NEXTREG"]

def KEY_code : List InstructionDto := [
  .IN "X", .PUSH_D "X", .JMP "NEXTREG"]

def EMIT_code : List InstructionDto := [
  .POP_D "X", .OUT "X", .JMP "NEXTREG"]

def NUMBER_code (b : ℤ) : List InstructionDto := [
  .POP_D "PTR", .LOAD "LEN" "PTR", .ADD "PTR" (.imm 1), .SUB "N" (.reg "N"),
  .SUB "NEG" (.reg "NEG"), .JZ "LEN" 52, .LOAD "C" "PTR", .SUB "T" (.reg "T"),
  .ADD "T" (.reg "C"), .SUB "T" (.imm 45), .JZ "T" 3, .SUB "R" (.reg "R"),
  .ADD "R" (.imm (b + 19)), .JMP "R",
  -- NUM_NEG
  .SUB "NEG" (.reg "NEG"), .ADD "NEG" (.imm 1), .ADD "PTR" (.imm 1), .SUB "LEN" (.imm 1),
  .JZ "LEN" 39,
  -- NUM_LOOP
  .JZ "LEN" 28, .LOAD "C" "PTR", .SUB "DIGIT" (.reg "DIGIT"), .ADD "DIGIT" (.reg "C"),
  .SUB "DIGIT" (.imm 48), .JS "DIGIT" 33, .SUB "T" (.reg "T"), .ADD "T" (.reg "DIGIT"),
  .SUB "T" (.imm 10), .JS "T" 3, .SUB "R" (.reg "R"), .ADD "R" (.imm (b + 58)), .JMP "R",
  -- NUM_DIGIT_OK
  .SUB "T" (.reg "T"), .ADD "T" (.reg "N"), .ADD "T" (.reg "T"), .SUB "U" (.reg "U"),
  .ADD "U" (.reg "T"), .ADD "T" (.reg "T"), .ADD "T" (.reg "T"), .ADD "T" (.reg "U"),
  .SUB "N" (.reg "N"), .ADD "N" (.reg "T"), .ADD "N" (.reg "DIGIT"), .ADD "PTR" (.imm 1),
  .SUB "LEN" (.imm 1), .SUB "R" (.reg "R"), .ADD "R" (.imm (b + 19)), .JMP "R",
  -- NUM_DONE
  .JZ "NEG" 4, .SUB "T" (.reg "T"), .ADD "T" (.reg "N"), .SUB "N" (.reg "N"),
  .SUB "N" (.reg "T"),
  -- NUM_PUSH
  .PUSH_D "N", .SUB "FLAG" (.reg "FLAG"), .ADD "FLAG" (.imm 1), .PUSH_D "FLAG", .JMP "NEXTREG",
  -- NUM_FAIL
  .SUB "Z" (.reg "Z"), .PUSH_D "Z", .PUSH_D "Z", .JMP "NEXTREG"]

def WORD_code (b : ℤ) : List InstructionDto := [
  .POP_D "DELIM",
  -- WORD_SKIP
  .IN "C", .SUB "T" (.reg "T"), .ADD "T" (.reg "C"), .SUB "T" (.reg "DELIM"), .JZ "T" (-5),
  .SUB "PTR" (.reg "PTR"), .ADD "PTR" (.imm 1984), .ADD "PTR" (.imm 1), .SUB "LEN" (.reg "LEN"),
  -- WORD_COLLECT
  .STORE "PTR" "C", .ADD "PTR" (.imm 1), .ADD "LEN" (.imm 1), .IN "C", .SUB "T" (.reg "T"),
  .ADD "T" (.reg "C"), .SUB "T" (.reg "DELIM"), .JZ "T" 3, .SUB "R" (.reg "R"),
  .ADD "R" (.imm (b + 10)), .JMP "R",
  -- WORD_END
  .SUB "PTR" (.reg "PTR"), .ADD "PTR" (.imm 1984), .STORE "PTR" "LEN", .PUSH_D "PTR",
  .JMP "NEXTREG"]

def FIND_code (b : ℤ) : List InstructionDto := [
  .POP_D "NAMEADDR", .LOAD "SLEN" "NAMEADDR", .SUB "T" (.reg "T"), .ADD "T" (.imm 1),
  .LOAD "CUR" "T",
  -- FIND_LOOP
  .JZ "CUR" 65, .SUB "T" (.reg "T"), .ADD "T" (.reg "CUR"), .SUB "T" (.imm 1),
  .LOAD "SMUDGE" "T", .JZ "SMUDGE" 3, .SUB "R" (.reg "R"), .ADD "R" (.imm (b + 64)), .JMP "R",
  -- FIND_VISIBLE
  .LOAD "WLEN" "CUR", .SUB "T" (.reg "T"), .ADD "T" (.reg "WLEN"), .SUB "T" (.reg "SLEN"),
  .JZ "T" 3, .SUB "R" (.reg "R"), .ADD "R" (.imm (b + 64)), .JMP "R",
  -- FIND_CMP
  .SUB "WPTR" (.reg "WPTR"), .ADD "WPTR" (.reg "CUR"), .ADD "WPTR" (.imm 1),
  .SUB "SPTR" (.reg "SPTR"), .ADD "SPTR" (.reg "NAMEADDR"), .ADD "SPTR" (.imm 1),
  .SUB "COUNT" (.reg "COUNT"), .ADD "COUNT" (.reg "SLEN"),
  -- FIND_CHARS
  .JZ "COUNT" 15, .LOAD "WC" "WPTR", .LOAD "SC" "SPTR", .SUB "T" (.reg "T"),
  .ADD "T" (.reg "WC"), .SUB "T" (.reg "SC"), .JZ "T" 3, .SUB "R" (.reg "R"),
  .ADD "R" (.imm (b + 64)), .JMP "R",
  -- FIND_CHAR_OK
  .ADD "WPTR" (.imm 1), .ADD "SPTR" (.imm 1), .SUB "COUNT" (.imm 1), .SUB "R" (.reg "R"),
  .ADD "R" (.imm (b + 30)), .JMP "R",
  -- FIND_MATCH
  .SUB "CFA" (.reg "CFA"), .ADD "CFA" (.reg "CUR"), .ADD "CFA" (.imm 1),
  .ADD "CFA" (.reg "WLEN"), .PUSH_D "CFA", .SUB "T" (.reg "T"), .ADD "T" (.reg "CUR"),
  .SUB "T" (.imm 2), .LOAD "IMM" "T", .JZ "IMM" 4, .SUB "FLAG" (.reg "FLAG"),
  .ADD "FLAG" (.imm 1), .PUSH_D "FLAG", .JMP "NEXTREG",
  -- FIND_NORMAL
  .SUB "FLAG" (.reg "FLAG"), .SUB "FLAG" (.imm 1), .PUSH_D "FLAG", .JMP "NEXTREG",
  -- FIND_NEXT
  .SUB "T" (.reg "T"), .ADD "T" (.reg "CUR"), .SUB "T" (.imm 3), .LOAD "CUR" "T",
  .SUB "R" (.reg "R"), .ADD "R" (.imm (b + 5)), .JMP "R",
  -- FIND_NOTFOUND
  .SUB "T" (.reg "T"), .PUSH_D "T", .PUSH_D "T", .JMP "NEXTREG"]

end Routines

/-- A routine: its text, the index of its first instruction, its code and its labels. -/
structure Routine where
  lines : List PyStr
  base : ℤ
  code : List InstructionDto
  labels : Labels

open Routines in
/-- The routines in the order of their text. -/
def ROUTINES : List Routine := [
  ⟨CORE_LINES, 0, CORE_code 0,
    [("START", 0), ("NEXT", 3), ("ENTER", 7)]⟩,
  ⟨LIT_primitive.lines, 12, LIT_code,
    [("LIT", 12)]⟩,
  ⟨EXIT_primitive.lines, 16, EXIT_code,
    [("EXIT", 16)]⟩,
  ⟨BYE_primitive.lines, 18, BYE_code,
    [("BYE", 18)]⟩,
  ⟨DUP_primitive.lines, 19, DUP_code,
    [("DUP", 19)]⟩,
  ⟨DROP_primitive.lines, 23, DROP_code,
    [("DROP", 23)]⟩,
  ⟨SWAP_primitive.lines, 25, SWAP_code,
    [("SWAP", 25)]⟩,
  ⟨OVER_primitive.lines, 30, OVER_code,
    [("OVER", 30)]⟩,
  ⟨ROT_primitive.lines, 36, ROT_code,
    [("ROT", 36)]⟩,
  ⟨NROT_primitive.lines, 43, NROT_code,
    [("NROT", 43)]⟩,
  ⟨NIP_primitive.lines, 50, NIP_code,
    [("NIP", 50)]⟩,
  ⟨TUCK_primitive.lines, 54, TUCK_code,
    [("TUCK", 54)]⟩,
  ⟨PLUS_primitive.lines, 60, PLUS_code,
    [("PLUS", 60)]⟩,
  ⟨MINUS_primitive.lines, 65, MINUS_code,
    [("MINUS", 65)]⟩,
  ⟨MUL_primitive.lines, 70, MUL_code 70,
    [("MUL", 70), ("MUL_LOOP", 73), ("MUL_DONE", 79)]⟩,
  ⟨NEGATE_primitive.lines, 81, NEGATE_code,
    [("NEGATE", 81)]⟩,
  ⟨ABS_primitive.lines, 86, ABS_code,
    [("ABS", 86), ("ABS_NEG", 90)]⟩,
  ⟨ONEPLUS_primitive.lines, 94, ONEPLUS_code,
    [("ONEPLUS", 94)]⟩,
  ⟨ONEMINUS_primitive.lines, 98, ONEMINUS_code,
    [("ONEMINUS", 98)]⟩,
  ⟨FETCH_primitive.lines, 102, FETCH_code,
    [("FETCH", 102)]⟩,
  ⟨STOREW_primitive.lines, 106, STOREW_code,
    [("STOREW", 106)]⟩,
  ⟨CFETCH_primitive.lines, 110, CFETCH_code,
    [("CFETCH", 110)]⟩,
  ⟨CSTOREW_primitive.lines, 114, CSTOREW_code,
    [("CSTOREW", 114)]⟩,
  ⟨TOR_primitive.lines, 118, TOR_code,
    [("TOR", 118)]⟩,
  ⟨FROMR_primitive.lines, 121, FROMR_code,
    [("FROMR", 121)]⟩,
  ⟨RFETCH_primitive.lines, 124, RFETCH_code,
    [("RFETCH", 124)]⟩,
  ⟨EQUALS_primitive.lines, 128, EQUALS_code,
    [("EQUALS", 128), ("EQ_TRUE", 136)]⟩,
  ⟨NOTEQUALS_primitive.lines, 140, NOTEQUALS_code,
    [("NOTEQUALS", 140), ("NE_FALSE", 148)]⟩,
  ⟨LESSTHAN_primitive.lines, 152, LESSTHAN_code,
    [("LESSTHAN", 152), ("LT_TRUE", 160)]⟩,
  ⟨GREATERTHAN_primitive.lines, 164, GREATERTHAN_code,
    [("GREATERTHAN", 164), ("GT_TRUE", 172)]⟩,
  ⟨ZEROEQ_primitive.lines, 176, ZEROEQ_code,
    [("ZEROEQ", 176), ("ZE_TRUE", 182)]⟩,
  ⟨ZEROLT_primitive.lines, 186, ZEROLT_code,
    [("ZEROLT", 186), ("ZL_TRUE", 192)]⟩,
  ⟨BITAND_primitive.lines, 196, BITAND_code,
    [("BITAND", 196)]⟩,
  ⟨BITOR_primitive.lines, 201, BITOR_code,
    [("BITOR", 201)]⟩,
  ⟨BITINVERT_primitive.lines, 206, BITINVERT_code,
    [("BITINVERT", 206)]⟩,
  ⟨KEY_primitive.lines, 210, KEY_code,
    [("KEY", 210)]⟩,
  ⟨EMIT_primitive.lines, 213, EMIT_code,
    [("EMIT", 213)]⟩,
  ⟨NUMBER_primitive.lines, 216, NUMBER_code 216,
    [("NUMBER", 216), ("NUM_NEG", 230), ("NUM_LOOP", 235), ("NUM_DIGIT_OK", 248),
      ("NUM_DONE", 264), ("NUM_PUSH", 269), ("NUM_FAIL", 274)]⟩,
  ⟨WORD_primitive.lines, 278, WORD_code 278,
    [("WORD", 278), ("WORD_SKIP", 279), ("WORD_COLLECT", 288), ("WORD_END", 299)]⟩,
  ⟨FIND_primitive.lines, 304, FIND_code 304,
    [("FIND", 304), ("FIND_LOOP", 309), ("FIND_VISIBLE", 318), ("FIND_CMP", 326),
      ("FIND_CHARS", 334), ("FIND_CHAR_OK", 344), ("FIND_MATCH", 350), ("FIND_NORMAL", 364),
      ("FIND_NEXT", 368), ("FIND_NOTFOUND", 375)]⟩]

def kernelLabels : Labels := (ROUTINES.map Routine.labels).flatten

def kernelProgram : List InstructionDto := (ROUTINES.map Routine.code).flatten

/-- The program index of `NEXT`. -/
abbrev NEXT_INDEX : ℤ := 3

/-- The routines after the core lie above `NEXT`. -/
lemma routines_above : ∀ r ∈ ROUTINES.tail, NEXT_INDEX < r.base := by
  simp [ROUTINES, NEXT_INDEX]

/-- Each routine begins where the one before it ends. -/
def Contiguous : ℤ → List Routine → Prop
  | _, [] => True
  | address, r :: rs => r.base = address ∧ Contiguous (address + r.code.length) rs

lemma routines_contiguous : Contiguous 0 ROUTINES := by
  simp only [ROUTINES, Contiguous]
  decide

open Routines in
set_option maxRecDepth 20000 in
/-- Every routine assembles to its code and defines its labels; its text is ASCII, on lines of their
    own. -/
lemma routines_checked : ∀ r ∈ ROUTINES,
    @assembleLines .ascii kernelLabels r.base r.lines = .ok (r.code, r.labels) ∧
      r.lines.all plainLine = true := by
  suffices h : ∀ table, table = kernelLabels → ∀ r ∈ ROUTINES,
      @assembleLines .ascii table r.base r.lines = .ok (r.code, r.labels) ∧
        r.lines.all plainLine = true from h _ rfl
  intro table e
  -- The names of the table become lists of characters once, not once for each routine.
  simp only [kernelLabels, ROUTINES, List.map_cons, List.map_nil, List.flatten_cons,
    List.flatten_nil, List.cons_append, List.nil_append, List.append_nil] at e
  repeat rw [py_ofList] at e
  subst e
  intro r mem
  simp only [ROUTINES, List.mem_cons, List.not_mem_nil, or_false] at mem
  rcases mem with rfl | rfl | rfl | rfl | rfl | rfl | rfl | rfl | rfl | rfl | rfl | rfl | rfl |
    rfl | rfl | rfl | rfl | rfl | rfl | rfl | rfl | rfl | rfl | rfl | rfl | rfl | rfl | rfl |
    rfl | rfl | rfl | rfl | rfl | rfl | rfl | rfl | rfl | rfl | rfl | rfl
  all_goals
    simp only [CORE_LINES, primitive,
      LIT_primitive, EXIT_primitive, BYE_primitive, DUP_primitive, DROP_primitive, SWAP_primitive,
      OVER_primitive, ROT_primitive, NROT_primitive, NIP_primitive, TUCK_primitive,
      PLUS_primitive, MINUS_primitive, MUL_primitive, NEGATE_primitive, ABS_primitive,
      ONEPLUS_primitive, ONEMINUS_primitive, FETCH_primitive, STOREW_primitive, CFETCH_primitive,
      CSTOREW_primitive, TOR_primitive, FROMR_primitive, RFETCH_primitive, EQUALS_primitive,
      NOTEQUALS_primitive, LESSTHAN_primitive, GREATERTHAN_primitive, ZEROEQ_primitive,
      ZEROLT_primitive, BITAND_primitive, BITOR_primitive, BITINVERT_primitive, KEY_primitive,
      EMIT_primitive, NUMBER_primitive, WORD_primitive, FIND_primitive,
      CORE_code, LIT_code, EXIT_code, BYE_code, DUP_code, DROP_code, SWAP_code, OVER_code,
      ROT_code, NROT_code, NIP_code, TUCK_code, PLUS_code, MINUS_code, MUL_code, NEGATE_code,
      ABS_code, ONEPLUS_code, ONEMINUS_code, FETCH_code, STOREW_code, CFETCH_code, CSTOREW_code,
      TOR_code, FROMR_code, RFETCH_code, EQUALS_code, NOTEQUALS_code, LESSTHAN_code,
      GREATERTHAN_code, ZEROEQ_code, ZEROLT_code, BITAND_code, BITOR_code, BITINVERT_code,
      KEY_code, EMIT_code, NUMBER_code, WORD_code, FIND_code]
    repeat rw [py_ofList]
    decide +kernel

lemma routines_assemble : ∀ r ∈ ROUTINES,
    @assembleLines .ascii kernelLabels r.base r.lines = .ok (r.code, r.labels) :=
  fun r mem => (routines_checked r mem).1

lemma routines_plain : ∀ r ∈ ROUTINES, r.lines.all plainLine = true :=
  fun r mem => (routines_checked r mem).2

/-- The pieces of the kernel, one after the other. -/
lemma assembleLines_routines [U : UnicodeData] {routines : List Routine} {address : ℤ}
    (contiguous : Contiguous address routines) (sub : ∀ r ∈ routines, r ∈ ROUTINES) :
    assembleLines kernelLabels address (routines.map Routine.lines).flatten =
      .ok ((routines.map Routine.code).flatten, (routines.map Routine.labels).flatten) := by
  induction routines generalizing address with
  | nil => rfl
  | cons r rs ih =>
    obtain ⟨base, rest⟩ := contiguous
    obtain ⟨hr, hrs⟩ := List.forall_mem_cons.mp sub
    have first := routines_assemble r hr
    rw [base, assembleLines_ascii .ascii U fun raw mem =>
      (plainLine_iff.mp (List.all_eq_true.mp (routines_plain r hr) raw mem)).1] at first
    exact assembleLines_append first (ih rest hrs)

/-- The text of the kernel, line by line. -/
lemma kernel_source_lines : KERNEL_SOURCE = unlines (ROUTINES.map Routine.lines).flatten := by
  have e : ROUTINES.map Routine.lines = CORE_LINES :: PRIMITIVES.map KernelPrimitive.lines := rfl
  have each : ∀ ps : List KernelPrimitive,
      (ps.map KernelPrimitive.source).flatten = unlines (ps.map KernelPrimitive.lines).flatten := by
    intro ps
    induction ps with
    | nil => rfl
    | cons p ps ih => simp [ih, KernelPrimitive.source]
  rw [e, List.flatten_cons, unlines_append, ← each]
  rfl

set_option maxRecDepth 20000 in
/-- No label is defined twice. -/
lemma kernelLabels_nodup : (kernelLabels.map Prod.fst).Nodup := by
  simp only [kernelLabels, ROUTINES, List.map_cons, List.map_nil, List.flatten_cons,
    List.flatten_nil, List.cons_append, List.nil_append, List.append_nil]
  repeat rw [py_ofList]
  decide +kernel

/-- What the assembler makes of the kernel. -/
theorem assemble_kernel [UnicodeData] :
    assemble KERNEL_SOURCE = .ok ⟨kernelProgram, kernelLabels⟩ := by
  rw [kernel_source_lines]
  refine assemble_unlines ?_ (assembleLines_routines routines_contiguous fun r mem => mem)
    kernelLabels_nodup
  intro raw mem
  obtain ⟨ls, mem', within⟩ := List.mem_flatten.mp mem
  obtain ⟨r, hr, rfl⟩ := List.mem_map.mp mem'
  exact (plainLine_iff.mp (List.all_eq_true.mp (routines_plain r hr) raw within)).2

end MinCpuForth.Kernel
