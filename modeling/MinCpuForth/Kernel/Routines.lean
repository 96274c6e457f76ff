import MinCpuForth.Domain.Layout
import MinCpuForth.Python.Int

/-!
# The threading core and the CODE words

The assembler source of `services/kernel/routines.py`, routine by routine.
-/

namespace MinCpuForth.Kernel
open Python Layout

abbrev IMMEDIATE_FROM_NAME_FIELD : Int := HeaderField.NAME_LENGTH - HeaderField.IMMEDIATE
abbrev SMUDGE_FROM_NAME_FIELD : Int := HeaderField.NAME_LENGTH - HeaderField.SMUDGE
abbrev LINK_FROM_NAME_FIELD : Int := HeaderField.NAME_LENGTH

def ENTER_LABEL : PyStr := "ENTER"

/-- The text of the threading core, line by line. -/
def CORE_LINES : List PyStr := [
  "",
  "START:",
  "        SET  NEXTREG, NEXT   ; hold NEXT's program index for the whole run",
  "        JMP  NEXTREG",
  "",
  "NEXT:",
  "        LOAD W, IP           ; W := mem[IP]        (W = CFA)",
  "        ADD  IP, 1           ; advance the thread pointer (CELL = 1)",
  "        LOAD XT, W           ; XT := mem[W]        (code-field value = program index)",
  "        JMP  XT              ; tail-jump into the primitive",
  "",
  "ENTER:",
  "        PUSH_R IP            ; save the caller's IP",
  "        ADD  W, 1            ; W := CFA + 1 = parameter-field address",
  "        MOV  IP, W           ; IP := parameter field",
  "        JMP  NEXTREG"]

def CORE_SOURCE : PyStr := unlines CORE_LINES

/-- A word whose routine is a label of the assembled kernel. -/
structure CodeWordDto where
  name : PyStr
  routine_label : PyStr
  immediate : Bool := false
  deriving DecidableEq, Repr

/-- A CODE word with the text of its routine, line by line. -/
structure KernelPrimitive where
  word : CodeWordDto
  lines : List PyStr

/-- The source of the routine. -/
def KernelPrimitive.source (p : KernelPrimitive) : PyStr := unlines p.lines

/-- `_primitive`. -/
def primitive (name label : PyStr) (lines : List PyStr) : KernelPrimitive :=
  { word := { name := name, routine_label := label }, lines := lines }

namespace Routines

def LIT_primitive : KernelPrimitive := primitive "LIT" "LIT" [
  "",
  "LIT:",
  "        LOAD ACC, IP         ; ACC := the inline literal (cell after LIT's CFA in the thread)",
  "        PUSH_D ACC",
  "        ADD  IP, 1           ; step IP past the literal cell",
  "        JMP  NEXTREG"]

def EXIT_primitive : KernelPrimitive := primitive "EXIT" "EXIT" [
  "",
  "EXIT:",
  "        POP_R IP             ; restore the caller's IP",
  "        JMP  NEXTREG"]

def BYE_primitive : KernelPrimitive := primitive "BYE" "BYE" [
  "",
  "BYE:",
  "        HALT"]

def DUP_primitive : KernelPrimitive := primitive "DUP" "DUP" [
  "",
  "DUP:",
  "        POP_D X              ; ( a -- a a )",
  "        PUSH_D X",
  "        PUSH_D X",
  "        JMP  NEXTREG"]

def DROP_primitive : KernelPrimitive := primitive "DROP" "DROP" [
  "",
  "DROP:",
  "        POP_D X              ; ( a -- )",
  "        JMP  NEXTREG"]

def SWAP_primitive : KernelPrimitive := primitive "SWAP" "SWAP" [
  "",
  "SWAP:",
  "        POP_D X              ; ( a b -- b a )",
  "        POP_D Y",
  "        PUSH_D X",
  "        PUSH_D Y",
  "        JMP  NEXTREG"]

def OVER_primitive : KernelPrimitive := primitive "OVER" "OVER" [
  "",
  "OVER:",
  "        POP_D X              ; ( a b -- a b a )",
  "        POP_D Y",
  "        PUSH_D Y",
  "        PUSH_D X",
  "        PUSH_D Y",
  "        JMP  NEXTREG"]

def ROT_primitive : KernelPrimitive := primitive "ROT" "ROT" [
  "",
  "ROT:",
  "        POP_D X              ; ( a b c -- b c a )",
  "        POP_D Y",
  "        POP_D Z",
  "        PUSH_D Y",
  "        PUSH_D X",
  "        PUSH_D Z",
  "        JMP  NEXTREG"]

def NROT_primitive : KernelPrimitive := primitive "-ROT" "NROT" [
  "",
  "NROT:",
  "        POP_D X              ; ( a b c -- c a b )",
  "        POP_D Y",
  "        POP_D Z",
  "        PUSH_D X",
  "        PUSH_D Z",
  "        PUSH_D Y",
  "        JMP  NEXTREG"]

def NIP_primitive : KernelPrimitive := primitive "NIP" "NIP" [
  "",
  "NIP:",
  "        POP_D X              ; ( a b -- b )",
  "        POP_D Y",
  "        PUSH_D X",
  "        JMP  NEXTREG"]

def TUCK_primitive : KernelPrimitive := primitive "TUCK" "TUCK" [
  "",
  "TUCK:",
  "        POP_D X              ; ( a b -- b a b )",
  "        POP_D Y",
  "        PUSH_D X",
  "        PUSH_D Y",
  "        PUSH_D X",
  "        JMP  NEXTREG"]

def PLUS_primitive : KernelPrimitive := primitive "+" "PLUS" [
  "",
  "PLUS:",
  "        POP_D X              ; ( a b -- a+b )",
  "        POP_D Y",
  "        ADD  Y, X",
  "        PUSH_D Y",
  "        JMP  NEXTREG"]

def MINUS_primitive : KernelPrimitive := primitive "-" "MINUS" [
  "",
  "MINUS:",
  "        POP_D X              ; ( a b -- a-b )",
  "        POP_D Y",
  "        SUB  Y, X",
  "        PUSH_D Y",
  "        JMP  NEXTREG"]

def MUL_primitive : KernelPrimitive := primitive "*" "MUL" [
  "",
  "MUL:",
  "        POP_D X              ; ( a b -- a*b )  multiply by repeated addition",
  "        POP_D Y",
  "        SUB  ACC, ACC        ; ACC := 0",
  "MUL_LOOP:",
  "        JZ   X, MUL_DONE",
  "        ADD  ACC, Y",
  "        SUB  X, 1",
  "        SET  R, MUL_LOOP",
  "        JMP  R",
  "MUL_DONE:",
  "        PUSH_D ACC",
  "        JMP  NEXTREG"]

def NEGATE_primitive : KernelPrimitive := primitive "NEGATE" "NEGATE" [
  "",
  "NEGATE:",
  "        POP_D X              ; ( a -- -a )",
  "        SUB  Y, Y",
  "        SUB  Y, X",
  "        PUSH_D Y",
  "        JMP  NEXTREG"]

def ABS_primitive : KernelPrimitive := primitive "ABS" "ABS" [
  "",
  "ABS:",
  "        POP_D X              ; ( a -- |a| )",
  "        JS   X, ABS_NEG",
  "        PUSH_D X",
  "        JMP  NEXTREG",
  "ABS_NEG:",
  "        SUB  Y, Y",
  "        SUB  Y, X",
  "        PUSH_D Y",
  "        JMP  NEXTREG"]

def ONEPLUS_primitive : KernelPrimitive := primitive "1+" "ONEPLUS" [
  "",
  "ONEPLUS:",
  "        POP_D X              ; ( a -- a+1 )",
  "        ADD  X, 1",
  "        PUSH_D X",
  "        JMP  NEXTREG"]

def ONEMINUS_primitive : KernelPrimitive := primitive "1-" "ONEMINUS" [
  "",
  "ONEMINUS:",
  "        POP_D X              ; ( a -- a-1 )",
  "        SUB  X, 1",
  "        PUSH_D X",
  "        JMP  NEXTREG"]

def FETCH_primitive : KernelPrimitive := primitive "@" "FETCH" [
  "",
  "FETCH:",
  "        POP_D X              ; ( addr -- mem[addr] )",
  "        LOAD Y, X",
  "        PUSH_D Y",
  "        JMP  NEXTREG"]

def STOREW_primitive : KernelPrimitive := primitive "!" "STOREW" [
  "",
  "STOREW:",
  "        POP_D X              ; ( val addr -- )  addr on top",
  "        POP_D Y",
  "        STORE X, Y",
  "        JMP  NEXTREG"]

def CFETCH_primitive : KernelPrimitive := primitive "C@" "CFETCH" [
  "",
  "CFETCH:",
  "        POP_D X              ; ( addr -- mem[addr] )  aliases @ in a cell-addressed model",
  "        LOAD Y, X",
  "        PUSH_D Y",
  "        JMP  NEXTREG"]

def CSTOREW_primitive : KernelPrimitive := primitive "C!" "CSTOREW" [
  "",
  "CSTOREW:",
  "        POP_D X              ; ( val addr -- )  aliases !",
  "        POP_D Y",
  "        STORE X, Y",
  "        JMP  NEXTREG"]

def TOR_primitive : KernelPrimitive := primitive ">R" "TOR" [
  "",
  "TOR:",
  "        POP_D X              ; ( a -- ) ( R: -- a )",
  "        PUSH_R X",
  "        JMP  NEXTREG"]

def FROMR_primitive : KernelPrimitive := primitive "R>" "FROMR" [
  "",
  "FROMR:",
  "        POP_R X              ; ( R: a -- ) ( -- a )",
  "        PUSH_D X",
  "        JMP  NEXTREG"]

def RFETCH_primitive : KernelPrimitive := primitive "R@" "RFETCH" [
  "",
  "RFETCH:",
  "        POP_R X              ; ( R: a -- a ) ( -- a )",
  "        PUSH_R X",
  "        PUSH_D X",
  "        JMP  NEXTREG"]

def EQUALS_primitive : KernelPrimitive := primitive "=" "EQUALS" [
  "",
  "EQUALS:",
  "        POP_D X              ; ( a b -- flag )",
  "        POP_D Y",
  "        SUB  Y, X",
  "        JZ   Y, EQ_TRUE",
  "        SET  Z, 0",
  "        PUSH_D Z",
  "        JMP  NEXTREG",
  "EQ_TRUE:",
  "        SET  Z, -1           ; Forth true = -1 (all bits set)",
  "        PUSH_D Z",
  "        JMP  NEXTREG"]

def NOTEQUALS_primitive : KernelPrimitive := primitive "<>" "NOTEQUALS" [
  "",
  "NOTEQUALS:",
  "        POP_D X              ; ( a b -- flag )",
  "        POP_D Y",
  "        SUB  Y, X",
  "        JZ   Y, NE_FALSE",
  "        SET  Z, -1           ; Forth true = -1 (all bits set)",
  "        PUSH_D Z",
  "        JMP  NEXTREG",
  "NE_FALSE:",
  "        SET  Z, 0",
  "        PUSH_D Z",
  "        JMP  NEXTREG"]

def LESSTHAN_primitive : KernelPrimitive := primitive "<" "LESSTHAN" [
  "",
  "LESSTHAN:",
  "        POP_D X              ; ( a b -- a<b )  a-b < 0  (cells are unbounded ints -- no overflow)",
  "        POP_D Y",
  "        SUB  Y, X",
  "        JS   Y, LT_TRUE",
  "        SET  Z, 0",
  "        PUSH_D Z",
  "        JMP  NEXTREG",
  "LT_TRUE:",
  "        SET  Z, -1           ; Forth true = -1 (all bits set)",
  "        PUSH_D Z",
  "        JMP  NEXTREG"]

def GREATERTHAN_primitive : KernelPrimitive := primitive ">" "GREATERTHAN" [
  "",
  "GREATERTHAN:",
  "        POP_D X              ; ( a b -- a>b )  b-a < 0",
  "        POP_D Y",
  "        SUB  X, Y",
  "        JS   X, GT_TRUE",
  "        SET  Z, 0",
  "        PUSH_D Z",
  "        JMP  NEXTREG",
  "GT_TRUE:",
  "        SET  Z, -1           ; Forth true = -1 (all bits set)",
  "        PUSH_D Z",
  "        JMP  NEXTREG"]

def ZEROEQ_primitive : KernelPrimitive := primitive "0=" "ZEROEQ" [
  "",
  "ZEROEQ:",
  "        POP_D X              ; ( a -- a==0 )",
  "        JZ   X, ZE_TRUE",
  "        SET  Z, 0",
  "        PUSH_D Z",
  "        JMP  NEXTREG",
  "ZE_TRUE:",
  "        SET  Z, -1           ; Forth true = -1 (all bits set)",
  "        PUSH_D Z",
  "        JMP  NEXTREG"]

def ZEROLT_primitive : KernelPrimitive := primitive "0<" "ZEROLT" [
  "",
  "ZEROLT:",
  "        POP_D X              ; ( a -- a<0 )",
  "        JS   X, ZL_TRUE",
  "        SET  Z, 0",
  "        PUSH_D Z",
  "        JMP  NEXTREG",
  "ZL_TRUE:",
  "        SET  Z, -1           ; Forth true = -1 (all bits set)",
  "        PUSH_D Z",
  "        JMP  NEXTREG"]

def BITAND_primitive : KernelPrimitive := primitive "AND" "BITAND" [
  "",
  "BITAND:",
  "        POP_D X              ; ( a b -- a&b )",
  "        POP_D Y",
  "        AND  Y, X",
  "        PUSH_D Y",
  "        JMP  NEXTREG"]

def BITOR_primitive : KernelPrimitive := primitive "OR" "BITOR" [
  "",
  "BITOR:",
  "        POP_D X              ; ( a b -- a|b )",
  "        POP_D Y",
  "        OR   Y, X",
  "        PUSH_D Y",
  "        JMP  NEXTREG"]

def BITINVERT_primitive : KernelPrimitive := primitive "INVERT" "BITINVERT" [
  "",
  "BITINVERT:",
  "        POP_D X              ; ( a -- ~a )",
  "        INVERT X",
  "        PUSH_D X",
  "        JMP  NEXTREG"]

def KEY_primitive : KernelPrimitive := primitive "KEY" "KEY" [
  "",
  "KEY:",
  "        IN   X               ; ( -- c )  read one input character",
  "        PUSH_D X",
  "        JMP  NEXTREG"]

def EMIT_primitive : KernelPrimitive := primitive "EMIT" "EMIT" [
  "",
  "EMIT:",
  "        POP_D X              ; ( c -- )  write one output character",
  "        OUT  X",
  "        JMP  NEXTREG"]

def NUMBER_primitive : KernelPrimitive := primitive "NUMBER" "NUMBER" [
  py "",
  py "NUMBER:",
  py "        POP_D PTR            ; ( c-addr -- n flag )  parse a counted decimal string (signed)",
  py "        LOAD LEN, PTR        ; LEN = length prefix",
  py "        ADD  PTR, 1          ; PTR -> first char",
  py "        SUB  N, N            ; N := 0",
  py "        SUB  NEG, NEG        ; NEG := 0",
  py "        JZ   LEN, NUM_FAIL   ; empty -> fail",
  py "        LOAD C, PTR",
  py "        MOV  T, C",
  py "        SUB  T, 45           ; '-'",
  py "        JZ   T, NUM_NEG",
  py "        SET  R, NUM_LOOP",
  py "        JMP  R",
  py "NUM_NEG:",
  py "        SET  NEG, 1",
  py "        ADD  PTR, 1          ; consume '-'",
  py "        SUB  LEN, 1",
  py "        JZ   LEN, NUM_FAIL   ; \"-\" alone -> fail",
  py "NUM_LOOP:",
  py "        JZ   LEN, NUM_DONE",
  py "        LOAD C, PTR",
  py "        MOV  DIGIT, C",
  py "        SUB  DIGIT, 48       ; '0'",
  py "        JS   DIGIT, NUM_FAIL ; below '0' -> not a digit",
  py "        MOV  T, DIGIT",
  py "        SUB  T, 10",
  py "        JS   T, NUM_DIGIT_OK ; digit <= 9",
  py "        SET  R, NUM_FAIL     ; above '9' -> not a digit",
  py "        JMP  R",
  py "NUM_DIGIT_OK:",
  py "        MOV  T, N            ; N := N*10  (8N + 2N, no MUL opcode)",
  py "        ADD  T, T",
  py "        MOV  U, T",
  py "        ADD  T, T",
  py "        ADD  T, T",
  py "        ADD  T, U",
  py "        MOV  N, T",
  py "        ADD  N, DIGIT        ; N := N*10 + digit",
  py "        ADD  PTR, 1",
  py "        SUB  LEN, 1",
  py "        SET  R, NUM_LOOP",
  py "        JMP  R",
  py "NUM_DONE:",
  py "        JZ   NEG, NUM_PUSH",
  py "        MOV  T, N",
  py "        SUB  N, N",
  py "        SUB  N, T            ; N := -N",
  py "NUM_PUSH:",
  py "        PUSH_D N",
  py "        SET  FLAG, 1",
  py "        PUSH_D FLAG          ; success",
  py "        JMP  NEXTREG",
  py "NUM_FAIL:",
  py "        SUB  Z, Z",
  py "        PUSH_D Z             ; n := 0",
  py "        PUSH_D Z             ; flag := 0",
  py "        JMP  NEXTREG"]

def WORD_primitive : KernelPrimitive := primitive "WORD" "WORD" [
  "",
  "WORD:",
  "        POP_D DELIM          ; ( delim -- c-addr )  tokenize the input device into a counted string",
  "WORD_SKIP:",
  "        IN   C",
  "        MOV  T, C",
  "        SUB  T, DELIM",
  "        JZ   T, WORD_SKIP    ; skip leading delimiters",
  py "        SET  PTR, " ++ strInt WORD_BUFFER_BASE,
  "        ADD  PTR, 1          ; leave WORD_BUFFER[0] for the count",
  "        SUB  LEN, LEN",
  "WORD_COLLECT:",
  "        STORE PTR, C",
  "        ADD  PTR, 1",
  "        ADD  LEN, 1",
  "        IN   C",
  "        MOV  T, C",
  "        SUB  T, DELIM",
  "        JZ   T, WORD_END     ; delimiter -> token complete",
  "        SET  R, WORD_COLLECT",
  "        JMP  R",
  "WORD_END:",
  py "        SET  PTR, " ++ strInt WORD_BUFFER_BASE,
  "        STORE PTR, LEN       ; write the count prefix",
  "        PUSH_D PTR",
  "        JMP  NEXTREG"]

def FIND_primitive : KernelPrimitive := primitive "FIND" "FIND" [
  py "",
  py "FIND:",
  py "        POP_D NAMEADDR       ; ( c-addr -- xt flag )  1 = immediate, -1 = normal, 0 = not found",
  py "        LOAD SLEN, NAMEADDR",
  py "        SET  T, " ++ strInt LATEST_ADDR,
  py "        LOAD CUR, T          ; CUR = LATEST (newest word's name field)",
  py "FIND_LOOP:",
  py "        JZ   CUR, FIND_NOTFOUND",
  py "        MOV  T, CUR",
  py "        SUB  T, " ++ strInt SMUDGE_FROM_NAME_FIELD,
  py "        LOAD SMUDGE, T       ; skip smudged (hidden, mid-compile) words",
  py "        JZ   SMUDGE, FIND_VISIBLE",
  py "        SET  R, FIND_NEXT",
  py "        JMP  R",
  py "FIND_VISIBLE:",
  py "        LOAD WLEN, CUR",
  py "        MOV  T, WLEN",
  py "        SUB  T, SLEN",
  py "        JZ   T, FIND_CMP     ; lengths equal -> compare names",
  py "        SET  R, FIND_NEXT",
  py "        JMP  R",
  py "FIND_CMP:",
  py "        MOV  WPTR, CUR",
  py "        ADD  WPTR, 1",
  py "        MOV  SPTR, NAMEADDR",
  py "        ADD  SPTR, 1",
  py "        MOV  COUNT, SLEN",
  py "FIND_CHARS:",
  py "        JZ   COUNT, FIND_MATCH",
  py "        LOAD WC, WPTR",
  py "        LOAD SC, SPTR",
  py "        MOV  T, WC",
  py "        SUB  T, SC",
  py "        JZ   T, FIND_CHAR_OK",
  py "        SET  R, FIND_NEXT",
  py "        JMP  R",
  py "FIND_CHAR_OK:",
  py "        ADD  WPTR, 1",
  py "        ADD  SPTR, 1",
  py "        SUB  COUNT, 1",
  py "        SET  R, FIND_CHARS",
  py "        JMP  R",
  py "FIND_MATCH:",
  py "        MOV  CFA, CUR",
  py "        ADD  CFA, 1",
  py "        ADD  CFA, WLEN       ; CFA = name field + 1 + length",
  py "        PUSH_D CFA",
  py "        MOV  T, CUR",
  py "        SUB  T, " ++ strInt IMMEDIATE_FROM_NAME_FIELD,
  py "        LOAD IMM, T          ; the header's immediate flag",
  py "        JZ   IMM, FIND_NORMAL",
  py "        SET  FLAG, 1         ; immediate word",
  py "        PUSH_D FLAG",
  py "        JMP  NEXTREG",
  py "FIND_NORMAL:",
  py "        SUB  FLAG, FLAG",
  py "        SUB  FLAG, 1         ; normal word -> -1",
  py "        PUSH_D FLAG",
  py "        JMP  NEXTREG",
  py "FIND_NEXT:",
  py "        MOV  T, CUR",
  py "        SUB  T, " ++ strInt LINK_FROM_NAME_FIELD,
  py "        LOAD CUR, T          ; CUR = link (previous name field)",
  py "        SET  R, FIND_LOOP",
  py "        JMP  R",
  py "FIND_NOTFOUND:",
  py "        SUB  T, T",
  py "        PUSH_D T             ; xt = 0",
  py "        PUSH_D T             ; flag = 0",
  py "        JMP  NEXTREG"]

end Routines

open Routines in
/-- Every dictionary word. -/
def PRIMITIVES : List KernelPrimitive := [
  LIT_primitive, EXIT_primitive, BYE_primitive, DUP_primitive, DROP_primitive, SWAP_primitive,
  OVER_primitive, ROT_primitive, NROT_primitive, NIP_primitive, TUCK_primitive, PLUS_primitive,
  MINUS_primitive, MUL_primitive, NEGATE_primitive, ABS_primitive, ONEPLUS_primitive,
  ONEMINUS_primitive, FETCH_primitive, STOREW_primitive, CFETCH_primitive, CSTOREW_primitive,
  TOR_primitive, FROMR_primitive, RFETCH_primitive, EQUALS_primitive, NOTEQUALS_primitive,
  LESSTHAN_primitive, GREATERTHAN_primitive, ZEROEQ_primitive, ZEROLT_primitive, BITAND_primitive,
  BITOR_primitive, BITINVERT_primitive, KEY_primitive, EMIT_primitive, NUMBER_primitive,
  WORD_primitive, FIND_primitive]

def KERNEL_SOURCE : PyStr := CORE_SOURCE ++ (PRIMITIVES.map KernelPrimitive.source).flatten

def CODE_WORDS : List CodeWordDto := PRIMITIVES.map KernelPrimitive.word

end MinCpuForth.Kernel
