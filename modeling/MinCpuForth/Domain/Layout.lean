import Mathlib.Data.Int.Notation
import Mathlib.Tactic.Lemma

/-!
# The memory map

`layout.py`: system variables and dictionary at the bottom, then the data stack, then the return
stack; and the cell offsets of a dictionary header (`HeaderField` of `domain/dtos.py`).
-/

namespace MinCpuForth.Layout

abbrev CELL_SIZE : ℤ := 1
abbrev DICTIONARY_SIZE : ℤ := 2048
abbrev DATA_STACK_SIZE : ℤ := 1024
abbrev RETURN_STACK_SIZE : ℤ := 1024

abbrev DATA_STACK_BASE : ℤ := DICTIONARY_SIZE + DATA_STACK_SIZE
abbrev RETURN_STACK_BASE : ℤ := DATA_STACK_BASE + RETURN_STACK_SIZE
abbrev MEMORY_SIZE : ℤ := RETURN_STACK_BASE

abbrev SYSTEM_VARS_BASE : ℤ := 0
abbrev DP_ADDR : ℤ := SYSTEM_VARS_BASE + 0
abbrev LATEST_ADDR : ℤ := SYSTEM_VARS_BASE + 1
abbrev SYSTEM_VARS_SIZE : ℤ := 8
abbrev DICTIONARY_BASE : ℤ := SYSTEM_VARS_BASE + SYSTEM_VARS_SIZE
/-- Exclusive upper bound of the dictionary, and the floor of the data stack. -/
abbrev DICTIONARY_TOP : ℤ := DICTIONARY_SIZE

abbrev WORD_BUFFER_SIZE : ℤ := 64
/-- Where `WORD` builds its counted string. -/
abbrev WORD_BUFFER_BASE : ℤ := DICTIONARY_SIZE - WORD_BUFFER_SIZE

/-- The memory map in numbers. -/
lemma values :
    DP_ADDR = 0 ∧ LATEST_ADDR = 1 ∧ DICTIONARY_BASE = 8 ∧ WORD_BUFFER_BASE = 1984 ∧
      WORD_BUFFER_SIZE = 64 ∧ DICTIONARY_TOP = 2048 ∧ DATA_STACK_BASE = 3072 ∧
      DATA_STACK_SIZE = 1024 ∧ RETURN_STACK_BASE = 4096 ∧ RETURN_STACK_SIZE = 1024 ∧
      MEMORY_SIZE = 4096 := by
  decide

end MinCpuForth.Layout

namespace MinCpuForth.HeaderField

/- Offsets from the start of a header; the name field, which `LATEST` and the links point to, is
   the name-length cell. -/

abbrev LINK : ℤ := 0
abbrev IMMEDIATE : ℤ := 1
abbrev SMUDGE : ℤ := 2
abbrev NAME_LENGTH : ℤ := 3
abbrev NAME : ℤ := 4

/-- The offsets in numbers. -/
lemma values : LINK = 0 ∧ IMMEDIATE = 1 ∧ SMUDGE = 2 ∧ NAME_LENGTH = 3 ∧ NAME = 4 := by
  decide

end MinCpuForth.HeaderField
