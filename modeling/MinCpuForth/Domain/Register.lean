import MinCpuForth.Python.Str

/-!
# The reserved registers

`domain/register.py`: the registers that the threading core and the interpreter rely on.
-/

namespace MinCpuForth.Domain.Register
open Python

/-- Interpreter pointer. -/
abbrev IP : PyStr := "IP"
/-- The current word's code field address. -/
abbrev W : PyStr := "W"
/-- The code-field value being jumped to. -/
abbrev XT : PyStr := "XT"
/-- Holds the program index of `NEXT`. -/
abbrev NEXT_POINTER : PyStr := "NEXTREG"

end MinCpuForth.Domain.Register
