import MinCpuForth.Assembler.Emitter
import MinCpuForth.Assembler.Parser
import MinCpuForth.Assembler.Resolver

/-!
# The assembler

Parse, resolve, emit (`services/assembler/service.py`).
-/

namespace MinCpuForth.Assembler
open Python Domain

variable [UnicodeData]

/-- `TextAssembler.assemble`. -/
def assemble (source : PyStr) : Except AssemblerError AssemblyDto := do
  let resolved ← resolve (← parse source)
  let program ← emit resolved
  .ok { program := program, labels := resolved.labels }

end MinCpuForth.Assembler
