import MinCpuForth.Assembler.Specs
import MinCpuForth.Domain.Errors

/-!
# Second stage: program addresses

`services/assembler/resolver.py`.
-/

namespace MinCpuForth.Assembler
open Python Domain

/-- How many instructions a line emits, judged by its mnemonic alone. -/
def size (line : LineDto) : Nat :=
  match line.mnemonic with
  | none => 0
  | some mnemonic => (PSEUDO_OP_SIZES.lookup mnemonic).getD 1

/-- Enters the labels of one line into the table. -/
def defineLabels (lineno : Nat) (address : Int) (labels : Labels) :
    List PyStr → Except AssemblerError Labels
  | [] => .ok labels
  | name :: names =>
    if (labels.lookup name).isSome then .error (.duplicateLabel lineno name)
    else defineLabels lineno address (labels ++ [(name, address)]) names

/-- The loop of `resolve`, from a label table and an address on. -/
def resolveLoop (labels : Labels) (address : Int) :
    List LineDto → Except AssemblerError ResolvedProgramDto
  | [] => .ok { lines := [], labels := labels }
  | line :: lines => do
    let labels ← defineLabels line.lineno address labels line.labels
    let resolved ← resolveLoop labels (address + size line) lines
    .ok { resolved with lines := line.with_address address :: resolved.lines }

/-- `LabelAddressResolver.resolve`. -/
def resolve (lines : List LineDto) : Except AssemblerError ResolvedProgramDto :=
  resolveLoop [] 0 lines

end MinCpuForth.Assembler
