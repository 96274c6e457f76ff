import MinCpuForth.Adapters.Dictionary
import MinCpuForth.Adapters.SharedStacks
import MinCpuForth.Assembler.Service
import MinCpuForth.Kernel.Routines
import MinCpuForth.Adapters.DictionaryGrowth
import MinCpuForth.Adapters.DictionaryEntries
import MinCpuForth.Adapters.DictionaryHistory
import MinCpuForth.Adapters.DataPath
import MinCpuForth.Domain.Register
import MinCpuForth.Lib.Machine
import MinCpuForth.Emulator.Service
import MinCpuForth.Emulator.View
import MinCpuForth.Assembler.Emission
import MinCpuForth.Emulator.WellFormed
import MinCpuForth.Assembler.TwoPass
import MinCpuForth.Assembler.Ascii
import MinCpuForth.Assembler.Listing
import MinCpuForth.Kernel.Listing
import MinCpuForth.Emulator.Block
import MinCpuForth.Kernel.StackWords
import MinCpuForth.Kernel.Contract
import MinCpuForth.Kernel.Builder
import MinCpuForth.Kernel.Image
import MinCpuForth.Kernel.Reference
import MinCpuForth.Kernel.Threading
import MinCpuForth.Kernel.Vocabulary
import MinCpuForth.Kernel.Extent
import MinCpuForth.Kernel.Programs
import MinCpuForth.Kernel.Agreement
import MinCpuForth.Kernel.Failure
import MinCpuForth.Kernel.ThreadedCode
import MinCpuForth.Adapters.DataPathCells
import MinCpuForth.Emulator.Bare
import MinCpuForth.Emulator.BareBlock
import MinCpuForth.Kernel.Calls
import MinCpuForth.Lib.Decimal
import MinCpuForth.Kernel.Number
import MinCpuForth.Emulator.Fetch
import MinCpuForth.Kernel.Word
import MinCpuForth.Adapters.DictionaryHiding
import MinCpuForth.Kernel.Find
import MinCpuForth.Emulator.Clean
import MinCpuForth.Forth.Service
import MinCpuForth.Kernel.Accesses
import MinCpuForth.Forth.Accesses
import MinCpuForth.Forth.Vocabulary
import MinCpuForth.Kernel.Returning
import MinCpuForth.Kernel.Discipline
import MinCpuForth.Kernel.Convention
import MinCpuForth.Kernel.Pipeline
import MinCpuForth.Adapters.DictionaryFailure
import MinCpuForth.Emulator.PseudoOps
import MinCpuForth.Assembler.Relocation
import MinCpuForth.Python.Text
import MinCpuForth.Python.Literal
import MinCpuForth.Assembler.Grammar
import MinCpuForth.Assembler.Acceptance
import MinCpuForth.Assembler.Printing
import MinCpuForth.Assembler.Desugar
import MinCpuForth.Assembler.RoundTrip
import MinCpuForth.Adapters.StackCases
import MinCpuForth.Forth.Runs
import MinCpuForth.Forth.Stopping
import MinCpuForth.Forth.Redefinition
import MinCpuForth.Forth.Failure
import MinCpuForth.Emulator.Run
import MinCpuForth.Kernel.Echo
import MinCpuForth.Kernel.StackEffects
import MinCpuForth.Kernel.Threads
import MinCpuForth.Kernel.Frames
import MinCpuForth.Kernel.Sessions
import MinCpuForth.Forth.Agreement
import MinCpuForth.Lib.Coupling
import MinCpuForth.Domain.Renaming
import MinCpuForth.Emulator.Symmetry
import MinCpuForth.Emulator.Renaming
import MinCpuForth.Emulator.Interaction
import MinCpuForth.Emulator.Sequence
import MinCpuForth.Assembler.RenamedText
import MinCpuForth.Assembler.Renaming
import MinCpuForth.Kernel.Meaning
import MinCpuForth.Kernel.TypedNumbers
import MinCpuForth.Forth.MemoryPrograms
