import MinCpuForth.Adapters.DictionaryHistory
import MinCpuForth.Assembler.Service
import MinCpuForth.Domain.Register
import MinCpuForth.Emulator.Service
import MinCpuForth.Kernel.Routines
import MinCpuForth.Python.Dict

/-!
# The kernel builder

`services/kernel/builder.py`: assembles the routines, installs every word in the dictionary and
lays down the boot thread.
-/

namespace MinCpuForth.Kernel
open Python Domain Adapters Assembler Emulator

/-- A colon word: the names of the words that its thread invokes. -/
structure ColonWordDto where
  name : PyStr
  words : List PyStr
  immediate : Bool := false
  deriving DecidableEq, Repr

inductive WordSpecDto where
  | code (word : CodeWordDto)
  | colon (word : ColonWordDto)
  deriving DecidableEq, Repr

def WordSpecDto.name : WordSpecDto → PyStr
  | code word => word.name
  | colon word => word.name

inductive ThreadItemDto where
  /-- `WordReferenceDto`: invokes a word by its code field address. -/
  | reference (name : PyStr)
  /-- `LiteralCellDto`: an inline literal, pushed by the `LIT` before it. -/
  | literal (value : ℤ)
  deriving DecidableEq, Repr

structure KernelImageDto where
  program : List InstructionDto
  word_cfas : PyDict ℤ
  boot_ip : ℤ

namespace KernelBuilder
open MemoryDictionaryAdapter

def START_LABEL : PyStr := "START"

def EXIT_WORD : PyStr := "EXIT"

/-- The code field address of a word that has been installed. -/
def cfa_of (word_cfas : PyDict ℤ) (name : PyStr) : Except PyError ℤ :=
  match word_cfas.lookup name with
  | some cfa => .ok cfa
  | none => .error (.notInstalled name)

/-- `labels[label]`. -/
def label_index (labels : Labels) (label : PyStr) : Except PyError ℤ :=
  match labels.lookup label with
  | some index => .ok index
  | none => .error .keyError

variable {n : ℕ}

/-- A computation that does not touch the memory. -/
def lift {α : Type} (x : Except PyError α) : EStateM PyError (ListMemoryAdapter n) α :=
  match x with
  | .ok a => return a
  | .error e => throw e

/-- Installs one word, and records its code field address. -/
def install (labels : Labels) (enter_index : ℤ) (word_cfas : PyDict ℤ) :
    WordSpecDto → EStateM PyError (ListMemoryAdapter n) (PyDict ℤ)
  | .code word => do
    let routine ← lift (label_index labels word.routine_label)
    let cfa ← append_word word.name routine [] word.immediate
    return word_cfas.setItem word.name cfa
  | .colon word => do
    let thread ← lift ((word.words ++ [EXIT_WORD]).mapM (cfa_of word_cfas))
    let cfa ← append_word word.name enter_index thread word.immediate
    return word_cfas.setItem word.name cfa

/-- Installs the words in order. -/
def installAll (labels : Labels) (enter_index : ℤ) (word_cfas : PyDict ℤ) :
    List WordSpecDto → EStateM PyError (ListMemoryAdapter n) (PyDict ℤ)
  | [] => return word_cfas
  | word :: words => do
    let word_cfas ← install labels enter_index word_cfas word
    installAll labels enter_index word_cfas words

/-- The cell of a thread item. -/
def item_cell (word_cfas : PyDict ℤ) : ThreadItemDto → Except PyError ℤ
  | .reference name => cfa_of word_cfas name
  | .literal value => .ok value

/-- Lays down the boot thread. -/
def append_boot (word_cfas : PyDict ℤ) :
    List ThreadItemDto → EStateM PyError (ListMemoryAdapter n) Unit
  | [] => return ()
  | item :: items => do
    let _ ← append_cell (← lift (item_cell word_cfas item))
    append_boot word_cfas items

/-- Every word that a build installs, in order. -/
def specs (colon_words : List ColonWordDto) : List WordSpecDto :=
  CODE_WORDS.map .code ++ colon_words.map .colon

/-- `KernelBuilder.build`. -/
def build [UnicodeData] (colon_words : List ColonWordDto) (boot : List ThreadItemDto) :
    EStateM PyError (ListMemoryAdapter n) KernelImageDto := do
  let assembly ← lift ((assemble KERNEL_SOURCE).mapError .assembler)
  if assembly.labels.lookup START_LABEL ≠ some 0 then throw .misplacedStart
  let enter_index ← lift (label_index assembly.labels ENTER_LABEL)
  let word_cfas ← installAll assembly.labels enter_index [] (specs colon_words)
  let boot_ip ← here
  append_boot word_cfas boot
  return { program := assembly.program, word_cfas := word_cfas, boot_ip := boot_ip }

/-- A build into a freshly constructed dictionary. -/
def buildFresh [UnicodeData] (colon_words : List ColonWordDto) (boot : List ThreadItemDto) :
    EStateM PyError (ListMemoryAdapter n) KernelImageDto := do
  init
  build colon_words boot

end KernelBuilder

/-- `boot`: loads the image, and points `IP` at its boot thread. -/
def boot (emulator : EmulatorService) (image : KernelImageDto) : EmulatorService :=
  let loaded := emulator.load image.program
  { loaded with registers := Function.update loaded.registers Register.IP image.boot_ip }

end MinCpuForth.Kernel
