import MinCpuForth.Python.Str

/-!
# Exceptions

The exception hierarchy of `errors.py`, with the Python exceptions that escape from the list
indexing and dictionary lookups of the code. A constructor stands for one `raise` statement and
carries the values that its message interpolates.
-/

namespace MinCpuForth.Domain
open Python

/-- `AssemblerError`. -/
inductive AssemblerError where
  | malformedMnemonic (mnemonic : PyStr)
  | duplicateLabel (lineno : Nat) (name : PyStr)
  | unknownMnemonic (lineno : Nat) (mnemonic : PyStr)
  | operandCount (lineno : Nat) (mnemonic : PyStr) (expected got : Nat)
  | setOperandCount (lineno got : Nat)
  | movOperandCount (lineno got : Nat)
  | expectedRegister (lineno : Nat) (token : PyStr)
  | undefinedLabel (lineno : Nat) (token : PyStr)
  | expectedConstant (lineno : Nat) (token : PyStr)
  deriving DecidableEq, Repr

/-- Everything that an operation of the program can raise. -/
inductive PyError where
  /-- `StackError('stack overflow')` -/
  | stackOverflow
  /-- `StackError('stack underflow')` -/
  | stackUnderflow
  /-- `EmulatorError('exceeded {max_steps} steps without HALT')` -/
  | maxSteps (max_steps : Int)
  /-- `EmulatorError('expected a register name, got {value!r}')` -/
  | expectedRegister (value : Option Int)
  /-- `EmulatorError('branch instruction is missing its offset')` -/
  | missingOffset
  /-- `InputExhaustedError('IN: input queue is empty')` -/
  | inputExhausted
  | assembler (error : AssemblerError)
  /-- `UnknownWordError('Unknown word: {word}')` -/
  | unknownWord (word : PyStr)
  /-- `KernelError("kernel routine 'START' must assemble at program index 0")` -/
  | misplacedStart
  /-- `KernelError('word {name!r} is referenced before it is installed')` -/
  | notInstalled (name : PyStr)
  /-- `IndexError`, from indexing a list -/
  | indexError
  /-- `KeyError`, from looking a key up in a dictionary -/
  | keyError
  /-- `ValueError`, from `chr` -/
  | valueError
  /-- `ZeroDivisionError`, from `//` and `%` -/
  | zeroDivision
  /-- `TypeError`, from calling a word without its argument -/
  | typeError
  deriving DecidableEq, Repr

/-- `StackError`. -/
def PyError.isStackError : PyError → Bool
  | stackOverflow | stackUnderflow => true
  | _ => false

/-- `KernelError`. -/
def PyError.isKernelError : PyError → Bool
  | misplacedStart | notInstalled _ => true
  | _ => false

/-- Subclasses of `MachineError`, the base class of the program's own exceptions. -/
def PyError.isMachineError : PyError → Bool
  | indexError | keyError | valueError | zeroDivision | typeError => false
  | _ => true

end MinCpuForth.Domain
