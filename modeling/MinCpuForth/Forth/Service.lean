import MinCpuForth.Adapters.DataPath
import MinCpuForth.Domain.Register
import MinCpuForth.Python.Dict
import Mathlib.Algebra.Order.Group.Unbundled.Int
import Mathlib.Data.Int.Bitwise
import Mathlib.Logic.Function.Basic

/-!
# The Forth interpreter

`services/forth.py`: words as callables over the data path, which the interpreter shares with the
emulator. A primitive is named by a constructor; a colon word is known by the name under which its
body is stored.
-/

namespace MinCpuForth.Forth
open Python Domain Adapters DataPath

/-- The callables of `build_minimal_dictionary`; `NOOP` is the placeholder of the control words. -/
inductive Primitive where
  | DUP | DROP | SWAP | OVER | ROT | NEG_ROT | NIP | TUCK
  | ADD | SUB | MUL | DIV | MOD | NEGATE | ABS | ONE_PLUS | ONE_MINUS
  | FETCH | STORE
  | TO_R | R_FROM | R_FETCH
  | EQ | NE | LT | GT | ZERO_EQ | ZERO_LT | AND | OR | INVERT
  | LIT | DOCOL | EXIT | BYE | NOOP
  deriving DecidableEq, Repr

/-- A value of the dictionary. -/
inductive Word where
  | primitive (p : Primitive)
  | colon (captured : PyStr)
  deriving DecidableEq

/-- The interpreter and the ports that it reaches. -/
structure ForthService where
  data : DataPath
  registers : PyStr → ℤ
  halted : Bool
  dictionary : PyDict Word
  colon_defs : PyDict (List PyStr)

/-- Something that the interpreter does. -/
abbrev Action (α : Type) := EStateM PyError ForthService α

section Stacks

/-! What the stack words do to the data path. -/

/-- `_binop`: pops `b`, then `a`, and pushes `func(a, b)`. -/
def binop (func : ℤ → ℤ → Except PyError ℤ) : EStateM PyError DataPath Unit := do
  let b ← popData
  let a ← popData
  match func a b with
  | .ok value => pushData value
  | .error e => throw e

/-- Pushes `func` of the value that it pops. -/
def unop (func : ℤ → ℤ) : EStateM PyError DataPath Unit := do
  pushData (func (← popData))

/-- `( x -- )`. -/
def drop : EStateM PyError DataPath Unit := do
  let _ ← popData

/-- `( a b -- b a )`. -/
def swap : EStateM PyError DataPath Unit := do
  let a ← popData
  let b ← popData
  pushData a
  pushData b

/-- `( a b -- a b a )`. -/
def «over» : EStateM PyError DataPath Unit := do
  let b ← popData
  let a ← peekData
  pushData b
  pushData a

/-- `( a b c -- b c a )`. -/
def rot : EStateM PyError DataPath Unit := do
  let c ← popData
  let b ← popData
  let a ← popData
  pushData b
  pushData c
  pushData a

/-- `( a b c -- c a b )`. -/
def neg_rot : EStateM PyError DataPath Unit := do
  let c ← popData
  let b ← popData
  let a ← popData
  pushData c
  pushData a
  pushData b

/-- `( a b -- b )`. -/
def nip : EStateM PyError DataPath Unit := do
  let a ← popData
  let _ ← popData
  pushData a

/-- `( a b -- b a b )`. -/
def tuck : EStateM PyError DataPath Unit := do
  let a ← popData
  let b ← popData
  pushData a
  pushData b
  pushData a

/-- `( addr -- x )`. -/
def fetch : EStateM PyError DataPath Unit := do
  pushData (← read (← popData))

/-- `( x addr -- )`: stores `x` at `addr`. -/
def store : EStateM PyError DataPath Unit := do
  let addr ← popData
  let value ← popData
  write addr value

/-- `int(p)`. -/
def int (p : Prop) [Decidable p] : ℤ := if p then 1 else 0

/-- `a // b`. -/
def floordiv (a b : ℤ) : Except PyError ℤ :=
  if b = 0 then .error .zeroDivision else .ok (Int.fdiv a b)

/-- `a % b`. -/
def modulo (a b : ℤ) : Except PyError ℤ :=
  if b = 0 then .error .zeroDivision else .ok (Int.fmod a b)

end Stacks

namespace ForthService

/-- Uses the data path. -/
def onData {α : Type} (op : EStateM PyError DataPath α) : Action α := fun s =>
  match op s.data with
  | .ok a d => .ok a { s with data := d }
  | .error e d => .error e { s with data := d }

/-- Writes a register. -/
def writeRegister (name : PyStr) (value : ℤ) : Action Unit := fun s =>
  .ok () { s with registers := Function.update s.registers name value }

/-- Enters the colon definition at `addr`: saves `IP`, then jumps into it. -/
def docol (addr : ℤ) : Action Unit := do
  onData (pushReturn ((← get).registers Register.IP))
  writeRegister Register.IP addr

/-- Returns from a colon definition: restores `IP` from the return stack. -/
def exit : Action Unit := do
  writeRegister Register.IP (← onData popReturn)

/-- Stops the interpreter. -/
def bye : Action Unit := fun s => .ok () { s with halted := true }

end ForthService

open ForthService

/-- What a primitive does to the data path, if that is all it does. -/
def Primitive.body : Primitive → Option (EStateM PyError DataPath Unit)
  | .DUP => some do pushData (← peekData)
  | .DROP => some drop
  | .SWAP => some swap
  | .OVER => some «over»
  | .ROT => some rot
  | .NEG_ROT => some neg_rot
  | .NIP => some nip
  | .TUCK => some tuck
  | .ADD => some (binop fun a b => .ok (a + b))
  | .SUB => some (binop fun a b => .ok (a - b))
  | .MUL => some (binop fun a b => .ok (a * b))
  | .DIV => some (binop floordiv)
  | .MOD => some (binop modulo)
  | .NEGATE => some (unop fun a => -a)
  | .ABS => some (unop fun a => |a|)
  | .ONE_PLUS => some (unop fun a => a + 1)
  | .ONE_MINUS => some (unop fun a => a - 1)
  | .FETCH => some fetch
  | .STORE => some store
  | .TO_R => some do pushReturn (← popData)
  | .R_FROM => some do pushData (← popReturn)
  | .R_FETCH => some do pushData (← peekReturn)
  | .EQ => some (binop fun a b => .ok (int (a = b)))
  | .NE => some (binop fun a b => .ok (int (a ≠ b)))
  | .LT => some (binop fun a b => .ok (int (a < b)))
  | .GT => some (binop fun a b => .ok (int (a > b)))
  | .ZERO_EQ => some (unop fun a => int (a = 0))
  | .ZERO_LT => some (unop fun a => int (a < 0))
  | .AND => some (binop fun a b => .ok (Int.land a b))
  | .OR => some (binop fun a b => .ok (Int.lor a b))
  | .INVERT => some (unop fun a => Int.not a)
  | .NOOP => some (pure ())
  | .LIT | .DOCOL | .EXIT | .BYE => none

/-- Calls a primitive with positional arguments. -/
def Primitive.call (p : Primitive) (args : List ℤ) : Action Unit :=
  match p, args with
  | .LIT, [value] => onData (pushData value)
  | .DOCOL, [addr] => docol addr
  | .EXIT, [] => exit
  | .BYE, [] => bye
  | p, [] =>
    match p.body with
    | some op => onData op
    | none => throw .typeError
  | _, _ => throw .typeError

/-- Primitives under their names. -/
def primitives (items : List (PyStr × Primitive)) : PyDict Word :=
  items.map fun item => (item.1, .primitive item.2)

/-- The words that `build_minimal_dictionary` installs. -/
def build_minimal_dictionary : PyDict Word :=
  -- Stack ops
  primitives [("DUP", .DUP), ("DROP", .DROP), ("SWAP", .SWAP), ("OVER", .OVER), ("ROT", .ROT),
    ("-ROT", .NEG_ROT), ("NIP", .NIP), ("TUCK", .TUCK)] ++
  -- Arithmetic
  primitives [("+", .ADD), ("-", .SUB), ("*", .MUL), ("/", .DIV), ("MOD", .MOD),
    ("NEGATE", .NEGATE), ("ABS", .ABS), ("1+", .ONE_PLUS), ("1-", .ONE_MINUS)] ++
  -- Memory ops
  primitives [("@", .FETCH), ("!", .STORE)] ++
  -- Return stack
  primitives [(">R", .TO_R), ("R>", .R_FROM), ("R@", .R_FETCH)] ++
  -- Comparisons / logic
  primitives [("=", .EQ), ("<>", .NE), ("<", .LT), (">", .GT), ("0=", .ZERO_EQ),
    ("0<", .ZERO_LT), ("AND", .AND), ("OR", .OR), ("INVERT", .INVERT)] ++
  -- Forth control primitives
  primitives [("LIT", .LIT), ("DOCOL", .DOCOL), ("EXIT", .EXIT), ("BYE", .BYE)] ++
  -- Control structures: no-op placeholders
  primitives [("IF", .NOOP), ("ELSE", .NOOP), ("THEN", .NOOP), ("BEGIN", .NOOP),
    ("UNTIL", .NOOP), ("WHILE", .NOOP), ("REPEAT", .NOOP), ("DO", .NOOP), ("LOOP", .NOOP),
    ("+LOOP", .NOOP)]

namespace ForthService

/-- `ForthService.__init__`. -/
def init (data : DataPath) (registers : PyStr → ℤ) : ForthService :=
  { data := data, registers := registers, halted := false,
    dictionary := build_minimal_dictionary, colon_defs := [] }

/-- Defines `name` as the sequence of words in `code`. -/
def add_colon_def (s : ForthService) (name : PyStr) (code : List PyStr) : ForthService :=
  { s with
    colon_defs := s.colon_defs.setItem name code
    dictionary := s.dictionary.setItem name (.colon name) }

/-- The loop of `_execute_colon`, given how a word is called. -/
def execute_words (call : Word → Action (Option Unit)) : List PyStr → Action (Option Unit)
  | [] => return some ()
  | word :: words => do
    match (← get).dictionary.lookup word with
    | none => throw (.unknownWord word)
    | some w =>
      match ← call w with
      | none => return none
      | some () => execute_words call words

/-- `dictionary[name]()`, with at most `fuel` calls inside each other; `none` tells that they do not
    suffice. CPython's recursion limit is not modelled. -/
def call : ℕ → Word → Action (Option Unit)
  | 0, _ => return none
  | _ + 1, .primitive p => do
    p.call []
    return some ()
  | fuel + 1, .colon captured => do
    match (← get).colon_defs.lookup captured with
    | none => throw .keyError
    | some code => execute_words (call fuel) code

end ForthService

end MinCpuForth.Forth
