import MinCpuForth.Kernel.Builder
import MinCpuForth.Kernel.StackWords

/-!
# What a program of colon words means

The reference semantics, which knows nothing of threads: a word of the kernel does what its stack
comment says, a colon word runs its body, and a name denotes the newest word of that name among
those defined before. The environment is the list of words, newest first.

A body has a return stack of its own. Cells below it on the machine's return stack are counted, since
there is room for 1024 in all; entering a colon word takes one more for the way back.
-/

namespace MinCpuForth.Kernel
open Python Domain

namespace StackWord

def all : List StackWord := [
  .DUP, .DROP, .SWAP, .OVER, .ROT, .NROT, .NIP, .TUCK, .PLUS, .MINUS, .MUL, .NEGATE, .ABS,
  .ONEPLUS, .ONEMINUS, .TOR, .FROMR, .RFETCH, .EQUALS, .NOTEQUALS, .LESSTHAN, .GREATERTHAN,
  .ZEROEQ, .ZEROLT, .BITAND, .BITOR, .BITINVERT]

/-- The name of the word in Forth. -/
def name : StackWord → PyStr
  | .DUP => "DUP" | .DROP => "DROP" | .SWAP => "SWAP" | .OVER => "OVER" | .ROT => "ROT"
  | .NROT => "-ROT" | .NIP => "NIP" | .TUCK => "TUCK" | .PLUS => "+" | .MINUS => "-" | .MUL => "*"
  | .NEGATE => "NEGATE" | .ABS => "ABS" | .ONEPLUS => "1+" | .ONEMINUS => "1-" | .TOR => ">R"
  | .FROMR => "R>" | .RFETCH => "R@" | .EQUALS => "=" | .NOTEQUALS => "<>" | .LESSTHAN => "<"
  | .GREATERTHAN => ">" | .ZEROEQ => "0=" | .ZEROLT => "0<" | .BITAND => "AND" | .BITOR => "OR"
  | .BITINVERT => "INVERT"

/-- The word of a name. -/
def ofName? (name : PyStr) : Option StackWord := all.find? (·.name = name)

lemma name_of_ofName? {name : PyStr} {w : StackWord} (h : ofName? name = some w) :
    w.name = name := by
  simpa using List.find?_some h

/-- The depth of a body's own return stack after the word; `none` if the word would reach below. -/
def returnDepth : StackWord → ℕ → Option ℕ
  | .TOR, depth => some (depth + 1)
  | .FROMR, 0 | .RFETCH, 0 => none
  | .FROMR, depth + 1 => some depth
  | _, depth => some depth

end StackWord

/-- The words that may be used, newest first. -/
abbrev Env := List WordSpecDto

/-- What a body or a boot thread is made of. -/
inductive Item where
  | lit (n : ℤ)
  | word (name : PyStr)
  deriving DecidableEq, Repr

/-- Runs items, given what the words do. -/
def runItems (f : PyStr → List ℤ → List ℤ → ℕ → Option Verdict) :
    List Item → List ℤ → List ℤ → ℕ → Option Verdict
  | [], ds, rs, _ => some (.ok ds rs)
  | .lit n :: items, ds, rs, below =>
    if ds.length < 1024 then runItems f items (n :: ds) rs below
    else some (.fault .stackOverflow)
  | .word name :: items, ds, rs, below =>
    match f name ds rs below with
    | some (.ok ds' rs') => runItems f items ds' rs' below
    | other => other

/-- What a caller sees of a body: the body's own return stack is gone. -/
def Verdict.leave (rs : List ℤ) : Verdict → Verdict
  | .ok ds _ => .ok ds rs
  | other => other

/-- What the word of that name does to the data stack and to the caller's own return stack; `none`
    if the name denotes no word that the semantics covers. -/
def call : Env → PyStr → List ℤ → List ℤ → ℕ → Option Verdict
  | [], _, _, _, _ => none
  | .code w :: env, name, ds, rs, below =>
    if w.name = name then (StackWord.ofName? name).map (·.verdict ds rs below)
    else call env name ds rs below
  | .colon w :: env, name, ds, rs, below =>
    if w.name = name then
      if below + rs.length < 1024 then
        (runItems (call env) (w.words.map .word) ds [] (below + rs.length + 1)).map (.leave rs)
      else some (.fault .stackOverflow)
    else call env name ds rs below

/-- The depth of the own return stack after a word, counting the names that denote `>R`, `R>` and
    `R@`; `none` also if the name denotes no word that the semantics covers. -/
def wordDepth : Env → PyStr → ℕ → Option ℕ
  | [], _, _ => none
  | .code w :: env, name, depth =>
    if w.name = name then (StackWord.ofName? name).bind (·.returnDepth depth)
    else wordDepth env name depth
  | .colon w :: env, name, depth => if w.name = name then some depth else wordDepth env name depth

/-- The depth of the own return stack after some items. -/
def itemsDepth (env : Env) : List Item → ℕ → Option ℕ
  | [], depth => some depth
  | .lit _ :: items, depth => itemsDepth env items depth
  | .word name :: items, depth => (wordDepth env name depth).bind (itemsDepth env items)

/-- The items use only words of the environment, never take from the return stack what they have
    not put there, and leave nothing on it. -/
def Balanced (env : Env) (items : List Item) : Prop := itemsDepth env items 0 = some 0

instance (env : Env) (items : List Item) : Decidable (Balanced env items) :=
  inferInstanceAs (Decidable (_ = _))

/-- The names that threads rely on. -/
def RESERVED : List PyStr := ["LIT", "EXIT", "BYE"]

/-- Every colon word of the environment has a name of its own choice that is not reserved, and a
    balanced body of earlier words. -/
def Sound : Env → Prop
  | [] => True
  | .code w :: env => w ∈ CODE_WORDS ∧ Sound env
  | .colon w :: env =>
    w.name ∉ RESERVED ∧ Balanced env (w.words.map .word) ∧ Sound env

/-- The environment of a program. -/
def envOf (colon_words : List ColonWordDto) : Env := (KernelBuilder.specs colon_words).reverse

/-- The thread items of a boot thread. -/
def Item.thread : Item → List ThreadItemDto
  | .lit n => [.reference "LIT", .literal n]
  | .word name => [.reference name]

/-- A boot thread that runs the items and ends. -/
def bootThread (items : List Item) : List ThreadItemDto :=
  (items.map Item.thread).flatten ++ [.reference "BYE"]

end MinCpuForth.Kernel
