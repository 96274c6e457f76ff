import MinCpuForth.Domain.Errors
import MinCpuForth.Domain.Instruction

/-!
# First stage: source text to parsed lines

`services/assembler/parser.py`.
-/

namespace MinCpuForth.Assembler
open Python Domain

variable [UnicodeData]

/-- A match of `\s*([A-Za-z_]\w*):` at the start of `work`: the group, and what follows the match.
    No character class of the pattern contains the one that ends it, so the greedy match is the
    only one. -/
def labelPrefix (work : PyStr) : Option (PyStr × PyStr) :=
  match lstrip work with
  | [] => none
  | c :: cs =>
    if isAsciiLetter c || isUnderscore c then
      match cs.dropWhile isWord with
      | [] => none
      | d :: rest => if d.val == 58 then some (c :: cs.takeWhile isWord, rest) else none
    else none

/-- The `while` loop that peels the leading label definitions. Each turn drops a character at
    least, so the length of the text bounds the number of turns. -/
def peelLabels : Nat → PyStr → List PyStr × PyStr
  | 0, work => ([], work)
  | fuel + 1, work =>
    match labelPrefix work with
    | none => ([], work)
    | some (label, rest) =>
      let (labels, work) := peelLabels fuel rest
      (label :: labels, work)

/-- Splits off the mnemonic. -/
def splitMnemonic (text : PyStr) : Except AssemblerError (PyStr × PyStr) :=
  match splitNone1 text with
  | [] => .error (.malformedMnemonic [])
  | head :: parts =>
    if isalnum (head.filter (!isUnderscore ·)) then .ok (head, parts.headD [])
    else .error (.malformedMnemonic head)

/-- `LineParser._parse_line`. -/
def parseLine (lineno : Nat) (raw : PyStr) : Except AssemblerError LineDto :=
  let work := raw.takeWhile (·.val != 59)
  let (labels, work) := peelLabels work.length work
  let work := strip work
  if work.isEmpty then
    .ok { lineno := lineno, labels := labels, mnemonic := none, operands := [] }
  else do
    let (mnemonic, remainder) ← splitMnemonic work
    let operands := ((split 44 remainder).map strip).filter (!·.isEmpty)
    .ok { lineno := lineno, labels := labels, mnemonic := some mnemonic, operands := operands }

/-- Parses the lines from number `lineno` on. -/
def parseLines (lineno : Nat) : List PyStr → Except AssemblerError (List LineDto)
  | [] => .ok []
  | raw :: raws => do
    let line ← parseLine lineno raw
    let lines ← parseLines (lineno + 1) raws
    .ok (line :: lines)

/-- `LineParser.parse`. -/
def parse (source : PyStr) : Except AssemblerError (List LineDto) :=
  parseLines 1 (splitlines source)

end MinCpuForth.Assembler
