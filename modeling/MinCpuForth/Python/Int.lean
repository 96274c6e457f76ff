import MinCpuForth.Python.Str

/-!
# Integers as text

`str(n)`, and the integer literals that `int` reads in base 0, after CPython's `PyLong_FromString`.
-/

namespace MinCpuForth.Python

/-- `str(n)` of a natural number. -/
def strNat (n : Nat) : PyStr := (Nat.toDigits 10 n).map ofChar

/-- `str(n)`. -/
def strInt : Int → PyStr
  | .ofNat n => strNat n
  | .negSucc n => "-" ++ strNat (n + 1)

variable [U : UnicodeData]

/-- The white space that `int` skips, once the string is ASCII. -/
def isCSpace (c : PyChar) : Bool := (9 ≤ c.val && c.val ≤ 13) || c.val == 32

/-- A string that is not ASCII is first rewritten: its white space to blanks, its decimal digits
    (of any script) to ASCII ones, everything else to a question mark. -/
def toAsciiDecimal (s : PyStr) : PyStr :=
  if s.all (·.val < 128) then s
  else s.map fun c =>
    if c.val < 128 then c
    else if isSpace c then 32
    else match U.decimal c with
      | some d => ⟨48 + d.val, by omega⟩
      | none => 63

/-- The value of a digit or letter, as a digit of a base up to 36. -/
def digitValue (c : PyChar) : Option Nat :=
  if isAsciiDigit c then some (c.val - 48)
  else if 65 ≤ c.val && c.val ≤ 90 then some (c.val - 55)
  else if 97 ≤ c.val && c.val ≤ 122 then some (c.val - 87)
  else none

/-- Reads digits, single underscores between them, up to the end of the string. The result is the
    value and the number of digits; `under` tells that an underscore has just been read. -/
def scanDigits (base : Nat) (under : Bool) (value count : Nat) : PyStr → Option (Nat × Nat)
  | [] => if under then none else some (value, count)
  | c :: cs =>
    if isUnderscore c then
      if under then none else scanDigits base true value count cs
    else match digitValue c with
      | none => none
      | some d =>
        if d < base then scanDigits base false (value * base + d) (count + 1) cs else none

/-- `sys.int_info.default_max_str_digits`: the longest literal in a base that is no power of two. -/
def maxStrDigits : Nat := 4300

/-- The digits of a decimal literal. -/
def decimalLiteral (s : PyStr) : Option Nat :=
  match s with
  | [] => none
  | c :: _ =>
    if isUnderscore c then none
    else match scanDigits 10 false 0 0 s with
      | none => none
      | some (value, count) => if maxStrDigits < count then none else some value

/-- The digits after a base prefix; one underscore may separate them from it. -/
def prefixedLiteral (base : Nat) (s : PyStr) : Option Nat :=
  let s := match s with
    | [] => s
    | c :: cs => if isUnderscore c then cs else s
  match s with
  | [] => none
  | c :: _ =>
    if isUnderscore c then none
    else (scanDigits base false 0 0 s).map Prod.fst

/-- The base that the second character of a literal announces. -/
def prefixBase (c : PyChar) : Option Nat :=
  if c.val == 120 || c.val == 88 then some 16
  else if c.val == 111 || c.val == 79 then some 8
  else if c.val == 98 || c.val == 66 then some 2
  else none

/-- An unsigned literal in base 0. A leading zero without a prefix is accepted for zero only. -/
def unsignedLiteral (s : PyStr) : Option Nat :=
  match s with
  | [] => none
  | [_] => decimalLiteral s
  | c :: d :: cs =>
    if c.val == 48 then
      match prefixBase d with
      | some base => prefixedLiteral base cs
      | none =>
        match decimalLiteral s with
        | some 0 => some 0
        | _ => none
    else decimalLiteral s

/-- `int(s, 0)`; `none` is the `ValueError`. -/
def int0 (s : PyStr) : Option Int :=
  let s := toAsciiDecimal s
  let s := ((s.dropWhile isCSpace).reverse.dropWhile isCSpace).reverse
  match s with
  | [] => none
  | c :: cs =>
    if c.val == 43 then (unsignedLiteral cs).map Int.ofNat
    else if c.val == 45 then (unsignedLiteral cs).map fun n => -Int.ofNat n
    else (unsignedLiteral s).map Int.ofNat

end MinCpuForth.Python
