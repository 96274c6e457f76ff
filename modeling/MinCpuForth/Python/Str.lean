import Mathlib.Algebra.GroupWithZero.Nat
import Mathlib.Data.List.Basic

/-!
# Python strings

The part of Python's `str` that the assembler and the dictionary rely on. A string is a list of
code points, surrogates included, so that `ord` and `chr` are mutually inverse on the whole range.

The predicates that CPython answers from the Unicode database (`isalnum`, `isidentifier`, the value
of a decimal digit) are spelled out on ASCII and left to a `UnicodeData` beyond it, so that what is
proved holds for every version of the database. White space and line boundaries are a short fixed
list, which is written out.
-/

namespace MinCpuForth.Python

/-- A code point: what indexing a Python string yields. -/
abbrev PyChar := Fin 0x110000

instance PyChar.neZero : NeZero 0x110000 := ⟨by decide⟩

/-- A Python string. -/
abbrev PyStr := List PyChar

instance : LawfulBEq PyStr := List.instLawfulBEq

/-- `ord(c)`. -/
def ord (c : PyChar) : Int := c.val

/-- `chr(n)`; `none` is the `ValueError` outside `range(0x110000)`. -/
def chr (n : Int) : Option PyChar :=
  if h : 0 ≤ n ∧ n < 0x110000 then some ⟨n.toNat, by omega⟩ else none

@[simp] lemma chr_ord (c : PyChar) : chr (ord c) = some c := by
  have h : (0 : Int) ≤ (c.val : Int) ∧ (c.val : Int) < 0x110000 := by omega
  simp [chr, ord, h]

/-- A valid character code is that of its character. -/
lemma chr_isSome {n : Int} (h : (chr n).isSome) : ∃ c, n = ord c := by
  unfold chr at h
  split at h
  · rename_i range
    exact ⟨⟨n.toNat, by omega⟩, (Int.toNat_of_nonneg range.1).symm⟩
  · cases h

lemma ord_injective : Function.Injective ord := by
  intro c d e
  exact Fin.ext (Int.natCast_inj.mp e)

/-- A character of the host's strings as a code point. -/
def ofChar (c : Char) : PyChar := ⟨c.toNat, by
  have h : c.toNat.isValidChar := c.valid
  unfold Nat.isValidChar at h
  omega⟩

/-- A string literal of the source, as the list of its code points. -/
def py (s : String) : PyStr := s.toList.map ofChar

instance : Coe String PyStr := ⟨py⟩

lemma py_injective : Function.Injective py := by
  intro s t e
  have h : s.toList = t.toList := by
    refine List.map_injective_iff.mpr ?_ e
    intro c d e
    exact Char.toNat_inj.mp (Fin.mk.inj_iff.mp e)
  exact String.toList_injective h

@[simp] lemma py_inj {s t : String} : py s = py t ↔ s = t := py_injective.eq_iff

/-- A literal as an explicit list, which is what evaluating it calls for. -/
lemma py_ofList (cs : List Char) : py (String.ofList cs) = cs.map ofChar := by
  simp [py]

/-- The answers of the Unicode database beyond ASCII. -/
class UnicodeData where
  /-- `str.isalnum` of a one-character string. -/
  alnum : PyChar → Bool
  /-- The derived property `XID_Start`. -/
  xidStart : PyChar → Bool
  /-- The derived property `XID_Continue`. -/
  xidContinue : PyChar → Bool
  /-- The value of a decimal digit (category `Nd`). -/
  decimal : PyChar → Option (Fin 10)

/-- The database that knows ASCII only. -/
@[reducible] def UnicodeData.ascii : UnicodeData where
  alnum _ := false
  xidStart _ := false
  xidContinue _ := false
  decimal _ := none

/-- `'A' <= c <= 'Z' or 'a' <= c <= 'z'`. -/
def isAsciiLetter (c : PyChar) : Bool :=
  (65 ≤ c.val && c.val ≤ 90) || (97 ≤ c.val && c.val ≤ 122)

/-- `'0' <= c <= '9'`. -/
def isAsciiDigit (c : PyChar) : Bool := 48 ≤ c.val && c.val ≤ 57

/-- `c == '_'`. -/
def isUnderscore (c : PyChar) : Bool := c.val == 95

/-- `str.isspace` of a one-character string, which is also `\s` of a `str` pattern. -/
def isSpace (c : PyChar) : Bool :=
  let n := c.val
  (9 ≤ n && n ≤ 13) || (28 ≤ n && n ≤ 32) ||
    (128 ≤ n && (n == 0x85 || n == 0xa0 || n == 0x1680 || (0x2000 ≤ n && n ≤ 0x200a) ||
      n == 0x2028 || n == 0x2029 || n == 0x202f || n == 0x205f || n == 0x3000))

/-- The line boundaries of `str.splitlines`. -/
def isLineBreak (c : PyChar) : Bool :=
  let n := c.val
  (10 ≤ n && n ≤ 13) || (28 ≤ n && n ≤ 30) || (128 ≤ n && (n == 0x85 || n == 0x2028 || n == 0x2029))

section Unicode

variable [U : UnicodeData]

/-- `str.isalnum` of a one-character string. -/
def isAlnumChar (c : PyChar) : Bool :=
  if c.val < 128 then isAsciiLetter c || isAsciiDigit c else U.alnum c

/-- `\w` of a `str` pattern. -/
def isWord (c : PyChar) : Bool := isAlnumChar c || isUnderscore c

/-- `str.isalnum`. -/
def isalnum (s : PyStr) : Bool := !s.isEmpty && s.all isAlnumChar

/-- What may start an identifier. -/
def isIdentifierStart (c : PyChar) : Bool :=
  isUnderscore c || (if c.val < 128 then isAsciiLetter c else U.xidStart c)

/-- What may continue an identifier. -/
def isIdentifierContinue (c : PyChar) : Bool :=
  if c.val < 128 then isAsciiLetter c || isAsciiDigit c || isUnderscore c else U.xidContinue c

/-- `str.isidentifier`. -/
def isidentifier : PyStr → Bool
  | [] => false
  | c :: cs => isIdentifierStart c && cs.all isIdentifierContinue

end Unicode

/-- `str.lstrip()`. -/
def lstrip (s : PyStr) : PyStr := s.dropWhile isSpace

/-- `str.rstrip()`. -/
def rstrip (s : PyStr) : PyStr := (s.reverse.dropWhile isSpace).reverse

/-- `str.strip()`. -/
def strip (s : PyStr) : PyStr := rstrip (lstrip s)

/-- The loop of `str.splitlines()`: `line` holds the current line backwards, and `cr` tells that the
    previous character was a carriage return, which takes a following line feed with it. -/
def splitlinesLoop (cr : Bool) (line : PyStr) : PyStr → List PyStr
  | [] => if line.isEmpty then [] else [line.reverse]
  | c :: cs =>
    if cr && c.val == 10 then splitlinesLoop false [] cs
    else if isLineBreak c then line.reverse :: splitlinesLoop (c.val == 13) [] cs
    else splitlinesLoop false (c :: line) cs

/-- `str.splitlines()`. -/
def splitlines (s : PyStr) : List PyStr := splitlinesLoop false [] s

/-- The text whose lines are given, each ended by a line feed. -/
def unlines (lines : List PyStr) : PyStr := (lines.map (· ++ [10])).flatten

@[simp] lemma unlines_append (ls ls' : List PyStr) :
    unlines (ls ++ ls') = unlines ls ++ unlines ls' := by
  simp [unlines]

/-- `str.split(c)` for a one-character separator. -/
def split (sep : PyChar) : PyStr → List PyStr
  | [] => [[]]
  | c :: cs =>
    if c = sep then [] :: split sep cs
    else match split sep cs with
      | [] => [[c]]
      | part :: parts => (c :: part) :: parts

/-- `str.split(None, 1)`: the first white-space-delimited token and, if there is any, the rest. -/
def splitNone1 (s : PyStr) : List PyStr :=
  let s := lstrip s
  let rest := lstrip (s.dropWhile (!isSpace ·))
  if s.isEmpty then []
  else if rest.isEmpty then [s.takeWhile (!isSpace ·)]
  else [s.takeWhile (!isSpace ·), rest]

end MinCpuForth.Python
