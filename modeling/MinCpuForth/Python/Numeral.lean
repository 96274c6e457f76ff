import MinCpuForth.Lib.Decimal
import MinCpuForth.Python.Int

/-!
# Decimal integers read back

`int(str(n), 0)` is `n`, up to the number of digits that `int` reads.
-/

namespace MinCpuForth.Python
open Lib.Decimal

variable {s : PyStr}

/-- The digits of `str(n)`, as codes. -/
lemma strNat_codes (n : ℕ) : (strNat n).map ord = render n := by
  rw [strNat, List.map_map]
  rfl

lemma strNat_digits (n : ℕ) : ∀ c ∈ strNat n, isAsciiDigit c = true := by
  intro c mem
  have digit := render_digits n (ord c) (strNat_codes n ▸ List.mem_map_of_mem mem)
  simp only [Digit, ord] at digit
  simp only [isAsciiDigit, Bool.and_eq_true, decide_eq_true_eq]
  omega

lemma strNat_ne_nil (n : ℕ) : strNat n ≠ [] := by
  intro e
  have codes := strNat_codes n
  rw [e] at codes
  exact render_ne_nil n codes.symm

/-- A large number has many digits. -/
lemma lt_strNat_length {n k : ℕ} (h : 10 ^ k ≤ n) : k < (strNat n).length := by
  have bound := lt_pow_render n
  rw [← strNat_codes, List.length_map] at bound
  exact (Nat.pow_lt_pow_iff_right (by omega)).mp (Nat.lt_of_le_of_lt h bound)

/-- Only zero begins with a zero. -/
lemma strNat_zero {n : ℕ} (h : ∃ cs, strNat n = 48 :: cs) : n = 0 := by
  obtain ⟨cs, e⟩ := h
  by_contra nonzero
  have codes := strNat_codes n
  rw [e, List.map_cons] at codes
  exact render_head nonzero 48 (codes ▸ rfl) rfl

/-- Scanning digits. -/
lemma scanDigits_digits (digits : ∀ c ∈ s, isAsciiDigit c = true) (v k : ℕ) :
    ∃ v' : ℕ, scanDigits 10 false v k s = some (v', k + s.length) ∧
      (v' : ℤ) = value v (s.map ord) := by
  induction s generalizing v k with
  | nil => exact ⟨v, rfl, rfl⟩
  | cons c cs ih =>
    obtain ⟨hc, hcs⟩ := List.forall_mem_cons.mp digits
    have range : 48 ≤ c.val ∧ c.val ≤ 57 := by
      simpa [isAsciiDigit] using hc
    have under : isUnderscore c = false := by
      simp only [isUnderscore, beq_eq_false_iff_ne]
      omega
    have digit : digitValue c = some (c.val - 48) := if_pos hc
    obtain ⟨v', scan, codes⟩ := ih hcs (v * 10 + (c.val - 48)) (k + 1)
    refine ⟨v', ?_, ?_⟩
    · rw [scanDigits, under, digit]
      dsimp only
      rw [if_neg Bool.false_ne_true, if_pos (by omega), scan, List.length_cons]
      congr 2
      omega
    · rw [codes, List.map_cons, value_cons]
      congr 1
      simp only [ord]
      omega

/-- A decimal literal is as long as `int` allows, or no literal. -/
lemma decimalLiteral_strNat (n : ℕ) :
    decimalLiteral (strNat n) = if maxStrDigits < (strNat n).length then none else some n := by
  have digits := strNat_digits n
  obtain ⟨v, scan, codes⟩ := scanDigits_digits digits 0 0
  have same : v = n := by
    rw [strNat_codes] at codes
    exact Int.ofNat_inj.mp (codes.trans (value_render n))
  rw [same, Nat.zero_add] at scan
  cases e : strNat n with
  | nil => exact absurd e (strNat_ne_nil n)
  | cons c cs =>
    have under : isUnderscore c = false := by
      have digit := digits c (e ▸ List.mem_cons_self)
      simp only [isAsciiDigit, Bool.and_eq_true, decide_eq_true_eq] at digit
      simp only [isUnderscore, beq_eq_false_iff_ne]
      omega
    rw [e] at scan
    rw [decimalLiteral, under, scan]
    rfl

lemma unsignedLiteral_strNat (n : ℕ) :
    unsignedLiteral (strNat n) = if maxStrDigits < (strNat n).length then none else some n := by
  have literal := decimalLiteral_strNat n
  have digits := strNat_digits n
  have zero := @strNat_zero n
  generalize strNat n = s at literal digits zero
  rcases s with _ | ⟨c, _ | ⟨d, cs⟩⟩
  · exact literal
  · exact literal
  · rw [unsignedLiteral]
    split
    · rename_i lead
      have first : c = 48 := Fin.ext (beq_iff_eq.mp lead)
      have n_zero : n = 0 := zero ⟨d :: cs, by rw [first]⟩
      have digit := digits d (List.mem_cons_of_mem _ List.mem_cons_self)
      simp only [isAsciiDigit, Bool.and_eq_true, decide_eq_true_eq] at digit
      have base : prefixBase d = none := by
        simp only [prefixBase, Bool.or_eq_true, beq_iff_eq]
        rw [if_neg (by omega), if_neg (by omega), if_neg (by omega)]
      rw [base, literal, n_zero]
      by_cases long : maxStrDigits < (c :: d :: cs).length
      · rw [if_pos long]
      · rw [if_neg long]
        rfl
    · exact literal

/-- What `int` first makes of a text without white space in ASCII: the text itself. -/
lemma int0_trims [UnicodeData] (plain : ∀ c ∈ s, c.val < 128 ∧ isCSpace c = false) :
    (((toAsciiDecimal s).dropWhile isCSpace).reverse.dropWhile isCSpace).reverse = s := by
  have ascii : toAsciiDecimal s = s :=
    if_pos (List.all_eq_true.mpr fun c mem => decide_eq_true (plain c mem).1)
  have solid : ∀ t : PyStr, (∀ c ∈ t, isCSpace c = false) → t.dropWhile isCSpace = t := by
    intro t none
    cases t with
    | nil => rfl
    | cons c cs => exact List.dropWhile_cons_of_neg (by simp [none c List.mem_cons_self])
  rw [ascii, solid s fun c mem => (plain c mem).2,
    solid s.reverse fun c mem => (plain c (List.mem_reverse.mp mem)).2, List.reverse_reverse]

lemma digit_plain {c : PyChar} (h : isAsciiDigit c = true) :
    c.val < 128 ∧ isCSpace c = false ∧ (c.val == 43) = false ∧ (c.val == 45) = false := by
  simp only [isAsciiDigit, Bool.and_eq_true, decide_eq_true_eq] at h
  refine ⟨by omega, ?_, beq_eq_false_iff_ne.mpr (by omega), beq_eq_false_iff_ne.mpr (by omega)⟩
  simp only [isCSpace, Bool.or_eq_false_iff, Bool.and_eq_false_iff, decide_eq_false_iff_not,
    beq_eq_false_iff_ne]
  omega

/-- Digits are read as an unsigned literal. -/
lemma int0_digits [UnicodeData] (full : s ≠ []) (digits : ∀ c ∈ s, isAsciiDigit c = true) :
    int0 s = (unsignedLiteral s).map Int.ofNat := by
  have trims := int0_trims fun c mem =>
    ⟨(digit_plain (digits c mem)).1, (digit_plain (digits c mem)).2.1⟩
  cases s with
  | nil => exact absurd rfl full
  | cons c cs =>
    have sign := (digit_plain (digits c List.mem_cons_self)).2.2
    simp only [int0, trims, sign.1, sign.2]
    rfl

/-- Digits after a minus sign are read as the negated literal. -/
lemma int0_minus [UnicodeData] (digits : ∀ c ∈ s, isAsciiDigit c = true) :
    int0 (45 :: s) = (unsignedLiteral s).map fun n => -Int.ofNat n := by
  have plain : ∀ c ∈ (45 : PyChar) :: s, c.val < 128 ∧ isCSpace c = false :=
    List.forall_mem_cons.mpr ⟨by decide, fun c mem =>
      ⟨(digit_plain (digits c mem)).1, (digit_plain (digits c mem)).2.1⟩⟩
  have trims := int0_trims plain
  have plus : ((45 : PyChar).val == 43) = false := by decide
  have minus : ((45 : PyChar).val == 45) = true := by decide
  simp only [int0, trims, plus, minus]
  rfl

/-- A decimal rendering reads back unless it has too many digits. -/
lemma int0_strInt [UnicodeData] (n : ℤ) :
    int0 (strInt n) = if maxStrDigits < (strNat n.natAbs).length then none else some n := by
  cases n with
  | ofNat k =>
    rw [strInt, int0_digits (strNat_ne_nil k) (strNat_digits k), unsignedLiteral_strNat,
      apply_ite (Option.map Int.ofNat)]
    rfl
  | negSucc k =>
    have shape : strInt (.negSucc k) = 45 :: strNat (k + 1) := rfl
    rw [shape, int0_minus (strNat_digits _), unsignedLiteral_strNat,
      apply_ite (Option.map fun n => -Int.ofNat n)]
    rfl

lemma strInt_ne_nil (n : ℤ) : strInt n ≠ [] := by
  cases n with
  | ofNat k => exact strNat_ne_nil k
  | negSucc k => exact List.cons_ne_nil _ _

/-- The characters of a decimal rendering. -/
lemma strInt_chars (n : ℤ) : ∀ c ∈ strInt n, isAsciiDigit c = true ∨ c = 45 := by
  intro c mem
  cases n with
  | ofNat k => exact .inl (strNat_digits k c mem)
  | negSucc k =>
    rcases List.mem_cons.mp mem with minus | mem
    · exact .inr minus
    · exact .inl (strNat_digits (k + 1) c mem)

end MinCpuForth.Python
