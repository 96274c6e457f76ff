import MinCpuForth.Python.Numeral
import Mathlib.Data.List.DropRight

/-!
# Integer literals

The texts that Python's integer literals are, as a grammar, and that `int` in base 0 reads exactly
these, but for decimal literals with too many digits.
-/

namespace MinCpuForth.Python

/-- `c` is the digit `d` of the base. -/
def IsDigit (base d : ℕ) (c : PyChar) : Prop := digitValue c = some d ∧ d < base

/-- Digits of a base, single underscores between them, and how many digits they are. -/
inductive Digits (base : ℕ) : PyStr → ℕ → Prop where
  | last {d c} : IsDigit base d c → Digits base [c] 1
  | digit {d c s n} : IsDigit base d c → Digits base s n → Digits base (c :: s) (n + 1)
  | grouped {d c s n} : IsDigit base d c → Digits base s n → Digits base (c :: 95 :: s) (n + 1)

/-- A decimal literal of `n` digits; where the first digit is a zero, all of them are. -/
def Decimal (s : PyStr) (n : ℕ) : Prop :=
  Digits 10 s n ∧ (s.head? = some 48 → ∀ c ∈ s, c = 48 ∨ c = 95)

/-- A literal without a sign. -/
inductive Unsigned : PyStr → Prop where
  | decimal {s n} : Decimal s n → Unsigned s
  | based {p base s n} : prefixBase p = some base → Digits base s n → Unsigned (48 :: p :: s)
  | spaced {p base s n} : prefixBase p = some base → Digits base s n →
    Unsigned (48 :: p :: 95 :: s)

/-- A literal with more digits than `int` reads. -/
def TooLong (s : PyStr) : Prop := ∃ n, Decimal s n ∧ maxStrDigits < n

/-- There may be a sign in front. -/
inductive Signed (literal : PyStr → Prop) : PyStr → Prop where
  | plain {s} : literal s → Signed literal s
  | plus {s} : literal s → Signed literal (43 :: s)
  | minus {s} : literal s → Signed literal (45 :: s)

/-- There may be white space around it, and its digits may be those of any script. -/
def Spelled [UnicodeData] (literal : PyStr → Prop) (token : PyStr) : Prop :=
  ∃ l s r, toAsciiDecimal token = l ++ (s ++ r) ∧ (∀ c ∈ l, isCSpace c = true) ∧
    (∀ c ∈ r, isCSpace c = true) ∧ literal s

/-- An integer literal. -/
def IntegerLiteral [UnicodeData] (token : PyStr) : Prop := Spelled (Signed Unsigned) token

/-- A decimal literal with more than `maxStrDigits` digits. -/
def LongLiteral [UnicodeData] (token : PyStr) : Prop := Spelled (Signed TooLong) token

/-! ## Digits -/

variable {base k k' v v' n n' : ℕ} {under : Bool} {c : PyChar} {s : PyStr}

/-- An underscore is no digit. -/
lemma IsDigit.not_under {d : ℕ} (h : IsDigit base d c) : isUnderscore c = false := by
  refine beq_eq_false_iff_ne.mpr fun e => ?_
  obtain rfl : c = 95 := Fin.ext e
  have none : digitValue 95 = none := by decide
  cases none.symm.trans h.1

/-- Only one character is the digit 0. -/
lemma digitValue_zero : digitValue c = some 0 ↔ c = 48 := by
  constructor
  · intro h
    unfold digitValue at h
    split at h
    · rename_i digit
      simp only [isAsciiDigit, Bool.and_eq_true, decide_eq_true_eq] at digit
      have e := Option.some.inj h
      exact Fin.ext (by omega)
    · split at h
      · rename_i upper
        simp only [Bool.and_eq_true, decide_eq_true_eq] at upper
        have e := Option.some.inj h
        omega
      · split at h
        · rename_i lower
          simp only [Bool.and_eq_true, decide_eq_true_eq] at lower
          have e := Option.some.inj h
          omega
        · cases h
  · rintro rfl
    decide

/-- Scanning a digit. -/
lemma scanDigits_digit {d : ℕ} (h : IsDigit base d c) :
    scanDigits base under v k (c :: s) = scanDigits base false (v * base + d) (k + 1) s := by
  rw [scanDigits, h.not_under, h.1]
  dsimp only
  rw [if_neg Bool.false_ne_true, if_pos h.2]

/-- Scanning an underscore. -/
lemma scanDigits_under : scanDigits base false v k (95 :: s) = scanDigits base true v k s := rfl

/-- What scanning did first. -/
lemma scanDigits_cons (h : scanDigits base under v k (c :: s) = some (v', k')) :
    (under = false ∧ c = 95 ∧ scanDigits base true v k s = some (v', k')) ∨
      ∃ d, IsDigit base d c ∧
        scanDigits base false (v * base + d) (k + 1) s = some (v', k') := by
  rw [scanDigits] at h
  split at h
  · rename_i is
    have same : c = 95 := Fin.ext (beq_iff_eq.mp is)
    cases under with
    | false => exact .inl ⟨rfl, same, h⟩
    | true => cases h
  · split at h
    · cases h
    · rename_i d value
      split at h
      · rename_i lt
        exact .inr ⟨d, ⟨value, lt⟩, h⟩
      · cases h

/-- Digits are scanned to their end. -/
lemma Digits.scan (h : Digits base s n) (under : Bool) (v k : ℕ) :
    ∃ v', scanDigits base under v k s = some (v', k + n) := by
  induction h generalizing under v k with
  | last digit => exact ⟨_, scanDigits_digit digit⟩
  | @digit d c s n digit _ ih =>
    rw [scanDigits_digit digit, Nat.add_comm n, ← Nat.add_assoc]
    exact ih false _ _
  | @grouped d c s n digit _ ih =>
    rw [scanDigits_digit digit, scanDigits_under, Nat.add_comm n, ← Nat.add_assoc]
    exact ih true _ _

/-- What is scanned to its end are digits, after an underscore if that is allowed there; or there
    is nothing to scan. -/
lemma scanDigits_some (h : scanDigits base under v k s = some (v', k')) :
    (∃ n, Digits base s n ∧ k' = k + n) ∨ (under = false ∧ s = [] ∧ k' = k) ∨
      under = false ∧ ∃ t n, s = 95 :: t ∧ Digits base t n ∧ k' = k + n := by
  induction s generalizing under v k with
  | nil =>
    cases under with
    | false =>
      cases h
      exact .inr (.inl ⟨rfl, rfl, rfl⟩)
    | true => cases h
  | cons c s ih =>
    rcases scanDigits_cons h with ⟨rfl, rfl, h⟩ | ⟨d, digit, h⟩
    · rcases ih h with ⟨n, digits, e⟩ | ⟨absurd, -⟩ | ⟨absurd, -⟩
      · exact .inr (.inr ⟨rfl, s, n, rfl, digits, e⟩)
      · cases absurd
      · cases absurd
    · left
      rcases ih h with ⟨n, digits, e⟩ | ⟨-, rfl, e⟩ | ⟨-, t, n, rfl, digits, e⟩
      · exact ⟨n + 1, .digit digit digits, by omega⟩
      · exact ⟨1, .last digit, e⟩
      · exact ⟨n + 1, .grouped digit digits, by omega⟩

/-- Digits begin with a digit. -/
lemma Digits.head (h : Digits base s n) : ∃ c t d, s = c :: t ∧ IsDigit base d c := by
  cases h with
  | last digit => exact ⟨_, _, _, rfl, digit⟩
  | digit digit _ => exact ⟨_, _, _, rfl, digit⟩
  | grouped digit _ => exact ⟨_, _, _, rfl, digit⟩

/-- The number of digits is determined. -/
lemma Digits.unique (h : Digits base s n) (h' : Digits base s n') : n = n' := by
  obtain ⟨v, scan⟩ := h.scan false 0 0
  obtain ⟨v', scan'⟩ := h'.scan false 0 0
  rw [scan] at scan'
  have counts := (Prod.mk.inj (Option.some.inj scan')).2
  omega

/-- What is scanned is zero just when all its digits are. -/
lemma scanDigits_zero (pos : 0 < base) (h : scanDigits base under v k s = some (v', k')) :
    v' = 0 ↔ v = 0 ∧ ∀ c ∈ s, c = 48 ∨ c = 95 := by
  induction s generalizing under v k with
  | nil =>
    cases under with
    | false =>
      cases h
      simp
    | true => cases h
  | cons c s ih =>
    rcases scanDigits_cons h with ⟨rfl, rfl, h⟩ | ⟨d, digit, h⟩
    · rw [ih h]
      simp
    · have not_under : c ≠ 95 := by
        rintro rfl
        cases digit.not_under
      have zero : d = 0 ↔ c = 48 := by
        rw [← digitValue_zero, digit.1, Option.some.injEq]
      rw [ih h, Nat.add_eq_zero_iff, Nat.mul_eq_zero, zero, List.forall_mem_cons]
      simp only [not_under, or_false, Nat.ne_of_gt pos, and_assoc]

/-! ## Literals without a sign -/

/-- What a decimal literal is read as. -/
lemma decimalLiteral_iff : decimalLiteral s = some v ↔
    ∃ n, Digits 10 s n ∧ n ≤ maxStrDigits ∧ scanDigits 10 false 0 0 s = some (v, n) := by
  constructor
  · intro h
    cases s with
    | nil => cases h
    | cons c s =>
      rw [decimalLiteral] at h
      split at h
      · cases h
      · rename_i first
        split at h
        · cases h
        · rename_i value count scan
          split at h
          · cases h
          · rename_i short
            cases h
            rcases scanDigits_some scan with ⟨n, digits, rfl⟩ | ⟨-, e, -⟩ | ⟨-, t, n, e, -⟩
            · exact ⟨n, digits, by omega, by rw [scan, Nat.zero_add]⟩
            · cases e
            · cases e
              exact absurd rfl first
  · rintro ⟨n, digits, le, scan⟩
    obtain ⟨c, t, d, rfl, digit⟩ := digits.head
    rw [decimalLiteral, digit.not_under, scan]
    dsimp only
    rw [if_neg Bool.false_ne_true, if_neg (by omega)]

/-- Whether a decimal literal is read. -/
lemma decimalLiteral_isSome :
    (decimalLiteral s).isSome = true ↔ ∃ n, Digits 10 s n ∧ n ≤ maxStrDigits := by
  rw [Option.isSome_iff_exists]
  constructor
  · rintro ⟨v, h⟩
    obtain ⟨n, digits, le, -⟩ := decimalLiteral_iff.mp h
    exact ⟨n, digits, le⟩
  · rintro ⟨n, digits, le⟩
    obtain ⟨v, scan⟩ := digits.scan false 0 0
    rw [Nat.zero_add] at scan
    exact ⟨v, decimalLiteral_iff.mpr ⟨n, digits, le, scan⟩⟩

/-- Whether a decimal literal is read as zero. -/
lemma decimalLiteral_zero : decimalLiteral s = some 0 ↔
    ∃ n, Digits 10 s n ∧ n ≤ maxStrDigits ∧ ∀ c ∈ s, c = 48 ∨ c = 95 := by
  constructor
  · intro h
    obtain ⟨n, digits, le, scan⟩ := decimalLiteral_iff.mp h
    exact ⟨n, digits, le, ((scanDigits_zero (by decide) scan).mp rfl).2⟩
  · rintro ⟨n, digits, le, zeros⟩
    obtain ⟨v, scan⟩ := digits.scan false 0 0
    rw [Nat.zero_add] at scan
    obtain rfl := (scanDigits_zero (by decide) scan).mpr ⟨rfl, zeros⟩
    exact decimalLiteral_iff.mpr ⟨n, digits, le, scan⟩

/-- Whether digits are read, where the first character is no underscore. -/
lemma scanDigits_isSome (first : isUnderscore c = false) :
    ((scanDigits base false 0 0 (c :: s)).map Prod.fst).isSome = true ↔
      ∃ n, Digits base (c :: s) n := by
  rw [Option.isSome_map, Option.isSome_iff_exists]
  constructor
  · rintro ⟨⟨v, k⟩, scan⟩
    rcases scanDigits_some scan with ⟨n, digits, -⟩ | ⟨-, e, -⟩ | ⟨-, t, n, e, -⟩
    · exact ⟨n, digits⟩
    · cases e
    · cases e
      cases first
  · rintro ⟨n, digits⟩
    obtain ⟨v, scan⟩ := digits.scan false 0 0
    exact ⟨_, scan⟩

/-- Whether the digits after a prefix are read. -/
lemma prefixedLiteral_isSome : (prefixedLiteral base s).isSome = true ↔
    (∃ n, Digits base s n) ∨ ∃ t n, s = 95 :: t ∧ Digits base t n := by
  constructor
  · intro h
    rcases s with _ | ⟨c, s⟩
    · cases h
    · cases first : isUnderscore c with
      | false =>
        simp only [prefixedLiteral, first, if_neg Bool.false_ne_true] at h
        exact .inl ((scanDigits_isSome first).mp h)
      | true =>
        obtain rfl : c = 95 := Fin.ext (beq_iff_eq.mp first)
        rcases s with _ | ⟨c, s⟩
        · cases h
        · simp only [prefixedLiteral, first, if_true] at h
          cases second : isUnderscore c with
          | false =>
            rw [second, if_neg Bool.false_ne_true] at h
            obtain ⟨n, digits⟩ := (scanDigits_isSome second).mp h
            exact .inr ⟨_, n, rfl, digits⟩
          | true =>
            rw [second, if_pos rfl] at h
            cases h
  · rintro (⟨n, digits⟩ | ⟨t, n, rfl, digits⟩)
    · obtain ⟨c, t, d, rfl, digit⟩ := digits.head
      simp only [prefixedLiteral, digit.not_under, if_neg Bool.false_ne_true]
      exact (scanDigits_isSome digit.not_under).mpr ⟨n, digits⟩
    · obtain ⟨c, t, d, rfl, digit⟩ := digits.head
      have under : isUnderscore 95 = true := rfl
      simp only [prefixedLiteral, under, if_true, digit.not_under, if_neg Bool.false_ne_true]
      exact (scanDigits_isSome digit.not_under).mpr ⟨n, digits⟩

/-- A letter that announces a base is no decimal digit. -/
lemma prefixBase_digit {d : ℕ} (h : prefixBase c = some base) : ¬IsDigit 10 d c := by
  rintro ⟨value, lt⟩
  simp only [prefixBase, Bool.or_eq_true, beq_iff_eq] at h
  simp only [digitValue, isAsciiDigit, Bool.and_eq_true, decide_eq_true_eq] at value
  grind

/-- Nor is there a decimal literal that announces a base. -/
lemma not_decimal (h : prefixBase c = some base) : ¬Digits 10 (48 :: c :: s) n := by
  intro digits
  cases digits with
  | digit _ rest =>
    obtain ⟨c, t, d, e, digit⟩ := rest.head
    cases e
    exact prefixBase_digit h digit
  | grouped _ _ => cases h

/-- With a zero in front, decimal literals are those that are read as zero. -/
lemma zeros_iff : (∃ n, Decimal (48 :: s) n ∧ n ≤ maxStrDigits) ↔
    decimalLiteral (48 :: s) = some 0 := by
  rw [decimalLiteral_zero]
  constructor
  · rintro ⟨n, ⟨digits, zeros⟩, le⟩
    exact ⟨n, digits, le, zeros rfl⟩
  · rintro ⟨n, digits, le, zeros⟩
    exact ⟨n, ⟨digits, fun _ => zeros⟩, le⟩

/-- Where no base is announced, literals are decimal. -/
lemma unsigned_decimal (plain : ∀ p t, s = 48 :: p :: t → prefixBase p = none) :
    Unsigned s ↔ ∃ n, Decimal s n := by
  constructor
  · rintro (@⟨_, n, decimal⟩ | @⟨p, base, t, n, announced, -⟩ | @⟨p, base, t, n, announced, -⟩)
    · exact ⟨n, decimal⟩
    · cases announced.symm.trans (plain _ _ rfl)
    · cases announced.symm.trans (plain _ _ rfl)
  · rintro ⟨n, decimal⟩
    exact .decimal decimal

/-- The literals that are not too long. -/
lemma decimal_short : (∃ n, Decimal s n ∧ n ≤ maxStrDigits) ↔ (∃ n, Decimal s n) ∧ ¬TooLong s := by
  constructor
  · rintro ⟨n, decimal, le⟩
    refine ⟨⟨n, decimal⟩, ?_⟩
    rintro ⟨n', decimal', lt⟩
    rw [decimal.1.unique decimal'.1] at le
    omega
  · rintro ⟨⟨n, decimal⟩, short⟩
    refine ⟨n, decimal, ?_⟩
    by_contra lt
    exact short ⟨n, decimal, Nat.not_le.mp lt⟩

/-- Which literals without a sign are read. -/
lemma unsignedLiteral_isSome : (unsignedLiteral s).isSome = true ↔ Unsigned s ∧ ¬TooLong s := by
  rcases s with _ | ⟨c, _ | ⟨p, s⟩⟩
  · rw [unsigned_decimal (fun _ _ e => by cases e), ← decimal_short]
    constructor
    · intro h
      cases h
    · rintro ⟨n, ⟨digits, -⟩, -⟩
      cases digits
  · -- A single digit may be a zero.
    rw [unsigned_decimal (fun _ _ e => by cases e), ← decimal_short, unsignedLiteral,
      decimalLiteral_isSome]
    refine exists_congr fun n => and_congr_left fun _ => ⟨fun digits => ⟨digits, ?_⟩, And.left⟩
    intro zero c' mem
    cases zero
    exact .inl (List.mem_singleton.mp mem)
  · rw [unsignedLiteral]
    cases zero : c.val == 48 with
    | false =>
      have other : c ≠ 48 := by
        rintro rfl
        cases zero
      rw [unsigned_decimal (fun p t e => absurd (List.cons.inj e).1 other), ← decimal_short,
        if_neg Bool.false_ne_true, decimalLiteral_isSome]
      refine exists_congr fun n => and_congr_left fun _ => ⟨fun digits => ⟨digits, ?_⟩, And.left⟩
      intro lead
      exact absurd (Option.some.inj lead) other
    | true =>
      obtain rfl : c = 48 := Fin.ext (beq_iff_eq.mp zero)
      rw [if_pos rfl]
      cases announced : prefixBase p with
      | none =>
        have plain : ∀ p' t, 48 :: p :: s = 48 :: p' :: t → prefixBase p' = none := by
          intro p' t e
          cases e
          exact announced
        rw [unsigned_decimal plain, ← decimal_short, zeros_iff]
        dsimp only
        split
        · rename_i read
          exact iff_of_true rfl read
        · rename_i other
          exact iff_of_false Bool.false_ne_true other
      | some base =>
        have decimal : ∀ n, ¬Decimal (48 :: p :: s) n := fun n h => not_decimal announced h.1
        have short : ¬TooLong (48 :: p :: s) := by
          rintro ⟨n, h, -⟩
          exact decimal n h
        dsimp only
        rw [prefixedLiteral_isSome, and_iff_left short]
        constructor
        · rintro (⟨n, digits⟩ | ⟨t, n, rfl, digits⟩)
          · exact .based announced digits
          · exact .spaced announced digits
        · rintro (@⟨_, n, h⟩ | @⟨_, base', _, n, known, digits⟩ | @⟨_, base', t, n, known, digits⟩)
          · exact absurd h (decimal n)
          · cases announced.symm.trans known
            exact .inl ⟨n, digits⟩
          · cases announced.symm.trans known
            exact .inr ⟨t, n, rfl, digits⟩

/-! ## Signs and white space -/

/-- A digit is no white space. -/
lemma IsDigit.solid {d : ℕ} (h : IsDigit base d c) : isCSpace c = false := by
  by_contra space
  simp only [isCSpace, Bool.not_eq_false, Bool.or_eq_true, Bool.and_eq_true, decide_eq_true_eq,
    beq_iff_eq] at space
  have none : digitValue c = none := by
    simp only [digitValue, isAsciiDigit, Bool.and_eq_true, decide_eq_true_eq]
    rw [if_neg (by omega), if_neg (by omega), if_neg (by omega)]
  cases none.symm.trans h.1

/-- The decimal digits. -/
lemma IsDigit.decimal {d : ℕ} (h : IsDigit 10 d c) : isAsciiDigit c = true := by
  obtain ⟨value, lt⟩ := h
  simp only [digitValue] at value
  split at value
  · assumption
  · simp only [Bool.and_eq_true, decide_eq_true_eq] at value
    grind

/-- A letter that announces a base is no white space. -/
lemma prefixBase_solid (h : prefixBase c = some base) : isCSpace c = false := by
  by_contra space
  simp only [isCSpace, Bool.not_eq_false, Bool.or_eq_true, Bool.and_eq_true, decide_eq_true_eq,
    beq_iff_eq] at space
  have none : prefixBase c = none := by
    simp only [prefixBase, Bool.or_eq_true, beq_iff_eq]
    rw [if_neg (by omega), if_neg (by omega), if_neg (by omega)]
  cases none.symm.trans h

lemma solid_cons (h : isCSpace c = false) (hs : ∀ c ∈ s, isCSpace c = false) :
    ∀ d ∈ c :: s, isCSpace d = false :=
  List.forall_mem_cons.mpr ⟨h, hs⟩

/-- There is no white space between digits. -/
lemma Digits.solid (h : Digits base s n) : ∀ c ∈ s, isCSpace c = false := by
  induction h with
  | last digit => exact List.forall_mem_singleton.mpr digit.solid
  | digit digit _ ih => exact solid_cons digit.solid ih
  | grouped digit _ ih => exact solid_cons digit.solid (solid_cons rfl ih)

/-- A literal without a sign begins with a digit, and there is no white space in it. -/
lemma Unsigned.shape (h : Unsigned s) :
    (∃ c t, s = c :: t ∧ isAsciiDigit c = true) ∧ ∀ c ∈ s, isCSpace c = false := by
  cases h with
  | decimal decimal =>
    obtain ⟨c, t, d, rfl, digit⟩ := decimal.1.head
    exact ⟨⟨c, t, rfl, digit.decimal⟩, decimal.1.solid⟩
  | based announced digits =>
    exact ⟨⟨48, _, rfl, rfl⟩, solid_cons rfl (solid_cons (prefixBase_solid announced) digits.solid)⟩
  | spaced announced digits =>
    have rest := solid_cons (prefixBase_solid announced) (solid_cons (c := 95) rfl digits.solid)
    exact ⟨⟨48, _, rfl, rfl⟩, solid_cons rfl rest⟩

/-- A literal that is too long is one without a sign. -/
lemma TooLong.unsigned (h : TooLong s) : Unsigned s := by
  obtain ⟨n, decimal, -⟩ := h
  exact .decimal decimal

lemma Signed.imp {P Q : PyStr → Prop} (h : Signed P s) (imp : ∀ t, P t → Q t) : Signed Q s := by
  cases h with
  | plain h => exact .plain (imp _ h)
  | plus h => exact .plus (imp _ h)
  | minus h => exact .minus (imp _ h)

/-- There is no white space in a literal with a sign. -/
lemma Signed.solid (h : Signed Unsigned s) : s ≠ [] ∧ ∀ c ∈ s, isCSpace c = false := by
  cases h with
  | plain h =>
    obtain ⟨⟨c, t, rfl, -⟩, solid⟩ := h.shape
    exact ⟨List.cons_ne_nil _ _, solid⟩
  | plus h => exact ⟨List.cons_ne_nil _ _, solid_cons rfl h.shape.2⟩
  | minus h => exact ⟨List.cons_ne_nil _ _, solid_cons rfl h.shape.2⟩

/-- Which literal there is after a sign, or without one. -/
lemma signed_cons {literal : PyStr → Prop} (unsigned : ∀ s, literal s → Unsigned s) :
    Signed literal (c :: s) ↔ literal (if c = 43 ∨ c = 45 then s else c :: s) := by
  constructor
  · intro h
    cases h with
    | plain h =>
      obtain ⟨⟨c, t, e, digit⟩, -⟩ := (unsigned _ h).shape
      cases e
      have other : ¬(c = 43 ∨ c = 45) := by
        rintro (rfl | rfl) <;> cases digit
      rwa [if_neg other]
    | plus h => exact h
    | minus h => exact h
  · intro h
    split at h
    · rename_i sign
      rcases sign with rfl | rfl
      · exact .plus h
      · exact .minus h
    · exact .plain h

section Texts

variable [UnicodeData] {token : PyStr}

/-- The text of a literal, without the white space around it. -/
def literalText (token : PyStr) : PyStr :=
  ((toAsciiDecimal token).dropWhile isCSpace).rdropWhile isCSpace

/-- The white space around a literal is what goes. -/
lemma spelled_iff {literal : PyStr → Prop}
    (solid : ∀ s, literal s → s ≠ [] ∧ ∀ c ∈ s, isCSpace c = false) :
    Spelled literal token ↔ literal (literalText token) := by
  constructor
  · rintro ⟨l, s, r, e, hl, hr, h⟩
    obtain ⟨full, plain⟩ := solid s h
    have text : literalText token = s := by
      obtain ⟨c, t, rfl⟩ := List.exists_cons_of_ne_nil full
      have first : ¬isCSpace c = true := by simp [plain c List.mem_cons_self]
      have last : ∀ hl : c :: t ≠ [], ¬isCSpace ((c :: t).getLast hl) = true := by
        intro hl
        simp [plain _ (List.getLast_mem hl)]
      rw [literalText, e, List.dropWhile_append_of_pos hl, List.cons_append,
        List.dropWhile_cons_of_neg first, ← List.cons_append, List.rdropWhile, List.reverse_append,
        List.dropWhile_append_of_pos fun c mem => hr c (List.mem_reverse.mp mem)]
      exact List.rdropWhile_eq_self_iff.mpr last
    rwa [text]
  · intro h
    refine ⟨(toAsciiDecimal token).takeWhile isCSpace, literalText token,
      ((toAsciiDecimal token).dropWhile isCSpace).rtakeWhile isCSpace, ?_, ?_, ?_, h⟩
    · rw [literalText, List.rdropWhile_append_rtakeWhile, List.takeWhile_append_dropWhile]
    · intro c mem
      exact List.mem_takeWhile_imp mem
    · intro c mem
      exact List.mem_rtakeWhile_imp mem

/-- A literal that is too long is an integer literal. -/
lemma LongLiteral.integer (h : LongLiteral token) : IntegerLiteral token := by
  obtain ⟨l, s, r, e, hl, hr, h⟩ := h
  exact ⟨l, s, r, e, hl, hr, h.imp fun t long => long.unsigned⟩

/-- A literal is not empty. -/
lemma IntegerLiteral.ne_nil (h : IntegerLiteral token) : token ≠ [] := by
  rintro rfl
  obtain ⟨l, s, r, e, -, -, h⟩ := h
  have ascii : toAsciiDecimal [] = [] := rfl
  rw [ascii, List.nil_eq, List.append_eq_nil_iff, List.append_eq_nil_iff] at e
  exact h.solid.1 e.2.1

/-- A text that begins with neither white space nor a sign nor a digit is no literal. -/
lemma not_literal (ascii : ∃ t, toAsciiDecimal token = c :: t) (space : isCSpace c = false)
    (sign : ¬(c = 43 ∨ c = 45)) (digit : isAsciiDigit c = false) : ¬IntegerLiteral token := by
  rintro ⟨l, s, r, e, hl, -, h⟩
  obtain ⟨t, ascii⟩ := ascii
  rw [ascii] at e
  cases l with
  | cons c' l =>
    cases e
    rw [hl c List.mem_cons_self] at space
    cases space
  | nil =>
    obtain ⟨c', s, rfl⟩ := List.exists_cons_of_ne_nil h.solid.1
    cases e
    rw [signed_cons fun s h => h, if_neg sign] at h
    obtain ⟨⟨c', s, e, digit'⟩, -⟩ := h.shape
    cases e
    cases digit.symm.trans digit'

/-- `int` reads exactly the integer literals that are not too long. -/
lemma int0_isSome : (int0 token).isSome = true ↔ IntegerLiteral token ∧ ¬LongLiteral token := by
  rw [IntegerLiteral, LongLiteral, spelled_iff fun s h => h.solid,
    spelled_iff fun s h => (h.imp fun t long => long.unsigned).solid]
  cases e : literalText token with
  | nil =>
    have text : (((toAsciiDecimal token).dropWhile isCSpace).reverse.dropWhile isCSpace).reverse =
      [] := e
    have none : ¬Signed Unsigned [] := fun h => h.solid.1 rfl
    simp only [int0, text]
    exact iff_of_false Bool.false_ne_true fun h => none h.1
  | cons c s =>
    have text : (((toAsciiDecimal token).dropWhile isCSpace).reverse.dropWhile isCSpace).reverse =
      c :: s := e
    rw [signed_cons fun s h => h, signed_cons fun s long => long.unsigned,
      ← unsignedLiteral_isSome]
    have plus : (c.val == 43) = true ↔ c = 43 := by rw [beq_iff_eq, Fin.ext_iff]; rfl
    have minus : (c.val == 45) = true ↔ c = 45 := by rw [beq_iff_eq, Fin.ext_iff]; rfl
    simp only [int0, text, plus, minus]
    split
    · rename_i sign
      rw [if_pos (.inl sign), Option.isSome_map]
    · rename_i no_plus
      split
      · rename_i sign
        rw [if_pos (.inr sign), Option.isSome_map]
      · rename_i no_minus
        rw [if_neg (not_or.mpr ⟨no_plus, no_minus⟩), Option.isSome_map]

/-- What is no literal is not read. -/
lemma int0_eq_none (h : ¬IntegerLiteral token) : int0 token = none := by
  rw [← Option.not_isSome_iff_eq_none, int0_isSome]
  exact fun read => h read.1

end Texts

end MinCpuForth.Python
