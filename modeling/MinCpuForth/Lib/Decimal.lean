import Mathlib.Algebra.Group.Nat.Defs
import Mathlib.Data.Int.Notation
import Mathlib.Data.List.Basic
import Mathlib.Tactic.Lemma

/-!
# Signed decimal numerals

A numeral is a list of character codes: digits, perhaps after a minus sign. A decimal rendering
reads back as the number that it renders.
-/

namespace MinCpuForth.Lib.Decimal

/-- The code of a decimal digit. -/
abbrev Digit (c : ℤ) : Prop := 48 ≤ c ∧ c ≤ 57

/-- The number `n` with further digits after its own. -/
def value (n : ℤ) (cs : List ℤ) : ℤ := cs.foldl (fun n c => 10 * n + (c - 48)) n

/-- The same, if these are digits. -/
def scan? (n : ℤ) (cs : List ℤ) : Option ℤ :=
  if ∀ c ∈ cs, Digit c then some (value n cs) else none

/-- The value of one or more digits. -/
def unsigned? (cs : List ℤ) : Option ℤ := if cs = [] then none else scan? 0 cs

/-- The value of one or more digits, negated after a minus sign. -/
def signed? : List ℤ → Option ℤ
  | 45 :: cs => (unsigned? cs).map (- ·)
  | cs => unsigned? cs

@[simp] lemma value_nil (n : ℤ) : value n [] = n := rfl

@[simp] lemma value_cons (n c : ℤ) (cs : List ℤ) :
    value n (c :: cs) = value (10 * n + (c - 48)) cs := rfl

lemma value_append (n : ℤ) (cs ds : List ℤ) : value n (cs ++ ds) = value (value n cs) ds :=
  List.foldl_append ..

@[simp] lemma scan?_nil (n : ℤ) : scan? n [] = some n := if_pos (List.forall_mem_nil _)

/-- A digit first. -/
lemma scan?_digit {c : ℤ} (h : Digit c) (n : ℤ) (cs : List ℤ) :
    scan? n (c :: cs) = scan? (10 * n + (c - 48)) cs := by
  simp only [scan?, List.forall_mem_cons, eq_true h, true_and, value_cons]

/-- Something else first. -/
lemma scan?_other {c : ℤ} (h : ¬Digit c) (n : ℤ) (cs : List ℤ) : scan? n (c :: cs) = none :=
  if_neg fun all => h (all c (List.mem_cons_self ..))

@[simp] lemma unsigned?_nil : unsigned? [] = none := rfl

@[simp] lemma unsigned?_cons (c : ℤ) (cs : List ℤ) : unsigned? (c :: cs) = scan? 0 (c :: cs) := rfl

@[simp] lemma signed?_minus (cs : List ℤ) : signed? (45 :: cs) = (unsigned? cs).map (- ·) := rfl

@[simp] lemma signed?_nil : signed? [] = none := rfl

lemma signed?_of_ne {c : ℤ} (ne : c ≠ 45) (cs : List ℤ) : signed? (c :: cs) = scan? 0 (c :: cs) := by
  unfold signed?
  split
  · rename_i h
    cases h
    exact absurd rfl ne
  · rfl

section Rendering

/-- The codes of the decimal digits of a number. -/
def render (n : ℕ) : List ℤ := (Nat.toDigits 10 n).map fun c => (c.toNat : ℤ)

/-- The last digit, after those of the tenth part. -/
lemma render_eq (n : ℕ) :
    render n = if n < 10 then [48 + (n : ℤ)] else render (n / 10) ++ [48 + ((n % 10 : ℕ) : ℤ)] := by
  unfold render
  rw [Nat.toDigits_eq_if (by omega)]
  split
  · rename_i h
    simp [Nat.toNat_digitChar_of_lt_ten h]
  · simp [Nat.toNat_digitChar_of_lt_ten (Nat.mod_lt n (by omega : 10 > 0))]

lemma render_digits (n : ℕ) : ∀ c ∈ render n, Digit c := by
  induction n using Nat.strongRecOn with
  | _ n ih =>
    rw [render_eq]
    split
    · rename_i h
      simp only [List.mem_singleton, forall_eq]
      omega
    · rename_i h
      intro c mem
      rcases List.mem_append.mp mem with mem | mem
      · exact ih (n / 10) (by omega) c mem
      · have small := Nat.mod_lt n (by omega : 10 > 0)
        cases List.mem_singleton.mp mem
        omega

lemma value_render (n : ℕ) : value 0 (render n) = n := by
  induction n using Nat.strongRecOn with
  | _ n ih =>
    rw [render_eq]
    split
    · simp only [value_cons, value_nil]
      omega
    · rename_i h
      rw [value_append, ih (n / 10) (by omega)]
      simp only [value_cons, value_nil]
      omega

lemma render_ne_nil (n : ℕ) : render n ≠ [] := by
  rw [render_eq]
  split <;> simp

/-- A number has as many digits as it needs. -/
lemma lt_pow_render (n : ℕ) : n < 10 ^ (render n).length := by
  induction n using Nat.strongRecOn with
  | _ n ih =>
    rw [render_eq]
    split
    · rename_i h
      simpa using h
    · rename_i h
      have tenth := ih (n / 10) (by omega)
      rw [List.length_append, List.length_singleton, Nat.pow_succ]
      omega

/-- Only zero begins with a zero. -/
lemma render_head {n : ℕ} (nonzero : n ≠ 0) : ∀ c ∈ (render n).head?, c ≠ 48 := by
  induction n using Nat.strongRecOn with
  | _ n ih =>
    rw [render_eq]
    split
    · rename_i h
      intro c mem
      cases mem
      omega
    · rename_i h
      intro c mem
      rw [List.head?_append_of_ne_nil _ (render_ne_nil _)] at mem
      exact ih (n / 10) (by omega) (by omega) c mem

/-- A natural number reads back. -/
lemma unsigned?_render (n : ℕ) : unsigned? (render n) = some (n : ℤ) := by
  rw [unsigned?, if_neg (render_ne_nil n), scan?, if_pos (render_digits n), value_render]

/-- A natural number reads back where a sign may stand. -/
lemma signed?_render (n : ℕ) : signed? (render n) = some (n : ℤ) := by
  cases e : render n with
  | nil => exact absurd e (render_ne_nil n)
  | cons c cs =>
    have digit := render_digits n c (by simp [e])
    rw [signed?_of_ne (by omega), ← unsigned?_cons, ← e, unsigned?_render]

end Rendering

end MinCpuForth.Lib.Decimal
