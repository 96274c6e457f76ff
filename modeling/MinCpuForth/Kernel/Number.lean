import MinCpuForth.Kernel.Calls
import MinCpuForth.Python.Numeral

/-!
# `NUMBER`

The loop keeps the number read so far and the digits that are left. A character that is not a digit
leads to the failure exit, from wherever it is found.
-/

namespace MinCpuForth.Kernel
open Python Domain Adapters Emulator Lib Layout Routines EmulatorService Decimal

section Blocks

/-! The straight-line parts of the routine. -/

variable {v : Bare}

attribute [local simp] Ensures NUMBER_code quiet_iff kept_iff popped_iff Int.add_assoc

/-- From `NUMBER` to the test of the length. -/
lemma number_enter (running : v.halted = false) (below : v.sp < DATA_STACK_BASE)
    (inside : Inside (v.cell v.sp)) :
    Ensures (((NUMBER_code v.pc).drop 0).take 6) v fun u => Popped v u ∧
      u.pc = v.pc + (if v.cell (v.cell v.sp) = 0 then 58 else 6 : ℕ) ∧ u.regs "N" = 0 ∧
      u.regs "NEG" = 0 ∧ u.regs "LEN" = v.cell (v.cell v.sp) ∧ u.regs "PTR" = v.cell v.sp + 1 := by
  by_cases zero : v.cell (v.cell v.sp) = 0 <;> simp [running, below, if_pos inside, zero]

variable {b : ℤ}

/-- The test for a minus sign. -/
lemma number_sign (running : v.halted = false) (pc : v.pc = b + (6 : ℕ))
    (inside : Inside (v.regs "PTR")) :
    Ensures (((NUMBER_code b).drop 6).take 5) v fun u => Quiet v u ∧
      u.pc = b + (if v.cell (v.regs "PTR") = 45 then 14 else 11 : ℕ) ∧ u.regs "N" = v.regs "N" ∧
      u.regs "NEG" = v.regs "NEG" ∧ u.regs "LEN" = v.regs "LEN" ∧
      u.regs "PTR" = v.regs "PTR" := by
  by_cases minus : v.cell (v.regs "PTR") - 45 = 0
  · have c : v.cell (v.regs "PTR") = 45 := Int.sub_eq_zero.mp minus
    simp [running, pc, if_pos inside, c]
  · have c : v.cell (v.regs "PTR") ≠ 45 := fun e => minus (Int.sub_eq_zero.mpr e)
    simp [running, pc, if_pos inside, minus, c]

/-- To the loop. -/
lemma number_plain (running : v.halted = false) (pc : v.pc = b + (11 : ℕ)) :
    Ensures (((NUMBER_code b).drop 11).take 3) v fun u => Quiet v u ∧ u.pc = b + (19 : ℕ) ∧
      u.regs "N" = v.regs "N" ∧ u.regs "NEG" = v.regs "NEG" ∧ u.regs "LEN" = v.regs "LEN" ∧
      u.regs "PTR" = v.regs "PTR" := by
  simp [running, pc]

/-- `NUM_NEG`. -/
lemma number_minus (running : v.halted = false) (pc : v.pc = b + (14 : ℕ)) :
    Ensures (((NUMBER_code b).drop 14).take 5) v fun u => Quiet v u ∧
      u.pc = b + (if v.regs "LEN" - 1 = 0 then 58 else 19 : ℕ) ∧ u.regs "N" = v.regs "N" ∧
      u.regs "NEG" = 1 ∧ u.regs "LEN" = v.regs "LEN" - 1 ∧ u.regs "PTR" = v.regs "PTR" + 1 := by
  by_cases last : v.regs "LEN" - 1 = 0 <;> simp [running, pc, last]

/-- A character above `'/'`, up to the test against `'9'`. -/
lemma number_test (running : v.halted = false) (pc : v.pc = b + (19 : ℕ))
    (more : v.regs "LEN" ≠ 0) (inside : Inside (v.regs "PTR"))
    (low : 48 ≤ v.cell (v.regs "PTR")) :
    Ensures (((NUMBER_code b).drop 19).take 10) v fun u => Quiet v u ∧
      u.pc = b + (if v.cell (v.regs "PTR") ≤ 57 then 32 else 29 : ℕ) ∧ u.regs "N" = v.regs "N" ∧
      u.regs "NEG" = v.regs "NEG" ∧ u.regs "LEN" = v.regs "LEN" ∧ u.regs "PTR" = v.regs "PTR" ∧
      u.regs "DIGIT" = v.cell (v.regs "PTR") - 48 := by
  have above : ¬v.cell (v.regs "PTR") - 48 < 0 := by omega
  by_cases digit : v.cell (v.regs "PTR") ≤ 57
  · have small : v.cell (v.regs "PTR") - 48 - 10 < 0 := by omega
    simp [running, pc, more, if_pos inside, above, digit, small]
  · have large : ¬v.cell (v.regs "PTR") - 48 - 10 < 0 := by omega
    simp [running, pc, more, if_pos inside, above, digit, large]

/-- A character below `'0'`. -/
lemma number_below (running : v.halted = false) (pc : v.pc = b + (19 : ℕ))
    (more : v.regs "LEN" ≠ 0) (inside : Inside (v.regs "PTR"))
    (low : v.cell (v.regs "PTR") < 48) :
    Ensures (((NUMBER_code b).drop 19).take 6) v fun u => Quiet v u ∧ u.pc = b + (58 : ℕ) := by
  have below : v.cell (v.regs "PTR") - 48 < 0 := by omega
  simp [running, pc, more, if_pos inside, below]

/-- A character above `'9'`. -/
lemma number_above (running : v.halted = false) (pc : v.pc = b + (29 : ℕ)) :
    Ensures (((NUMBER_code b).drop 29).take 3) v fun u => Quiet v u ∧ u.pc = b + (58 : ℕ) := by
  simp [running, pc]

/-- `NUM_DIGIT_OK`. -/
lemma number_digit (running : v.halted = false) (pc : v.pc = b + (32 : ℕ)) :
    Ensures (((NUMBER_code b).drop 32).take 16) v fun u => Quiet v u ∧ u.pc = b + (19 : ℕ) ∧
      u.regs "N" = 10 * v.regs "N" + v.regs "DIGIT" ∧ u.regs "NEG" = v.regs "NEG" ∧
      u.regs "LEN" = v.regs "LEN" - 1 ∧ u.regs "PTR" = v.regs "PTR" + 1 := by
  simp [running, pc]
  omega

/-- `NUM_LOOP` with nothing left. -/
lemma number_done (running : v.halted = false) (pc : v.pc = b + (19 : ℕ))
    (done : v.regs "LEN" = 0) :
    Ensures (((NUMBER_code b).drop 19).take 1) v fun u => Quiet v u ∧ u.pc = b + (48 : ℕ) ∧
      u.regs "N" = v.regs "N" ∧ u.regs "NEG" = v.regs "NEG" := by
  simp [running, pc, done]

/-- `NUM_DONE` without a sign. -/
lemma number_positive (pc : v.pc = b + (48 : ℕ)) (sign : v.regs "NEG" = 0) :
    Ensures (((NUMBER_code b).drop 48).take 1) v fun u => Quiet v u ∧ u.pc = b + (53 : ℕ) ∧
      u.regs "N" = v.regs "N" := by
  simp [pc, sign]

/-- `NUM_DONE` with a sign. -/
lemma number_negative (running : v.halted = false) (pc : v.pc = b + (48 : ℕ))
    (sign : v.regs "NEG" ≠ 0) :
    Ensures (((NUMBER_code b).drop 48).take 5) v fun u => Quiet v u ∧ u.pc = b + (53 : ℕ) ∧
      u.regs "N" = -v.regs "N" := by
  simp [running, pc, sign]

variable {u : Bare}

/-- `NUM_PUSH`. -/
lemma number_push (running : v.halted = false) (room : DICTIONARY_TOP < v.sp)
    (popped : Popped v u) :
    Ensures (((NUMBER_code b).drop 53).take 5) u (Pushed v (u.regs "N") 1) := by
  have room' : DICTIONARY_TOP < v.sp + 1 := Int.lt_add_one_of_le (Int.le_of_lt room)
  obtain ⟨kept, input, cell, sp⟩ := popped
  simp only [kept_iff, running] at kept
  simp [running, pushed_iff, kept, input, cell, sp, room, room']

/-- `NUM_FAIL`. -/
lemma number_fail (running : v.halted = false) (room : DICTIONARY_TOP < v.sp)
    (popped : Popped v u) :
    Ensures (((NUMBER_code b).drop 58).take 4) u (Pushed v 0 0) := by
  have room' : DICTIONARY_TOP < v.sp + 1 := Int.lt_add_one_of_le (Int.le_of_lt room)
  obtain ⟨kept, input, cell, sp⟩ := popped
  simp only [kept_iff, running] at kept
  simp [running, pushed_iff, kept, input, cell, sp, room, room']

end Blocks

/-- What `NUMBER` leaves: the number and a success flag. -/
def parsed : Option ℤ → ℤ × ℤ
  | some n => (n, 1)
  | none => (0, 0)

section Runs

variable {v u : Bare} {b n sign : ℤ} {cs : List ℤ}

/-- The failure exit. -/
lemma number_fails (loaded : Loaded (NUMBER_code b) b v) (room : DICTIONARY_TOP < v.sp)
    (popped : Popped v u) (pc : u.pc = b + (58 : ℕ)) :
    ∃ t, Reaches bareRoutine u t ∧ Pushed v 0 0 t := by
  obtain ⟨t, p, ht⟩ := (number_fail loaded.running room popped).run (loaded.kept popped.kept) pc
    (by simp [NUMBER_code]) (by omega)
  exact ⟨t, p.reaches, ht⟩

/-- The success exit. -/
lemma number_yields (loaded : Loaded (NUMBER_code b) b v) (room : DICTIONARY_TOP < v.sp)
    (popped : Popped v u) (pc : u.pc = b + (48 : ℕ)) :
    ∃ t, Reaches bareRoutine u t ∧
      Pushed v (if u.regs "NEG" = 0 then u.regs "N" else -u.regs "N") 1 t := by
  have here := loaded.kept popped.kept
  obtain ⟨w, p, quiet, pc', number⟩ : ∃ w, Progresses bareRoutine u w ∧ Quiet u w ∧
      w.pc = b + (53 : ℕ) ∧ w.regs "N" = if u.regs "NEG" = 0 then u.regs "N" else -u.regs "N" := by
    by_cases sign : u.regs "NEG" = 0
    · rw [if_pos sign]
      exact (number_positive pc sign).run here pc (by simp [NUMBER_code]) (by omega)
    · rw [if_neg sign]
      exact (number_negative here.running pc sign).run here pc (by simp [NUMBER_code]) (by omega)
  have popped' := popped.quiet quiet
  obtain ⟨t, p', ht⟩ := (number_push loaded.running room popped').run (loaded.kept popped'.kept) pc'
    (by simp [NUMBER_code]) (by omega)
  rw [number] at ht
  exact ⟨t, p.reaches.trans p'.reaches, ht⟩

/-- At `NUM_LOOP`, with the number `n` read, `cs` left and the sign noted. -/
structure NumberLoop (v : Bare) (b n sign : ℤ) (cs : List ℤ) (u : Bare) : Prop where
  popped : Popped v u
  pc : u.pc = b + (19 : ℕ)
  number : u.regs "N" = n
  sign : u.regs "NEG" = sign
  left : u.regs "LEN" = cs.length
  string : CellsAt v.cell (u.regs "PTR") cs
  low : 0 ≤ u.regs "PTR"
  high : u.regs "PTR" + cs.length ≤ MEMORY_SIZE

/-- The loop reads what is left. -/
lemma NumberLoop.run (loaded : Loaded (NUMBER_code b) b v) (room : DICTIONARY_TOP < v.sp)
    (h : NumberLoop v b n sign cs u) : ∃ t, Reaches bareRoutine u t ∧
      let result := parsed ((scan? n cs).map fun m => if sign = 0 then m else -m)
      Pushed v result.1 result.2 t := by
  induction cs generalizing n u with
  | nil =>
    obtain ⟨popped, pc, rfl, rfl, left, -, -, -⟩ := h
    have here := loaded.kept popped.kept
    obtain ⟨w, p, quiet, pc', number, sign⟩ := (number_done here.running pc left).run here pc
      (by simp [NUMBER_code]) (by omega)
    obtain ⟨t, r, ht⟩ := number_yields loaded room (popped.quiet quiet) pc'
    rw [number, sign] at ht
    exact ⟨t, p.reaches.trans r, ht⟩
  | cons c cs ih =>
    obtain ⟨popped, pc, rfl, rfl, left, ⟨first, rest⟩, low, high⟩ := h
    simp only [List.length_cons] at left high
    have here := loaded.kept popped.kept
    have more : u.regs "LEN" ≠ 0 := by omega
    have inside : Inside (u.regs "PTR") := by omega
    have first' : u.cell (u.regs "PTR") = c := by rw [popped.cell, first]
    by_cases below : c < 48
    · obtain ⟨w, p, quiet, pc'⟩ :=
        (number_below here.running pc more inside (by rw [first']; exact below)).run here pc
          (by simp [NUMBER_code]) (by omega)
      obtain ⟨t, r, ht⟩ := number_fails loaded room (popped.quiet quiet) pc'
      rw [scan?_other (by omega)]
      exact ⟨t, p.reaches.trans r, ht⟩
    · obtain ⟨w, p, quiet, pc', number, sign, left', ptr, digit⟩ :=
        (number_test here.running pc more inside (by rw [first']; omega)).run here pc
          (by simp [NUMBER_code]) (by omega)
      have popped' := popped.quiet quiet
      have there := loaded.kept popped'.kept
      rw [first'] at pc' digit
      by_cases above : c ≤ 57
      · rw [if_pos above] at pc'
        obtain ⟨x, p', quiet', pc'', number', sign', left'', ptr'⟩ :=
          (number_digit there.running pc').run there pc' (by simp [NUMBER_code]) (by omega)
        rw [number, digit] at number'
        rw [sign] at sign'
        rw [left', left] at left''
        rw [ptr] at ptr'
        obtain ⟨t, r, ht⟩ := ih ⟨popped'.quiet quiet', pc'', number', sign', by omega,
          by rw [ptr']; exact rest, by omega, by omega⟩
        rw [scan?_digit (by omega)]
        exact ⟨t, p.reaches.trans (p'.reaches.trans r), ht⟩
      · rw [if_neg above] at pc'
        obtain ⟨x, p', quiet', pc''⟩ :=
          (number_above there.running pc').run there pc' (by simp [NUMBER_code]) (by omega)
        obtain ⟨t, r, ht⟩ := number_fails loaded room (popped'.quiet quiet') pc''
        rw [scan?_other (by omega)]
        exact ⟨t, p.reaches.trans (p'.reaches.trans r), ht⟩

/-- From `NUMBER` on. -/
lemma number_runs (loaded : Loaded (NUMBER_code v.pc) v.pc v) (one : v.sp < DATA_STACK_BASE)
    (room : DICTIONARY_TOP < v.sp) (string : StringAt v.cell (v.cell v.sp) cs) :
    ∃ t, Reaches bareRoutine v t ∧
      Pushed v (parsed (signed? cs)).1 (parsed (signed? cs)).2 t := by
  obtain ⟨low, high, length, chars⟩ := string
  obtain ⟨u, p, popped, pc, number, sign, left, ptr⟩ :=
    (number_enter loaded.running one (by omega)).run loaded (by simp) (by simp [NUMBER_code])
      (by omega)
  have here := loaded.kept popped.kept
  rw [length] at pc left
  cases cs with
  | nil =>
    rw [List.length_nil, if_pos (by rfl)] at pc
    obtain ⟨t, r, ht⟩ := number_fails loaded room popped pc
    exact ⟨t, p.reaches.trans r, ht⟩
  | cons c cs =>
    simp only [List.length_cons] at pc left high
    rw [if_neg (by omega)] at pc
    have first : u.cell (u.regs "PTR") = c := by rw [popped.cell, ptr, chars.1]
    obtain ⟨w, p', quiet, pc', number', sign', left', ptr'⟩ :=
      (number_sign here.running pc (by omega)).run here pc (by simp [NUMBER_code]) (by omega)
    have popped' := popped.quiet quiet
    have there := loaded.kept popped'.kept
    rw [first] at pc'
    by_cases minus : c = 45
    · subst minus
      rw [if_pos rfl] at pc'
      obtain ⟨x, p'', quiet', pc'', number'', sign'', left'', ptr''⟩ :=
        (number_minus there.running pc').run there pc' (by simp [NUMBER_code]) (by omega)
      have popped'' := popped'.quiet quiet'
      cases cs with
      | nil =>
        rw [if_pos (by rw [left', left]; simp)] at pc''
        obtain ⟨t, r, ht⟩ := number_fails loaded room popped'' pc''
        exact ⟨t, p.reaches.trans (p'.reaches.trans (p''.reaches.trans r)), ht⟩
      | cons d cs =>
        simp only [List.length_cons] at left high
        rw [if_neg (by omega)] at pc''
        have loop : NumberLoop v v.pc 0 1 (d :: cs) x :=
          ⟨popped'', pc'', by rw [number'', number', number], sign'',
            by simp only [List.length_cons]; omega, by rw [ptr'', ptr', ptr]; exact chars.2,
            by omega, by simp only [List.length_cons]; omega⟩
        obtain ⟨t, r, ht⟩ := loop.run loaded room
        rw [signed?_minus, unsigned?_cons]
        exact ⟨t, p.reaches.trans (p'.reaches.trans (p''.reaches.trans r)), ht⟩
    · rw [if_neg minus] at pc'
      obtain ⟨x, p'', quiet', pc'', number'', sign'', left'', ptr''⟩ :=
        (number_plain there.running pc').run there pc' (by simp [NUMBER_code]) (by omega)
      have loop : NumberLoop v v.pc 0 0 (c :: cs) x :=
        ⟨popped'.quiet quiet', pc'', by rw [number'', number', number],
          by rw [sign'', sign', sign], by simp only [List.length_cons]; omega,
          by rw [ptr'', ptr', ptr]; exact chars, by omega, by simp only [List.length_cons]; omega⟩
      obtain ⟨t, r, ht⟩ := loop.run loaded room
      rw [signed?_of_ne minus]
      simp only [if_pos, Option.map_id'] at ht
      exact ⟨t, p.reaches.trans (p'.reaches.trans (p''.reaches.trans r)), ht⟩

end Runs

/-- The decimal rendering of an integer reads back. -/
lemma signed?_strInt (n : ℤ) : signed? ((strInt n).map ord) = some n := by
  cases n with
  | ofNat k =>
    rw [strInt, strNat_codes, signed?_render]
    rfl
  | negSucc k =>
    have e : (strInt (.negSucc k)).map ord = 45 :: render (k + 1) := by
      rw [strInt, List.map_append, strNat_codes]
      rfl
    rw [e, signed?_minus, unsigned?_render]
    rfl

/-- `NUMBER` replaces the address of a counted string by the signed decimal number that the string
    spells, with a flag that tells whether it spells one. -/
theorem number_correct {s : EmulatorService} {codes : List ℤ} (h : Enters "NUMBER" s)
    (stack : TakesOne s) (string : StringAt s.data.memory.cell (top s) codes) :
    ∃ t, Reaches routine s t ∧
      Answers s t (parsed (signed? codes)).1 (parsed (signed? codes)).2 ∧
      ∀ n : ℤ, codes = (strInt n).map ord → Answers s t n 1 := by
  have loaded := h.loaded 37 NUMBER_code rfl (.head _) rfl (by decide)
  obtain ⟨u, r, pushed⟩ := number_runs (v := bare s) loaded stack.one stack.room string
  obtain ⟨t, r', answers⟩ := h.answers r pushed
  refine ⟨t, r', answers, ?_⟩
  intro n e
  rw [e, signed?_strInt] at answers
  exact answers

/-- `-7`, at address 100. -/
theorem number_correct_minus_seven :
    let s := poised 216 (storing [(100, 2), (101, 45), (102, 55), (3071, 100)])
      ⟨3071, by decide, by decide⟩ []
    ∃ t, Reaches routine s t ∧ Answers s t (-7) 1 := by
  intro s
  have cell : s.data.memory.cell = _ :=
    cell_storing (by decide)
  have address : top s = 100 := by
    rw [top, cell]
    decide
  have string : StringAt s.data.memory.cell (top s) [45, 55] := by
    rw [address, cell]
    exact ⟨by decide, by decide, by decide⟩
  have stack : TakesOne s := ⟨(by decide : (3071 : ℤ) < 3072), (by decide : (2048 : ℤ) < 3071)⟩
  obtain ⟨t, r, answers, -⟩ := number_correct (poised_enters 37 rfl (.head _)) stack string
  exact ⟨t, r, answers⟩

end MinCpuForth.Kernel
