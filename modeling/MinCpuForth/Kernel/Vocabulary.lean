import MinCpuForth.Kernel.Reference
import MinCpuForth.Kernel.Threading
import Mathlib.Data.List.Nodup

/-!
# The routines behind the names

Which routine a CODE word of a given name runs. No two CODE words share a name.
-/

namespace MinCpuForth.Kernel
open Python Domain Emulator Routines

/-- The word of that name is a CODE word, and runs the code at the index of its label. -/
def RunsCode (name : PyStr) (code : ℤ → List InstructionDto) : Prop :=
  ∃ p r, p ∈ PRIMITIVES ∧ r ∈ ROUTINES.tail ∧ p.word.name = name ∧
    (p.word.routine_label, r.base) ∈ r.labels ∧ r.code = code r.base

/-- The `k`-th primitive and the `k`-th routine after the core. -/
lemma RunsCode.of_index (k : ℕ) {p : KernelPrimitive} {r : Routine} {name : PyStr}
    {code : ℤ → List InstructionDto} (hp : PRIMITIVES[k]? = some p)
    (hr : ROUTINES[k + 1]? = some r) (e : p.word.name = name)
    (label : (p.word.routine_label, r.base) ∈ r.labels) (hc : r.code = code r.base) :
    RunsCode name code :=
  ⟨p, r, List.mem_of_getElem? hp, List.mem_of_getElem? (List.getElem?_tail.trans hr), e, label, hc⟩

lemma LIT_runs : RunsCode "LIT" fun _ => LIT_code :=
  .of_index 0 rfl rfl rfl (.head _) rfl

lemma EXIT_runs : RunsCode "EXIT" fun _ => EXIT_code :=
  .of_index 1 rfl rfl rfl (.head _) rfl

lemma BYE_runs : RunsCode "BYE" fun _ => BYE_code :=
  .of_index 2 rfl rfl rfl (.head _) rfl

/-- The words on the stacks run their code. -/
lemma stackWord_runs (w : StackWord) : RunsCode w.name fun b => w.code b := by
  cases w with
  | DUP => exact .of_index 3 rfl rfl rfl (.head _) rfl
  | DROP => exact .of_index 4 rfl rfl rfl (.head _) rfl
  | SWAP => exact .of_index 5 rfl rfl rfl (.head _) rfl
  | OVER => exact .of_index 6 rfl rfl rfl (.head _) rfl
  | ROT => exact .of_index 7 rfl rfl rfl (.head _) rfl
  | NROT => exact .of_index 8 rfl rfl rfl (.head _) rfl
  | NIP => exact .of_index 9 rfl rfl rfl (.head _) rfl
  | TUCK => exact .of_index 10 rfl rfl rfl (.head _) rfl
  | PLUS => exact .of_index 11 rfl rfl rfl (.head _) rfl
  | MINUS => exact .of_index 12 rfl rfl rfl (.head _) rfl
  | MUL => exact .of_index 13 rfl rfl rfl (.head _) rfl
  | NEGATE => exact .of_index 14 rfl rfl rfl (.head _) rfl
  | ABS => exact .of_index 15 rfl rfl rfl (.head _) rfl
  | ONEPLUS => exact .of_index 16 rfl rfl rfl (.head _) rfl
  | ONEMINUS => exact .of_index 17 rfl rfl rfl (.head _) rfl
  | TOR => exact .of_index 22 rfl rfl rfl (.head _) rfl
  | FROMR => exact .of_index 23 rfl rfl rfl (.head _) rfl
  | RFETCH => exact .of_index 24 rfl rfl rfl (.head _) rfl
  | EQUALS => exact .of_index 25 rfl rfl rfl (.head _) rfl
  | NOTEQUALS => exact .of_index 26 rfl rfl rfl (.head _) rfl
  | LESSTHAN => exact .of_index 27 rfl rfl rfl (.head _) rfl
  | GREATERTHAN => exact .of_index 28 rfl rfl rfl (.head _) rfl
  | ZEROEQ => exact .of_index 29 rfl rfl rfl (.head _) rfl
  | ZEROLT => exact .of_index 30 rfl rfl rfl (.head _) rfl
  | BITAND => exact .of_index 31 rfl rfl rfl (.head _) rfl
  | BITOR => exact .of_index 32 rfl rfl rfl (.head _) rfl
  | BITINVERT => exact .of_index 33 rfl rfl rfl (.head _) rfl

/-- No two CODE words share a name. -/
lemma code_words_nodup : (CODE_WORDS.map CodeWordDto.name).Nodup := by
  simp only [CODE_WORDS, PRIMITIVES, List.map_cons, List.map_nil, primitive,
      LIT_primitive, EXIT_primitive, BYE_primitive, DUP_primitive, DROP_primitive, SWAP_primitive,
      OVER_primitive, ROT_primitive, NROT_primitive, NIP_primitive, TUCK_primitive,
      PLUS_primitive, MINUS_primitive, MUL_primitive, NEGATE_primitive, ABS_primitive,
      ONEPLUS_primitive, ONEMINUS_primitive, FETCH_primitive, STOREW_primitive, CFETCH_primitive,
      CSTOREW_primitive, TOR_primitive, FROMR_primitive, RFETCH_primitive, EQUALS_primitive,
      NOTEQUALS_primitive, LESSTHAN_primitive, GREATERTHAN_primitive, ZEROEQ_primitive,
      ZEROLT_primitive, BITAND_primitive, BITOR_primitive, BITINVERT_primitive, KEY_primitive,
      EMIT_primitive, NUMBER_primitive, WORD_primitive, FIND_primitive]
  repeat rw [py_ofList]
  decide +kernel

/-- What a CODE word of that name runs. -/
lemma RunsCode.codeAt {name : PyStr} {code : ℤ → List InstructionDto} (h : RunsCode name code)
    {w : CodeWordDto} (mem : w ∈ CODE_WORDS) (e : w.name = name) {b : ℤ}
    (found : KernelBuilder.label_index kernelLabels w.routine_label = .ok b) :
    NEXT_INDEX < b ∧ CodeAt kernelProgram b (code b) := by
  obtain ⟨p, r, hp, hr', hn, label, hc⟩ := h
  have hr := List.mem_of_mem_tail hr'
  have same : w = p.word := List.inj_on_of_nodup_map code_words_nodup mem
    (List.mem_map_of_mem hp) (e.trans hn.symm)
  subst same
  simp only [KernelBuilder.label_index, lookup_kernelLabels hr label] at found
  cases found
  rw [← hc]
  exact ⟨routines_above r hr', codeAt_kernel hr⟩

end MinCpuForth.Kernel
