import MinCpuForth.Kernel.ThreadedCode

/-!
# Words in the memory

What the builder leaves in the memory for a table of words: code fields and threads, each thread
naming the words that were there before it. Only the cells below some address count, so the words
stay there however the dictionary grows.
-/

namespace MinCpuForth.Kernel
open Python Domain Layout Adapters Emulator Lib KernelBuilder MemoryDictionaryAdapter
  View

/-- The memory below `top` holds the words of an environment, which the table knows under their
    names. -/
def Threads (mem : ℤ → ℤ) (top : ℤ) : Env → PyDict ℤ → Prop
  | [], word_cfas => word_cfas = []
  | .code w :: env, word_cfas => ∃ older cfa, word_cfas = older.setItem w.name cfa ∧
      DICTIONARY_BASE ≤ cfa ∧ cfa < top ∧
      label_index kernelLabels w.routine_label = .ok (mem cfa) ∧ Threads mem top env older
  | .colon w :: env, word_cfas => ∃ older cfa thread, word_cfas = older.setItem w.name cfa ∧
      DICTIONARY_BASE ≤ cfa ∧ mem cfa = ENTER_INDEX ∧ CellsAt mem (cfa + 1) thread ∧
      cfa + 1 + thread.length ≤ top ∧
      (w.words ++ [EXIT_WORD]).mapM (cfa_of older) = .ok thread ∧ Threads mem top env older

/-- The older words. -/
lemma Holds.older {mem : ℤ → ℤ} {d d' : Dictionary} {word_cfas word_cfas' : PyDict ℤ}
    {words : List WordSpecDto} (h : Holds mem d')
    (laid : laidOut d word_cfas words = .ok (d', word_cfas')) : Holds mem d := by
  obtain ⟨newer, entries, -⟩ := laidOut_entries laid
  refine ⟨Int.le_trans (laidOut_dp_le laid) h.dp_le, fun e mem => h.stored e ?_⟩
  rw [entries]
  exact List.mem_append_right newer mem

namespace Threads

variable {mem mem' : ℤ → ℤ} {top top' : ℤ} {env : Env} {word_cfas word_cfas' : PyDict ℤ}
  {d d' : Dictionary}

/-- Only the cells below `top` count. -/
lemma congr (h : Threads mem top env word_cfas)
    (same : ∀ i, DICTIONARY_BASE ≤ i → i < top → mem' i = mem i) (le : top ≤ top') :
    Threads mem' top' env word_cfas := by
  induction env generalizing word_cfas with
  | nil => exact h
  | cons word env ih =>
    cases word with
    | code w =>
      obtain ⟨older, cfa, rfl, lo, hi, label, rest⟩ := h
      rw [← same cfa lo hi] at label
      exact ⟨older, cfa, rfl, lo, by omega, label, ih rest⟩
    | colon w =>
      obtain ⟨older, cfa, thread, rfl, lo, cell, cells, fits, resolved, rest⟩ := h
      rw [← same cfa lo (by omega)] at cell
      have cells' := cells.congr fun i low high => same i (by omega) (by omega)
      exact ⟨older, cfa, thread, rfl, lo, cell, cells', by omega, resolved, ih rest⟩

/-- What laying out words leaves in a memory that holds all of them. -/
lemma laidOut {words : List WordSpecDto} (h : Threads mem top env word_cfas)
    (laid : KernelBuilder.laidOut d word_cfas words = .ok (d', word_cfas'))
    (holds : Holds mem d') (le : d'.dp ≤ top) :
    Threads mem top (words.reverse ++ env) word_cfas' := by
  induction words generalizing env d word_cfas with
  | nil =>
    cases laid
    exact h
  | cons word words ih =>
    obtain ⟨op, e, rest⟩ := laidOut_cons laid
    have later := laidOut_dp_le rest
    have first : Holds mem (d.append op) := holds.older rest
    have here : Threads mem top (word :: env) (word_cfas.setItem word.name (d.returned op)) := by
      have bounds := returned_bounds (d := d) e
      have base := d.linked.base_le
      cases word with
      | code w =>
        obtain ⟨routine, label, rfl⟩ := appendOf_code e
        obtain ⟨-, cell, -⟩ := first.newest
        rw [← cell] at label
        exact ⟨word_cfas, _, rfl, by omega, by omega, label, h⟩
      | colon w =>
        obtain ⟨thread, resolved, rfl⟩ := appendOf_colon e
        obtain ⟨-, cell, cells, -, -⟩ := first.newest
        have stop : d.returned (.word w.name ENTER_INDEX thread w.immediate) + 1 + thread.length =
            (d.append (.word w.name ENTER_INDEX thread w.immediate)).dp := by
          have at_cfa : d.returned (.word w.name ENTER_INDEX thread w.immediate) =
              d.dp + 3 + 1 + w.name.length := rfl
          rw [d.append_dp, at_cfa, Append.size]
          omega
        exact ⟨word_cfas, _, thread, rfl, by omega, cell, cells, by omega, resolved, h⟩
    rw [List.reverse_cons, List.append_assoc]
    exact ih here rest

/-- A reserved name denotes the CODE word of that name. -/
lemma reserved (h : Threads mem top env word_cfas) (sound : Sound env)
    (low : top ≤ DICTIONARY_TOP) :
    ReservedPerform word_cfas mem := by
  have lay := Layout.values
  intro name res cfa found
  induction env generalizing word_cfas with
  | nil =>
    cases h
    cases found
  | cons word env ih =>
    cases word with
    | code w =>
      obtain ⟨older, at_cfa, rfl, lo, hi, label, rest⟩ := h
      rw [PyDict.lookup_setItem] at found
      split at found
      · rename_i same
        cases found
        exact ⟨⟨by omega, by omega⟩, fun code runs => (runs.codeAt sound.1 same.symm label).2⟩
      · exact ih rest sound.2 found
    | colon w =>
      obtain ⟨older, at_cfa, thread, rfl, -, -, -, -, -, rest⟩ := h
      rw [PyDict.lookup_setItem, if_neg] at found
      · exact ih rest sound.2.2 found
      · rintro rfl
        exact sound.1 res

/-- The words of a sound environment do what the reference semantics says. -/
lemma perform (h : Threads mem top env word_cfas) (sound : Sound env) (low : top ≤ DICTIONARY_TOP) :
    WordsPerform env word_cfas mem := by
  have lay := Layout.values
  intro name v t own base depth next hm ip found split hd
  induction env generalizing word_cfas name v t own base depth with
  | nil =>
    cases h
    cases found
  | cons word env ih =>
    cases word with
    | code w =>
      obtain ⟨older, cfa, rfl, lo, hi, label, rest⟩ := h
      rw [PyDict.lookup_setItem] at found
      rw [wordDepth] at hd
      rw [call]
      by_cases same : w.name = name
      · subst same
        rw [if_pos rfl] at hd ⊢
        rw [if_pos rfl] at found
        obtain rfl := Option.some.inj found
        subst hm
        exact code_performs sound.1 next ip ⟨by omega, by omega⟩ rfl label split hd
      · rw [if_neg same] at hd ⊢
        rw [if_neg (Ne.symm same)] at found
        exact ih rest sound.2 name v t own base depth next hm ip found split hd
    | colon w =>
      obtain ⟨older, cfa, thread, rfl, lo, cell, cells, fits, resolved, rest⟩ := h
      rw [PyDict.lookup_setItem] at found
      rw [wordDepth] at hd
      rw [call]
      by_cases same : w.name = name
      · subst same
        rw [if_pos rfl] at hd ⊢
        rw [if_pos rfl] at found
        obtain rfl := Option.some.inj found
        obtain rfl := Option.some.inj hd
        subst hm
        exact colon_performs (ih rest sound.2.2) (rest.reserved sound.2.2 low) resolved sound.2.1
          next rfl ip ⟨by omega, by omega⟩ cell cells (by omega) split
      · rw [if_neg same] at hd ⊢
        rw [if_neg (Ne.symm same)] at found
        exact ih rest sound.2.2 name v t own base depth next hm ip found split hd

end Threads

end MinCpuForth.Kernel
