import MinCpuForth.Kernel.Implementation
import MinCpuForth.Kernel.Sessions

/-!
# What a program of all words means

The reference semantics of the words on the stacks, extended to the whole vocabulary: a word may
also read and write the memory and the devices. It still knows nothing of threads. A colon word runs
its body on a return stack of its own, and a name denotes the newest word of that name.

A program that writes over the cells of the threads, or takes from the return stack what it has not
put there, has no meaning.
-/

namespace MinCpuForth.Kernel
open Python Domain Layout Adapters Emulator Lib KernelBuilder MemoryDictionaryAdapter

/-- What a body works on. Of the return stack, it is what the body itself has put there. -/
@[ext] structure Workspace where
  ds : List ℤ
  rs : List ℤ
  mem : ℤ → ℤ
  input : List ℤ
  output : List ℤ

/-- What becomes of a program. -/
inductive Meaning where
  | ok (s : Workspace)
  | fault (e : PyError)
  | diverges
  | unknown

/-- The threaded machine at `ip`, with the cells of the callers on its return stack. -/
def Workspace.threaded (s : Workspace) (ip : ℤ) (base : List ℤ) : Threaded :=
  ⟨ip, s.ds, s.rs ++ base, s.mem, s.input, s.output⟩

/-- The threads are as they were built. -/
def Lexicon.Undamaged (words : Lexicon) (mem : ℤ → ℤ) : Prop :=
  ∀ i < words.dictionary.dp.toNat, DICTIONARY_BASE ≤ (i : ℤ) → mem i = words.cell i

instance (words : Lexicon) (mem : ℤ → ℤ) : Decidable (words.Undamaged mem) :=
  inferInstanceAs (Decidable (∀ i < _, _ → _))

/-- What a step of the threaded machine leaves to a body with this own return stack. -/
def Meaning.ofOutcome (words : Lexicon) (rs : List ℤ) : Outcome PyError Threaded → Meaning
  | .next t =>
    if words.Undamaged t.mem then .ok ⟨t.ds, rs, t.mem, t.input, t.output⟩ else .unknown
  | .fail e => .fault e
  | .halt | .unknown => .unknown

/-- What the verdict on the two stacks leaves. -/
def Meaning.ofVerdict (s : Workspace) : Verdict → Meaning
  | .ok ds rs => .ok { s with ds := ds, rs := rs }
  | .fault e => .fault e
  | .diverges => .diverges

/-- What a word of the kernel means. The words on the memory and the devices do what they do on the
    threaded machine, wherever they stand and whatever is on the return stack. -/
def KernelWord.meaning (words : Lexicon) (s : Workspace) (below : ℕ) : KernelWord → Meaning
  | .LIT | .EXIT | .BYE => .unknown
  | .stack w =>
    match w.returnDepth s.rs.length with
    | some _ => .ofVerdict s (w.verdict s.ds s.rs below)
    | none => .unknown
  | w => .ofOutcome words s.rs ((s.threaded 0 []).perform words w)

/-- Runs items, given what the words mean. -/
def meaningItems (f : PyStr → Workspace → ℕ → Meaning) : List Item → Workspace → ℕ → Meaning
  | [], s, _ => .ok s
  | .lit n :: items, s, below =>
    if s.ds.length < 1024 then meaningItems f items { s with ds := n :: s.ds } below
    else .fault .stackOverflow
  | .word name :: items, s, below =>
    match f name s below with
    | .ok s' => meaningItems f items s' below
    | other => other

/-- What a caller with this own return stack sees of a body. -/
def Meaning.leave (rs : List ℤ) : Meaning → Meaning
  | .ok s => if s.rs = [] then .ok { s with rs := rs } else .unknown
  | other => other

/-- What the word of that name means, with so many cells below the own return stack. -/
def meaning (words : Lexicon) : Env → PyStr → Workspace → ℕ → Meaning
  | [], _, _, _ => .unknown
  | .code w :: env, name, s, below =>
    if w.name = name then
      match KernelWord.ofName? name with
      | some w => w.meaning words s below
      | none => .unknown
    else meaning words env name s below
  | .colon w :: env, name, s, below =>
    if w.name = name then
      if below + s.rs.length < 1024 then
        (meaningItems (meaning words env) (w.words.map .word) { s with rs := [] }
          (below + s.rs.length + 1)).leave s.rs
      else .fault .stackOverflow
    else meaning words env name s below

/-- What a run of the threaded machine that is to arrive at `ip` does. -/
def Carries (words : Lexicon) (t : Threaded) (ip : ℤ) (base : List ℤ) : Meaning → Prop
  | .ok s => words.Undamaged s.mem ∧ Reaches (Threaded.step words) t (s.threaded ip base)
  | .fault e => Fails (Threaded.step words) t e
  | .diverges => Diverges (Threaded.step words) t
  | .unknown => True

section Words

variable {words : Lexicon} {s : Workspace} {mem : ℤ → ℤ} {t u : Threaded} {ip i : ℤ}
  {base : List ℤ} {w : KernelWord} {k : CodeWordDto}

lemma Lexicon.Undamaged.cell (h : words.Undamaged mem) (lo : DICTIONARY_BASE ≤ i)
    (hi : i < words.dictionary.dp) : mem i = words.cell i := by
  have lay := Layout.values
  obtain ⟨j, rfl⟩ := Int.eq_ofNat_of_zero_le (show 0 ≤ i by omega)
  exact h j (by omega) lo

/-- A run, and then what is left to do. -/
lemma Carries.after {m : Meaning} (r : Reaches (Threaded.step words) t u)
    (h : Carries words u ip base m) : Carries words t ip base m := by
  cases m with
  | ok s => exact ⟨h.1, r.trans h.2⟩
  | fault e => exact r.fails h
  | diverges => exact r.diverges h
  | unknown => trivial

/-- A step that fails. -/
lemma fails_step {e : PyError} (h : Threaded.step words t = .fail e) :
    Fails (Threaded.step words) t e := ⟨t, .refl, h⟩

/-- A step that leads nowhere else. -/
lemma diverges_step (h : Threaded.step words t = .next t) : Diverges (Threaded.step words) t := by
  refine .of_invariant (· = t) ?_ rfl
  rintro u rfl
  exact ⟨u, .head h .refl, rfl⟩

/-- A cell that calls a CODE word. -/
lemma Threaded.step_word (listed : k ∈ CODE_WORDS) (named : k.name = w.name)
    (invokes : Invokes t.mem t.ip k.routine_label) : Threaded.step words t = t.perform words w := by
  obtain ⟨p, mem, rfl⟩ := List.mem_map.mp listed
  obtain ⟨i, hp⟩ := List.mem_iff_getElem?.mp mem
  exact Threaded.step_invokes i hp named invokes

/-- The same step elsewhere in a thread, over another return stack. -/
def Threaded.elsewhere (ip : ℤ) (rs : List ℤ) :
    Outcome PyError Threaded → Outcome PyError Threaded
  | .next t => .next { t with ip := ip + 1, rs := rs }
  | other => other

section Elsewhere

variable {rs : List ℤ} {e : PyError}

@[simp] lemma Threaded.elsewhere_next :
    elsewhere ip rs (.next t) = .next { t with ip := ip + 1, rs := rs } := rfl

@[simp] lemma Threaded.elsewhere_fail : elsewhere ip rs (.fail e) = .fail e := rfl

@[simp] lemma Threaded.elsewhere_unknown : elsewhere ip rs .unknown = .unknown := rfl

@[simp] lemma Threaded.elsewhere_ite {p : Prop} [Decidable p] {x y : Outcome PyError Threaded} :
    elsewhere ip rs (if p then x else y) =
      if p then elsewhere ip rs x else elsewhere ip rs y := apply_ite ..

end Elsewhere

/-- The words on the memory and the devices do the same everywhere. -/
lemma Threaded.perform_elsewhere (words : Lexicon) (s : Workspace) (ip : ℤ) (base : List ℤ)
    (own : w ≠ .LIT) (own' : w ≠ .EXIT) (own'' : ∀ sw, w ≠ .stack sw) :
    (s.threaded ip base).perform words w =
      elsewhere ip (s.rs ++ base) ((s.threaded 0 []).perform words w) := by
  have convert : ∀ f, (s.threaded ip base).convert f =
      elsewhere ip (s.rs ++ base) ((s.threaded 0 []).convert f) := by
    intro f
    rcases stack : s.ds with _ | ⟨a, ds⟩
    · simp [Threaded.convert, Workspace.threaded, stack]
    · rcases found : (stringAt? s.mem a).bind f with _ | ⟨x, y⟩ <;>
        simp [Threaded.convert, Workspace.threaded, stack, found]
  cases w with
  | LIT => exact absurd rfl own
  | EXIT => exact absurd rfl own'
  | stack sw => exact absurd rfl (own'' sw)
  | BYE => rfl
  | FETCH | CFETCH =>
    rcases stack : s.ds with _ | ⟨a, ds⟩
    · simp [Threaded.perform, Threaded.fetch, Workspace.threaded, stack]
    · cases place : cellOf a <;>
        simp [Threaded.perform, Threaded.fetch, Workspace.threaded, stack, place]
  | STOREW | CSTOREW =>
    rcases stack : s.ds with _ | ⟨a, _ | ⟨x, ds⟩⟩
    · simp [Threaded.perform, Threaded.store, Workspace.threaded, stack]
    · simp [Threaded.perform, Threaded.store, Workspace.threaded, stack]
    · cases place : cellOf a <;>
        simp [Threaded.perform, Threaded.store, Workspace.threaded, stack, place]
  | KEY =>
    cases typed : s.input <;>
      simp [Threaded.perform, Workspace.threaded, typed]
  | EMIT =>
    cases stack : s.ds <;>
      simp [Threaded.perform, Workspace.threaded, stack]
  | NUMBER => exact convert _
  | FIND => exact convert _
  | WORD =>
    rcases stack : s.ds with _ | ⟨delim, ds⟩
    · simp [Threaded.perform, Threaded.readToken, Workspace.threaded, stack]
    · cases more : (s.input.dropWhile (· = delim)).dropWhile (· ≠ delim) <;>
        simp only [Threaded.perform, Threaded.readToken, Workspace.threaded, stack, more,
          elsewhere_ite, elsewhere_next, elsewhere_fail, elsewhere_unknown]

/-- A word of the kernel. -/
lemma KernelWord.carries (undamaged : words.Undamaged s.mem) (listed : k ∈ CODE_WORDS)
    (named : k.name = w.name) (invokes : Invokes s.mem ip k.routine_label) :
    Carries words (s.threaded ip base) (ip + 1) base (w.meaning words s base.length) := by
  have step : Threaded.step words (s.threaded ip base) = (s.threaded ip base).perform words w :=
    Threaded.step_word listed named invokes
  have elsewhere : w ≠ .LIT → w ≠ .EXIT → (∀ sw, w ≠ .stack sw) →
      Carries words (s.threaded ip base) (ip + 1) base
        (.ofOutcome words s.rs ((s.threaded 0 []).perform words w)) := by
    intro own own' own''
    rw [Threaded.perform_elsewhere words s ip base own own' own''] at step
    cases out : (s.threaded 0 []).perform words w with
    | next t =>
      rw [out] at step
      rw [Meaning.ofOutcome]
      split
      · rename_i undamaged'
        exact ⟨undamaged', .one step⟩
      · trivial
    | fail e =>
      rw [out] at step
      exact fails_step step
    | halt => trivial
    | unknown => trivial
  cases w with
  | LIT => trivial
  | EXIT => trivial
  | BYE => trivial
  | stack sw =>
    rw [meaning]
    cases depth : sw.returnDepth s.rs.length with
    | none => trivial
    | some left =>
      have split : sw.verdict s.ds (s.rs ++ base) 0 = (sw.verdict s.ds s.rs base.length).over base :=
        StackWord.verdict_over depth
      simp only [Threaded.perform, Workspace.threaded, split] at step
      cases verdict : sw.verdict s.ds s.rs base.length with
      | ok ds rs =>
        rw [verdict] at step
        exact ⟨undamaged, .one step⟩
      | fault e =>
        rw [verdict] at step
        exact fails_step step
      | diverges =>
        rw [verdict] at step
        exact diverges_step step
  | _ => exact elsewhere (by simp) (by simp) (by simp)

end Words

section Threads

variable {words : Lexicon} {env : Env} {word_cfas : PyDict ℤ} {s : Workspace} {ip : ℤ}
  {base : List ℤ}

/-- A word of the kernel, or a colon word under a name that threads do not rely on. -/
def Genuine : WordSpecDto → Prop
  | .code w => w ∈ CODE_WORDS
  | .colon w => w.name ∉ RESERVED

/-- The words of the table do what they mean. -/
def WordsCarry (words : Lexicon) (env : Env) (word_cfas : PyDict ℤ) : Prop :=
  ∀ (name : PyStr) (s : Workspace) (ip : ℤ) (base : List ℤ), words.Undamaged s.mem →
    DICTIONARY_BASE ≤ ip → ip < words.dictionary.dp →
    word_cfas.lookup name = some (words.cell ip) →
    Carries words (s.threaded ip base) (ip + 1) base (meaning words env name s base.length)

/-- A cell that holds what a reserved name denotes calls the word of that name. -/
def ReservedInvoke (words : Lexicon) (word_cfas : PyDict ℤ) : Prop :=
  ∀ w : KernelWord, w.name ∈ RESERVED → ∀ (t : Threaded), words.Undamaged t.mem →
    DICTIONARY_BASE ≤ t.ip → t.ip < words.dictionary.dp →
    word_cfas.lookup w.name = some (words.cell t.ip) →
    Threaded.step words t = t.perform words w

/-- A cell that calls a CODE word, in memory that still holds the threads. -/
lemma Lexicon.Undamaged.invokes {mem : ℤ → ℤ} {k : CodeWordDto} (h : words.Undamaged mem)
    (fits : words.dictionary.dp ≤ WORD_BUFFER_BASE) (lo : DICTIONARY_BASE ≤ ip)
    (hi : ip < words.dictionary.dp) (lo' : DICTIONARY_BASE ≤ words.cell ip)
    (hi' : words.cell ip < words.dictionary.dp)
    (label : label_index kernelLabels k.routine_label = .ok (words.cell (words.cell ip))) :
    Invokes mem ip k.routine_label := by
  have lay := Layout.values
  have cell := h.cell lo hi
  have code_field := h.cell lo' hi'
  rw [label_index] at label
  split at label
  · rename_i found
    cases label
    refine ⟨by omega, by omega, by omega, by omega, ?_⟩
    rw [cell, code_field]
    exact found
  · cases label

/-- A reserved name denotes the CODE word of that name. -/
lemma Threads.reservedInvoke (h : Threads words.cell words.dictionary.dp env word_cfas)
    (genuine : ∀ word ∈ env, Genuine word) (fits : words.dictionary.dp ≤ WORD_BUFFER_BASE) :
    ReservedInvoke words word_cfas := by
  intro w res t undamaged lo hi found
  induction env generalizing word_cfas with
  | nil =>
    cases h
    cases found
  | cons word env ih =>
    obtain ⟨here, genuine'⟩ := List.forall_mem_cons.mp genuine
    cases word with
    | code k =>
      obtain ⟨older, cfa, rfl, lo', hi', label, rest⟩ := h
      rw [PyDict.lookup_setItem] at found
      split at found
      · rename_i same
        obtain rfl := Option.some.inj found
        exact Threaded.step_word here same.symm
          (undamaged.invokes fits lo hi lo' hi' label)
      · exact ih rest genuine' found
    | colon k =>
      obtain ⟨older, cfa, thread, rfl, -, -, -, -, -, rest⟩ := h
      rw [PyDict.lookup_setItem, if_neg] at found
      · exact ih rest genuine' found
      · intro same
        exact here (same ▸ res)

/-- Items run one after the other. -/
lemma items_carry (base : List ℤ) (each : WordsCarry words env word_cfas)
    (reserved : ReservedInvoke words word_cfas) {items : List Item} (s : Workspace)
    (undamaged : words.Undamaged s.mem) (laid : Laid word_cfas words.cell ip items)
    (lo : DICTIONARY_BASE ≤ ip) (hi : ip + itemsSize items ≤ words.dictionary.dp) :
    Carries words (s.threaded ip base) (ip + itemsSize items) base
      (meaningItems (meaning words env) items s base.length) := by
  induction items generalizing s ip with
  | nil =>
    rw [itemsSize, Int.natCast_zero, Int.add_zero]
    exact ⟨undamaged, .refl⟩
  | cons item items ih =>
    cases item with
    | lit n =>
      obtain ⟨lit, cell, rest⟩ := laid
      simp only [itemsSize, Nat.cast_add, Nat.cast_ofNat] at hi ⊢
      have step := reserved .LIT (by simp [RESERVED, KernelWord.name]) (s.threaded ip base)
        undamaged lo (by simp only [Workspace.threaded]; omega) lit
      have stop : ip + ((itemsSize items : ℤ) + 2) = ip + 2 + itemsSize items := by omega
      have literal : s.mem (ip + 1) = n := (undamaged.cell (by omega) (by omega)).trans cell
      rw [meaningItems, stop]
      split
      · rename_i room
        refine (ih { s with ds := n :: s.ds } undamaged rest (by omega) (by omega)).after (.one ?_)
        rw [step]
        exact (if_pos room).trans (by rw [← literal]; rfl)
      · rename_i full
        refine fails_step ?_
        rw [step]
        exact if_neg full
    | word name =>
      obtain ⟨found, rest⟩ := laid
      simp only [itemsSize, Nat.cast_add, Nat.cast_one] at hi ⊢
      have stop : ip + ((itemsSize items : ℤ) + 1) = ip + 1 + itemsSize items := by omega
      have first := each name s ip base undamaged lo (by omega) found
      rw [meaningItems, stop]
      cases out : meaning words env name s base.length with
      | ok s' =>
        rw [out] at first
        obtain ⟨undamaged', r⟩ := first
        exact (ih s' undamaged' rest (by omega) (by omega)).after r
      | fault e =>
        rw [out] at first
        exact first
      | diverges =>
        rw [out] at first
        exact first
      | unknown => trivial

/-- A colon word. -/
lemma colon_carries {w : ColonWordDto} {thread : List ℤ} (each : WordsCarry words env word_cfas)
    (reserved : ReservedInvoke words word_cfas)
    (resolved : (w.words ++ [EXIT_WORD]).mapM (cfa_of word_cfas) = .ok thread)
    (undamaged : words.Undamaged s.mem) (fits : words.dictionary.dp ≤ WORD_BUFFER_BASE)
    (lo : DICTIONARY_BASE ≤ ip) (hi : ip < words.dictionary.dp)
    (lo' : DICTIONARY_BASE ≤ words.cell ip)
    (hi' : words.cell ip + 1 + thread.length ≤ words.dictionary.dp)
    (cell : words.cell (words.cell ip) = ENTER_INDEX)
    (cells : CellsAt words.cell (words.cell ip + 1) thread) :
    Carries words (s.threaded ip base) (ip + 1) base
      (if base.length + s.rs.length < 1024 then
        (meaningItems (meaning words env) (w.words.map .word) { s with rs := [] }
          (base.length + s.rs.length + 1)).leave s.rs
      else .fault .stackOverflow) := by
  have lay := Layout.values
  obtain ⟨len, laid, last⟩ := thread_laid resolved cells
  have at_ip : s.mem ip = words.cell ip := undamaged.cell lo hi
  have code_field : s.mem (s.mem ip) = ENTER_INDEX := by
    rw [at_ip, undamaged.cell lo' (by omega), cell]
  have size := itemsSize_words w.words
  have step : Threaded.step words (s.threaded ip base) = (s.threaded ip base).enter := by
    have inside : Threaded.InDictionary ip ∧ Threaded.InDictionary (s.mem ip) := by
      rw [at_ip]
      exact ⟨⟨by omega, by omega⟩, by omega, by omega⟩
    exact (if_pos inside).trans (if_pos code_field)
  have depth : (s.rs ++ base).length = base.length + s.rs.length := by
    rw [List.length_append, Nat.add_comm]
  split
  · rename_i room
    -- Inside, the return stack of the body is empty, over the way back and the cells before.
    let body : Workspace := { s with rs := [] }
    let back := (ip + 1) :: (s.rs ++ base)
    have enter : Threaded.step words (s.threaded ip base) =
        .next (body.threaded (words.cell ip + 1) back) := by
      rw [step, ← at_ip]
      exact if_pos (depth ▸ room)
    have run := items_carry back each reserved body undamaged laid (by omega) (by omega)
    rw [List.length_cons, depth] at run
    cases out : meaningItems (meaning words env) (w.words.map .word) body
        (base.length + s.rs.length + 1) with
    | ok s' =>
      rw [out, size] at run
      obtain ⟨undamaged', r⟩ := run
      rw [Meaning.leave]
      split
      · rename_i empty
        refine ⟨undamaged', .head enter (r.trans (.one ?_))⟩
        rw [reserved .EXIT (by simp [RESERVED, KernelWord.name])
          (s'.threaded (words.cell ip + 1 + w.words.length) back) undamaged'
          (by simp only [Workspace.threaded]; omega)
          (by simp only [Workspace.threaded]; omega) last]
        simp only [Threaded.perform, Workspace.threaded, empty, back, List.nil_append]
      · trivial
    | fault e =>
      rw [out] at run
      exact Reaches.fails (.one enter) run
    | diverges =>
      rw [out] at run
      exact Reaches.diverges (.one enter) run
    | unknown => trivial
  · rename_i full
    refine fails_step ?_
    rw [step]
    exact if_neg (depth ▸ full)

/-- The words of an environment do what they mean. -/
lemma Threads.carry (h : Threads words.cell words.dictionary.dp env word_cfas)
    (genuine : ∀ word ∈ env, Genuine word) (fits : words.dictionary.dp ≤ WORD_BUFFER_BASE) :
    WordsCarry words env word_cfas := by
  intro name s ip base undamaged lo hi found
  induction env generalizing word_cfas name s ip base with
  | nil =>
    cases h
    cases found
  | cons word env ih =>
    obtain ⟨here, genuine'⟩ := List.forall_mem_cons.mp genuine
    cases word with
    | code k =>
      obtain ⟨older, cfa, rfl, lo', hi', label, rest⟩ := h
      rw [PyDict.lookup_setItem] at found
      rw [meaning]
      by_cases same : k.name = name
      · subst same
        rw [if_pos rfl] at found ⊢
        obtain rfl := Option.some.inj found
        cases known : KernelWord.ofName? k.name with
        | none => trivial
        | some w =>
          exact KernelWord.carries undamaged here (KernelWord.name_of_ofName? known).symm
            (undamaged.invokes fits lo hi lo' hi' label)
      · rw [if_neg same]
        rw [if_neg (Ne.symm same)] at found
        exact ih rest genuine' name s ip base undamaged lo hi found
    | colon k =>
      obtain ⟨older, cfa, thread, rfl, lo', cell, cells, hi', resolved, rest⟩ := h
      rw [PyDict.lookup_setItem] at found
      rw [meaning]
      by_cases same : k.name = name
      · subst same
        rw [if_pos rfl] at found ⊢
        obtain rfl := Option.some.inj found
        exact colon_carries (ih rest genuine') (rest.reservedInvoke genuine' fits) resolved
          undamaged fits lo hi lo' hi' cell cells
      · rw [if_neg same]
        rw [if_neg (Ne.symm same)] at found
        exact ih rest genuine' name s ip base undamaged lo hi found

end Threads

section Names

variable {words : Lexicon} {env newer : Env} {name : PyStr} {s : Workspace} {below : ℕ}
  {colon_words : List ColonWordDto}

/-- Newer words of other names do not count. -/
lemma meaning_older (other : ∀ word ∈ newer, word.name ≠ name) :
    meaning words (newer ++ env) name s below = meaning words env name s below := by
  induction newer with
  | nil => rfl
  | cons word newer ih =>
    obtain ⟨ne, other⟩ := List.forall_mem_cons.mp other
    have rest := ih other
    cases word with
    | code w => exact (if_neg ne).trans rest
    | colon w => exact (if_neg ne).trans rest

/-- The name of a word of the kernel, where no colon word has taken it over. -/
lemma meaning_kernel_word (w : KernelWord) (own : ∀ c ∈ colon_words, c.name ≠ w.name) :
    meaning words (envOf colon_words) w.name s below = w.meaning words s below := by
  have listed : w.name ∈ CODE_WORDS.reverse.map CodeWordDto.name := by
    rw [List.map_reverse, List.mem_reverse, ← KernelWord.names]
    exact List.mem_map_of_mem w.mem_all
  have env : envOf colon_words =
      (colon_words.map .colon).reverse ++ CODE_WORDS.reverse.map .code := by
    rw [envOf, specs, List.reverse_append, List.map_reverse]
  rw [env, meaning_older]
  · generalize CODE_WORDS.reverse = ks at listed
    induction ks with
    | nil => cases listed
    | cons k ks ih =>
      rw [List.map_cons, meaning]
      split
      · rw [KernelWord.ofName?_name]
      · rename_i ne
        exact ih ((List.mem_cons.mp listed).resolve_left (Ne.symm ne))
  · intro word mem
    obtain ⟨c, listed, rfl⟩ := List.mem_map.mp (List.mem_reverse.mp mem)
    exact own c listed

/-- The words of a program are genuine, unless a colon word takes a reserved name. -/
lemma genuine_envOf (own : ∀ w ∈ colon_words, w.name ∉ RESERVED) :
    ∀ word ∈ envOf colon_words, Genuine word := by
  intro word mem
  rw [envOf, List.mem_reverse, specs, List.mem_append] at mem
  rcases mem with code | colon
  · obtain ⟨k, mem, rfl⟩ := List.mem_map.mp code
    exact mem
  · obtain ⟨w, mem, rfl⟩ := List.mem_map.mp colon
    exact own w mem

/-- So are those of a sound environment. -/
lemma Sound.genuine (sound : Sound env) : ∀ word ∈ env, Genuine word := by
  induction env with
  | nil => exact List.forall_mem_nil _
  | cons word env ih =>
    cases word with
    | code w => exact List.forall_mem_cons.mpr ⟨sound.1, ih sound.2⟩
    | colon w => exact List.forall_mem_cons.mpr ⟨sound.1, ih sound.2.2⟩

end Names

section Verdicts

variable {words : Lexicon} {env : Env} {items : List Item} {depth : ℕ}

/-- The meaning is the verdict on the stacks, and so many cells stay on the own return stack. -/
def SameVerdict (s : Workspace) (depth : ℕ) (m : Meaning) (f : Option Verdict) : Prop :=
  ∃ v, f = some v ∧ m = .ofVerdict s v ∧ ∀ ds rs, v = .ok ds rs → rs.length = depth

/-- Items one after the other. -/
lemma items_sameVerdict (each : ∀ (name : PyStr) (s : Workspace) (below depth : ℕ),
      wordDepth env name s.rs.length = some depth →
      SameVerdict s depth (meaning words env name s below) (call env name s.ds s.rs below))
    (s : Workspace) (below : ℕ) (hd : itemsDepth env items s.rs.length = some depth) :
    SameVerdict s depth (meaningItems (meaning words env) items s below)
      (runItems (call env) items s.ds s.rs below) := by
  induction items generalizing s with
  | nil =>
    refine ⟨.ok s.ds s.rs, rfl, rfl, fun ds rs e => ?_⟩
    cases e
    exact Option.some.inj hd
  | cons item items ih =>
    cases item with
    | lit n =>
      rw [meaningItems, runItems]
      split
      · exact ih { s with ds := n :: s.ds } hd
      · exact ⟨.fault .stackOverflow, rfl, rfl, fun ds rs e => by cases e⟩
    | word name =>
      obtain ⟨between, one, hd⟩ := Option.bind_eq_some_iff.mp hd
      obtain ⟨v, e, same, leaves⟩ := each name s below between one
      rw [meaningItems, runItems, e, same]
      cases v with
      | ok ds rs =>
        rw [← leaves ds rs rfl] at hd
        exact ih { s with ds := ds, rs := rs } hd
      | fault err => exact ⟨.fault err, rfl, rfl, fun ds rs e => by cases e⟩
      | diverges => exact ⟨.diverges, rfl, rfl, fun ds rs e => by cases e⟩

/-- Where the words on the stacks have a verdict, it is what they mean. -/
lemma Sound.sameVerdict (sound : Sound env) (name : PyStr) (s : Workspace) (below depth : ℕ)
    (hd : wordDepth env name s.rs.length = some depth) :
    SameVerdict s depth (meaning words env name s below) (call env name s.ds s.rs below) := by
  induction env generalizing name s below depth with
  | nil => cases hd
  | cons word env ih =>
    cases word with
    | code k =>
      rw [wordDepth] at hd
      rw [meaning, call]
      by_cases same : k.name = name
      · rw [if_pos same] at hd ⊢
        rw [if_pos same]
        obtain ⟨w, known, hd⟩ := Option.bind_eq_some_iff.mp hd
        have known' : KernelWord.ofName? name = some (.stack w) := by
          rw [← StackWord.name_of_ofName? known]
          exact KernelWord.ofName?_name (.stack w)
        rw [known, known']
        refine ⟨w.verdict s.ds s.rs below, rfl, ?_, fun ds rs e => ?_⟩
        · simp only [KernelWord.meaning, hd]
        · exact StackWord.comment_depth hd (StackWord.verdict_ok e).1
      · rw [if_neg same] at hd ⊢
        rw [if_neg same]
        exact ih sound.2 name s below depth hd
    | colon w =>
      rw [wordDepth] at hd
      rw [meaning, call]
      by_cases same : w.name = name
      · rw [if_pos same] at hd ⊢
        rw [if_pos same]
        obtain rfl := Option.some.inj hd
        split
        · obtain ⟨v, e, body, leaves⟩ := items_sameVerdict (ih sound.2.2) { s with rs := [] }
            (below + s.rs.length + 1) sound.2.1
          simp only at e
          rw [body, e]
          cases v with
          | ok ds rs =>
            obtain rfl : rs = [] := List.eq_nil_of_length_eq_zero (leaves ds rs rfl)
            refine ⟨.ok ds s.rs, rfl, rfl, fun ds' rs' e' => ?_⟩
            cases e'
            rfl
          | fault err => exact ⟨.fault err, rfl, rfl, fun ds rs e => by cases e⟩
          | diverges => exact ⟨.diverges, rfl, rfl, fun ds rs e => by cases e⟩
        · exact ⟨.fault .stackOverflow, rfl, rfl, fun ds rs e => by cases e⟩
      · rw [if_neg same] at hd ⊢
        rw [if_neg same]
        exact ih sound.2.2 name s below depth hd

end Verdicts

section System

variable {n : ℕ} {m m' : ListMemoryAdapter n} {d d' : Dictionary} {colon_words : List ColonWordDto}
  {items : List Item}

/-- What an emulator holds, for a body that has put nothing on the return stack. -/
def Workspace.of (s : EmulatorService) : Workspace where
  ds := s.data.contents.ds
  rs := []
  mem := s.data.contents.mem
  input := s.char_input
  output := s.char_output

/-- The emulator ends as a meaning says, with these cells below the own return stack. -/
def EndsAs (s : EmulatorService) (base : List ℤ) : Meaning → Prop
  | .ok w => ∃ u, Halts EmulatorService.advance s u ∧
      u.data.contents = ⟨w.ds, w.rs ++ base, w.mem⟩ ∧ u.char_input = w.input ∧
      u.char_output = w.output
  | .fault e => Fails EmulatorService.advance s e
  | .diverges => Diverges EmulatorService.advance s
  | .unknown => True

/-- What a build has left for the threaded machine. -/
lemma build_lays [UnicodeData] (rep : Represents m d) {boot : List ThreadItemDto}
    {image : KernelImageDto} (run : build colon_words boot m = .ok image m')
    (rep' : Represents m' d') :
    ∃ word_cfas ip cells, image = ⟨kernelProgram, word_cfas, ip⟩ ∧
      (d'.dp ≤ DICTIONARY_TOP → Threads m'.cell d'.dp (envOf colon_words) word_cfas) ∧
      bootCells word_cfas boot = .ok cells ∧ CellsAt m'.cell ip cells ∧ DICTIONARY_BASE ≤ ip ∧
      ip + cells.length = d'.dp := by
  obtain ⟨d₁, word_cfas, cells, laid, resolved, image_eq, rep₁, boot_at, -⟩ := build_adds rep run
  have stop : m'.cell DP_ADDR = d'.dp := rep'.ready.dp
  have stop₁ : m'.cell DP_ADDR = d₁.dp + cells.length := rep₁.ready.dp
  have base := d₁.linked.base_le
  refine ⟨word_cfas, d₁.dp, cells, image_eq, fun low => ?_, resolved, boot_at, base, by omega⟩
  have empty : Threads m'.cell d'.dp [] [] := rfl
  have all := empty.laidOut laid ⟨by omega, rep₁.stored⟩ (by omega)
  rwa [List.append_nil] at all

/-- The threaded machine ends as a meaning says, with these cells below the own return stack. -/
def Threaded.EndsAs (words : Lexicon) (t : Threaded) (base : List ℤ) : Meaning → Prop
  | .ok w => ∃ ip, Halts (step words) t (w.threaded ip base)
  | .fault e => Fails (step words) t e
  | .diverges => Diverges (step words) t
  | .unknown => True

/-- A boot thread that the dictionary holds, on the threaded machine. -/
lemma Threads.boot_ends {env : Env} {word_cfas : PyDict ℤ} {ip : ℤ} {cells : List ℤ}
    (threads : Threads m.cell d.dp env word_cfas) (genuine : ∀ word ∈ env, Genuine word)
    (fits : d.dp ≤ WORD_BUFFER_BASE)
    (resolved : bootCells word_cfas (bootThread items) = .ok cells)
    (boot_at : CellsAt m.cell ip cells) (lo : DICTIONARY_BASE ≤ ip)
    (hi : ip + cells.length ≤ d.dp) {w : Workspace} (base : List ℤ)
    (undamaged : Lexicon.Undamaged ⟨m.cell, d⟩ w.mem) :
    Threaded.EndsAs ⟨m.cell, d⟩ (w.threaded ip base) base
      (meaningItems (meaning ⟨m.cell, d⟩ env) items w base.length) := by
  have lay := Layout.values
  let words : Lexicon := ⟨m.cell, d⟩
  have reserved : ReservedInvoke words word_cfas := threads.reservedInvoke genuine fits
  obtain ⟨len, laid, last⟩ := boot_laid resolved boot_at
  have carries := items_carry base (threads.carry genuine fits) reserved w undamaged laid lo
    (by simp only [words]; omega)
  show Threaded.EndsAs words _ base (meaningItems (meaning words env) items w base.length)
  cases out : meaningItems (meaning words env) items w base.length with
  | ok w' =>
    rw [out] at carries
    obtain ⟨undamaged', r⟩ := carries
    have bye : Threaded.step words (w'.threaded (ip + itemsSize items) base) = .halt :=
      reserved .BYE (by simp [RESERVED, KernelWord.name]) _ undamaged'
        (by simp only [Workspace.threaded]; omega)
        (by simp only [Workspace.threaded, words]; omega) last
    exact ⟨_, r, bye⟩
  | fault e =>
    rw [out] at carries
    exact carries
  | diverges =>
    rw [out] at carries
    exact carries
  | unknown => trivial

/-- An image whose threads the machine holds. -/
lemma Threads.image_means {env : Env} {word_cfas : PyDict ℤ} {ip : ℤ} {cells : List ℤ}
    (rep : Represents m d) (threads : Threads m.cell d.dp env word_cfas)
    (genuine : ∀ word ∈ env, Genuine word) (fits : d.dp ≤ WORD_BUFFER_BASE)
    (resolved : bootCells word_cfas (bootThread items) = .ok cells)
    (boot_at : CellsAt m.cell ip cells) (lo : DICTIONARY_BASE ≤ ip)
    (hi : ip + cells.length ≤ d.dp) {s : EmulatorService}
    (undamaged : Lexicon.Undamaged ⟨m.cell, d⟩ s.data.contents.mem) :
    EndsAs (boot s ⟨kernelProgram, word_cfas, ip⟩) s.data.contents.rs
      (meaningItems (meaning ⟨m.cell, d⟩ env) items (.of s) s.data.contents.rs.length) := by
  have lay := Layout.values
  have ends := threads.boot_ends genuine fits resolved boot_at lo hi (w := .of s)
    s.data.contents.rs undamaged
  obtain ⟨u, r, next⟩ := boot_next s ⟨kernelProgram, word_cfas, ip⟩ rfl
  have implements := kernel_implements rep (by omega)
  have shows : Shows ⟨m.cell, d⟩ u ((Workspace.of s).threaded ip s.data.contents.rs) := .next next
  cases out : meaningItems (meaning ⟨m.cell, d⟩ env) items (.of s) s.data.contents.rs.length with
  | ok w =>
    rw [out] at ends
    obtain ⟨_, h⟩ := ends
    obtain ⟨x, halts, final⟩ := implements.halts shows h
    exact ⟨x, r.halts halts, DataPath.Contents.ext final.ds final.rs final.mem, final.input,
      final.output⟩
  | fault e =>
    rw [out] at ends
    exact r.fails (implements.fails shows ends)
  | diverges =>
    rw [out] at ends
    exact r.diverges (implements.diverges shows ends)
  | unknown => trivial

/-- A machine that holds the dictionary holds the threads. -/
lemma undamaged_of_holds {s : EmulatorService} (low : d.dp ≤ DICTIONARY_TOP)
    (holds : ∀ i, DICTIONARY_BASE ≤ i → i < d.dp → s.data.memory.cell i = m.cell i) :
    Lexicon.Undamaged ⟨m.cell, d⟩ s.data.contents.mem := by
  have lay := Layout.values
  intro i lt lo
  have high : (i : ℤ) < d.dp := by
    simp only at lt
    omega
  rw [contents_mem ⟨by omega, by omega⟩]
  exact holds i lo high

/-- `: SHOUT KEY DUP EMIT EMIT ;`. -/
def shout : ColonWordDto := ⟨"SHOUT", ["KEY", "DUP", "EMIT", "EMIT"], false⟩

/-- `SHOUT` writes a character twice. -/
lemma meaning_shout {words : Lexicon} {mem : ℤ → ℤ} (undamaged : words.Undamaged mem) (c : ℤ)
    (input output : List ℤ) :
    meaning words (envOf [shout]) "SHOUT" ⟨[], [], mem, c :: input, output⟩ 0 =
      .ok ⟨[], [], mem, input, output ++ [c] ++ [c]⟩ := by
  have env : envOf [shout] = .colon shout :: envOf [] := by
    simp [envOf, specs]
  have named : ∀ w : KernelWord, ∀ s below,
      meaning words (envOf []) w.name s below = w.meaning words s below :=
    fun w s below => meaning_kernel_word w (List.forall_mem_nil _)
  have body : shout.words.map Item.word = [.word KernelWord.KEY.name,
      .word (KernelWord.stack .DUP).name, .word KernelWord.EMIT.name,
      .word KernelWord.EMIT.name] := rfl
  have here : shout.name = py "SHOUT" := rfl
  rw [env, meaning, if_pos here, body]
  simp [meaningItems, named, KernelWord.meaning, StackWord.returnDepth, StackWord.verdict,
    StackWord.comment, StackWord.Endless, Meaning.ofVerdict, Meaning.ofOutcome, Meaning.leave,
    Threaded.perform, Workspace.threaded, undamaged]

/-- A machine with cleared stacks, on the keyboard of which something has been typed. -/
lemma of_typing (input : List ℤ) (m : MachineMemory) :
    Workspace.of (typing input m) = ⟨[], [], (typing input m).data.contents.mem, input, []⟩ := by
  have empty : (typing input m).data.contents.ds = [] := DownwardStackAdapter.contents_init m
  rw [Workspace.of, empty]
  rfl

/-- The threaded machine that starts on it. -/
lemma Threaded.start_typing (input : List ℤ) (m : MachineMemory) (ip : ℤ) :
    Threaded.start (typing input m) ip = (Workspace.of (typing input m)).threaded ip [] := by
  have empty : (typing input m).data.contents.rs = [] := DownwardStackAdapter.contents_init m
  rw [Threaded.start, empty]
  rfl

/-- An image that the builder returns, booted on any machine, runs as the threaded machine does. For
    every memory and dictionary that the build starts from, all colon words and boot threads, and
    whatever the registers, the stacks, the memory and the devices of the machine hold: the emulator
    comes to every state of the threaded machine's run; and where the threaded machine knows all of
    its run, the emulator halts with the same stacks, memory, input and output, fails with the same
    error, or runs forever, exactly when the threaded machine does. -/
theorem kernel_refines [UnicodeData] (rep : Represents m d) {colon_words : List ColonWordDto}
    {thread : List ThreadItemDto} {image : KernelImageDto}
    (run : KernelBuilder.build colon_words thread m = .ok image m') (rep' : Represents m' d')
    (fits : d'.dp ≤ DICTIONARY_TOP) (s : EmulatorService) :
    let machine := Threaded.step ⟨m'.cell, d'⟩
    let start := Threaded.start s image.boot_ip
    (∀ t, Reaches machine start t →
      ∃ u, Reaches EmulatorService.advance (boot s image) u ∧ Shows ⟨m'.cell, d'⟩ u t) ∧
    (Known machine start →
      SameEnd HaltedAs EmulatorService.advance machine (boot s image) start) := by
  intro machine start
  have program : image.program = kernelProgram := by
    obtain ⟨_, _, _, -, -, rfl, -⟩ := KernelBuilder.build_inv rep run
    rfl
  obtain ⟨u, r, next⟩ := boot_next s image program
  have implements := kernel_implements rep' fits
  have shows : Shows ⟨m'.cell, d'⟩ u start := .next next
  refine ⟨fun t r' => ?_, fun known => ?_⟩
  · obtain ⟨x, r'', shows'⟩ := implements.reaches shows r'
    exact ⟨x, r.trans r'', shows'⟩
  · exact (implements.sameEnd shows known).before r

section Instances

attribute [local instance] UnicodeData.ascii

/-- The build of `SHOUT SHOUT`. -/
lemma build_shout : ∃ (m₀ : MachineMemory) (d₀ : Dictionary) (image : KernelImageDto)
    (m' : MachineMemory) (d : Dictionary), Represents m₀ d₀ ∧
    build [shout] (bootThread [.word "SHOUT", .word "SHOUT"]) m₀ = .ok image m' ∧
    buildFresh [shout] (bootThread [.word "SHOUT", .word "SHOUT"]) (.zeroed MEMORY_SIZE.toNat) =
      .ok image m' ∧
    Represents m' d ∧ d.dp = DICTIONARY_BASE + 321 := by
  have resolvable : Resolvable [shout] (bootThread [.word "SHOUT", .word "SHOUT"]) :=
    ⟨by decide +kernel, by decide +kernel⟩
  obtain ⟨image, m', fresh, dp⟩ := builds 321 resolvable (by decide +kernel) (by decide)
  obtain ⟨m₀, e₀, rep, -⟩ := init_represents (.zeroed MEMORY_SIZE.toNat) (by decide)
  have run := fresh
  rw [buildFresh, bind_ok e₀] at run
  obtain ⟨d', word_cfas, cells, -, -, -, rep', -⟩ := build_inv rep run
  exact ⟨m₀, _, image, m', _, rep, run, fresh, rep', rep'.ready.dp.symm.trans dp⟩

/-- `SHOUT SHOUT`, with two characters typed: the threaded machine knows all of its run, and the
    emulator halts as it does. -/
theorem kernel_refines_shout : ∃ image m' d t u,
    buildFresh [shout] (bootThread [.word "SHOUT", .word "SHOUT"]) (.zeroed MEMORY_SIZE.toNat) =
      .ok image m' ∧
    Represents m' d ∧
    (∀ v, Reaches (Threaded.step ⟨m'.cell, d⟩) (.start (typing [72, 105] m') image.boot_ip) v →
      ∃ x, Reaches EmulatorService.advance (boot (typing [72, 105] m') image) x ∧
        Shows ⟨m'.cell, d⟩ x v) ∧
    Known (Threaded.step ⟨m'.cell, d⟩) (.start (typing [72, 105] m') image.boot_ip) ∧
    Halts (Threaded.step ⟨m'.cell, d⟩) (.start (typing [72, 105] m') image.boot_ip) t ∧
    Halts EmulatorService.advance (boot (typing [72, 105] m') image) u ∧ HaltedAs u t ∧
    u.char_output = [72, 72, 105, 105] := by
  obtain ⟨m₀, d₀, image, m', d, rep, run, fresh, rep', dp⟩ := build_shout
  have fits : d.dp ≤ DICTIONARY_TOP := by rw [dp]; decide
  obtain ⟨word_cfas, ip, cells, rfl, threads, resolved, boot_at, lo, hi⟩ := build_lays rep run rep'
  have start := of_typing [72, 105] m'
  have undamaged : Lexicon.Undamaged ⟨m'.cell, d⟩ (typing [72, 105] m').data.contents.mem :=
    undamaged_of_holds fits fun i lo hi => rfl
  have ends := (threads fits).boot_ends (genuine_envOf (by decide +kernel)) (by rw [dp]; decide)
    resolved boot_at lo (by omega) (w := .of (typing [72, 105] m')) [] undamaged
  rw [start] at ends
  simp only [meaningItems, List.length_nil, meaning_shout undamaged] at ends
  obtain ⟨_, halts⟩ := ends
  rw [← start, ← Threaded.start_typing] at halts
  obtain ⟨states, ends⟩ := kernel_refines rep run rep' fits (typing [72, 105] m')
  obtain ⟨u, halts', final⟩ := (ends halts.known).halts _ halts
  exact ⟨_, m', d, _, u, fresh, rep', states, halts.known, halts, halts', final, final.output⟩

end Instances

/-- Programs of all words do what they mean. For every memory and dictionary that the build starts
    from, all colon words that leave the reserved names alone, and all boot threads, if the
    dictionary stays below the token buffer; and on any machine that holds the dictionary, whatever
    its stacks, the rest of its memory and its devices: where the program has a meaning, the
    emulator halts with the stacks, the memory, the input and the output that it says, fails with
    the same error, or runs forever. -/
theorem programs_mean [UnicodeData] (rep : Represents m d) {image : KernelImageDto}
    (run : build colon_words (bootThread items) m = .ok image m') (rep' : Represents m' d')
    (fits : d'.dp ≤ WORD_BUFFER_BASE) (own : ∀ w ∈ colon_words, w.name ∉ RESERVED)
    {s : EmulatorService}
    (holds : ∀ i, DICTIONARY_BASE ≤ i → i < d'.dp → s.data.memory.cell i = m'.cell i) :
    EndsAs (boot s image) s.data.contents.rs
      (meaningItems (meaning ⟨m'.cell, d'⟩ (envOf colon_words)) items (.of s)
        s.data.contents.rs.length) := by
  have lay := Layout.values
  obtain ⟨word_cfas, ip, cells, rfl, threads, resolved, boot_at, lo, hi⟩ := build_lays rep run rep'
  exact (threads (by omega)).image_means rep' (genuine_envOf own) fits resolved boot_at lo
    (by omega) (undamaged_of_holds (by omega) holds)

section Instances

attribute [local instance] UnicodeData.ascii

/-- `SHOUT SHOUT`, with two characters typed. -/
theorem programs_mean_shout : ∃ image m' u,
    buildFresh [shout] (bootThread [.word "SHOUT", .word "SHOUT"]) (.zeroed MEMORY_SIZE.toNat) =
      .ok image m' ∧
    Halts EmulatorService.advance (boot (typing [72, 105] m') image) u ∧
    u.char_output = [72, 72, 105, 105] := by
  obtain ⟨m₀, d₀, image, m', d, rep, run, fresh, rep', dp⟩ := build_shout
  have holds : ∀ i, DICTIONARY_BASE ≤ i → i < d.dp →
      (typing [72, 105] m').data.memory.cell i = m'.cell i := fun i lo hi => rfl
  have ends := programs_mean rep run rep' (by rw [dp]; decide) (by decide +kernel) holds
  have undamaged := undamaged_of_holds (by rw [dp]; decide) holds
  have empty : (typing [72, 105] m').data.contents.rs = [] :=
    DownwardStackAdapter.contents_init m'
  rw [of_typing, empty] at ends
  simp only [meaningItems, List.length_nil, meaning_shout undamaged] at ends
  obtain ⟨u, halts, -, -, output⟩ := ends
  exact ⟨image, m', u, fresh, halts, output⟩

end Instances

end System

end MinCpuForth.Kernel
