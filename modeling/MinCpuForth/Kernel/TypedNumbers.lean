import MinCpuForth.Kernel.Meaning

/-!
# Programs that ask for numbers

`LIT delim WORD NUMBER` in a boot thread reads the next token of the input, and leaves the number
that it spells under a flag. Once something has been typed, the program does what it would do with
the numbers and the flags in the thread.
-/

namespace MinCpuForth.Kernel
open Python Domain Layout Adapters Emulator Lib Decimal KernelBuilder MemoryDictionaryAdapter

/-- What a boot thread that asks for numbers is made of. -/
inductive Clause where
  | item (i : Item)
  | ask (delim : ℤ)
  deriving DecidableEq, Repr

/-- The items of a clause. -/
def Clause.items : Clause → List Item
  | .item i => [i]
  | .ask delim => [.lit delim, .word "WORD", .word "NUMBER"]

/-- The items of a boot thread. -/
def asking (clauses : List Clause) : List Item := (clauses.map Clause.items).flatten

/-- The number that a token spells, and the flag, as literals. -/
def literals (codes : List ℤ) : List Item :=
  [.lit (parsed (signed? codes)).1, .lit (parsed (signed? codes)).2]

/-- The items with literals for what has been typed, and the input that is left; `none` if the input
    ends too early or a token does not fit into the token buffer. -/
def answered : List Clause → List ℤ → Option (List Item × List ℤ)
  | [], input => some ([], input)
  | .item i :: clauses, input => (answered clauses input).map fun p => (i :: p.1, p.2)
  | .ask delim :: clauses, input =>
    match (input.dropWhile (· = delim)).dropWhile (· ≠ delim) with
    | [] => none
    | _ :: rest =>
      if (token delim input).length < WORD_BUFFER_SIZE then
        (answered clauses rest).map fun p => (literals (token delim input) ++ p.1, p.2)
      else none

/-- A program with this meaning does what the verdict says and has read the input up to `rest`. It
    may have written into the token buffer, and nothing is said of a stack that overflows. -/
def Replies (s : Workspace) (rest : List ℤ) (m : Meaning) : Verdict → Prop
  | .ok ds rs => ∃ mem, m = .ok ⟨ds, rs, mem, rest, s.output⟩ ∧
      ∀ i, i < WORD_BUFFER_BASE → mem i = s.mem i
  | .fault e => e = .stackOverflow ∨ m = .fault e
  | .diverges => m = .diverges

section Items

variable {env : Env} {f : PyStr → Workspace → ℕ → Meaning}
  {g : PyStr → List ℤ → List ℤ → ℕ → Option Verdict} {items items' : List Item} {s : Workspace}
  {below : ℕ}

/-- Items after others. -/
lemma meaningItems_append (f : PyStr → Workspace → ℕ → Meaning) (items items' : List Item)
    (s : Workspace) (below : ℕ) : meaningItems f (items ++ items') s below =
      match meaningItems f items s below with
      | .ok s' => meaningItems f items' s' below
      | other => other := by
  induction items generalizing s with
  | nil => rfl
  | cons item items ih =>
    cases item with
    | lit n =>
      rw [List.cons_append, meaningItems, meaningItems]
      split
      · exact ih _
      · rfl
    | word name =>
      rw [List.cons_append, meaningItems, meaningItems]
      cases f name s below with
      | ok s' => exact ih s'
      | fault e => rfl
      | diverges => rfl
      | unknown => rfl

/-- An item, and then others. -/
lemma runItems_cons (item : Item) (items : List Item) (ds rs : List ℤ) (below : ℕ) :
    runItems g (item :: items) ds rs below =
      match runItems g [item] ds rs below with
      | some (.ok ds' rs') => runItems g items ds' rs' below
      | other => other := by
  cases item with
  | lit n =>
    rw [runItems, runItems]
    split <;> rfl
  | word name =>
    rw [runItems, runItems]
    rcases g name ds rs below with _ | _ | _ | _ <;> rfl

/-- The same for the depth of the return stack. -/
lemma itemsDepth_cons (item : Item) (items : List Item) (depth : ℕ) :
    itemsDepth env (item :: items) depth =
      (itemsDepth env [item] depth).bind (itemsDepth env items) := by
  cases item with
  | lit n => rfl
  | word name =>
    rw [itemsDepth, itemsDepth]
    cases wordDepth env name depth <;> rfl

end Items

section Tokens

variable {words : Lexicon} {codes : List ℤ}

/-- `WORD` changes the token buffer only. -/
lemma withToken_below (mem : ℤ → ℤ) (codes : List ℤ) (i : ℤ) (low : i < WORD_BUFFER_BASE) :
    Threaded.withToken mem codes i = mem i := by
  rw [Threaded.withToken, Function.update_of_ne (by omega), writeCells_of_not (by omega)]

/-- The threads lie below the token buffer. -/
lemma Lexicon.Undamaged.congr {mem mem' : ℤ → ℤ} (h : words.Undamaged mem)
    (fits : words.dictionary.dp ≤ WORD_BUFFER_BASE)
    (same : ∀ i, i < WORD_BUFFER_BASE → mem' i = mem i) : words.Undamaged mem' := by
  intro i lt lo
  rw [same i (by omega)]
  exact h i lt lo

/-- What `WORD` has written is a counted string. -/
lemma stringAt?_withToken (mem : ℤ → ℤ) (short : codes.length < WORD_BUFFER_SIZE) :
    Threaded.stringAt? (Threaded.withToken mem codes) WORD_BUFFER_BASE = some codes := by
  have lay := Layout.values
  have count : Threaded.withToken mem codes WORD_BUFFER_BASE = codes.length :=
    Function.update_self ..
  have chars : ∀ k (lt : k < codes.length),
      Threaded.withToken mem codes (WORD_BUFFER_BASE + 1 + k) = codes[k] := by
    intro k lt
    rw [Threaded.withToken, Function.update_of_ne (by omega), writeCells_get lt]
  rw [Threaded.stringAt?, count, if_pos (by omega)]
  refine congrArg some (List.ext_getElem (by simp) fun k lt lt' => ?_)
  rw [List.getElem_map, List.getElem_range]
  exact chars k lt'

end Tokens

section Clauses

variable {words : Lexicon} {colon_words : List ColonWordDto} {clauses : List Clause}
  {items : List Item} {delim d : ℤ} {rest : List ℤ} {depth : ℕ}

/-- `LIT delim WORD NUMBER`. -/
lemma ask_meaning (s : Workspace) (below : ℕ) (undamaged : words.Undamaged s.mem)
    (fits : words.dictionary.dp ≤ WORD_BUFFER_BASE)
    (own : ∀ w ∈ colon_words, w.name ≠ "WORD" ∧ w.name ≠ "NUMBER")
    (more : (s.input.dropWhile (· = delim)).dropWhile (· ≠ delim) = d :: rest)
    (short : (token delim s.input).length < WORD_BUFFER_SIZE) (room : s.ds.length + 2 ≤ 1024) :
    meaningItems (meaning words (envOf colon_words)) (Clause.ask delim).items s below =
      .ok { s with
        ds := (parsed (signed? (token delim s.input))).2 ::
          (parsed (signed? (token delim s.input))).1 :: s.ds
        mem := Threaded.withToken s.mem (token delim s.input), input := rest } := by
  have word : ∀ s, meaning words (envOf colon_words) "WORD" s below =
      KernelWord.meaning words s below .WORD :=
    fun s => meaning_kernel_word .WORD fun w mem => (own w mem).1
  have number : ∀ s, meaning words (envOf colon_words) "NUMBER" s below =
      KernelWord.meaning words s below .NUMBER :=
    fun s => meaning_kernel_word .NUMBER fun w mem => (own w mem).2
  have undamaged' := undamaged.congr fits (withToken_below s.mem (token delim s.input))
  have string := stringAt?_withToken s.mem short
  have read : KernelWord.meaning words { s with ds := delim :: s.ds } below .WORD =
      .ok { s with
        ds := WORD_BUFFER_BASE :: s.ds, mem := Threaded.withToken s.mem (token delim s.input)
        input := rest } := by
    simp only [KernelWord.meaning, Threaded.perform, Threaded.readToken, Workspace.threaded, more,
      if_pos short, Meaning.ofOutcome, if_pos undamaged']
  have convert : KernelWord.meaning words { s with
        ds := WORD_BUFFER_BASE :: s.ds, mem := Threaded.withToken s.mem (token delim s.input)
        input := rest } below .NUMBER =
      .ok { s with
        ds := (parsed (signed? (token delim s.input))).2 ::
          (parsed (signed? (token delim s.input))).1 :: s.ds
        mem := Threaded.withToken s.mem (token delim s.input), input := rest } := by
    simp only [KernelWord.meaning, Threaded.perform, Threaded.convert, Workspace.threaded, string,
      Option.bind_some, if_pos room, Meaning.ofOutcome, if_pos undamaged']
  have room' : s.ds.length < 1024 := by omega
  simp only [Clause.items, meaningItems, if_pos room', word, read, number, convert]

/-- The rest of a program. -/
lemma Replies.before {s s' : Workspace} {m : Meaning} {v : Verdict} (h : Replies s' rest m v)
    (same : ∀ i, i < WORD_BUFFER_BASE → s'.mem i = s.mem i) (output : s'.output = s.output) :
    Replies s rest m v := by
  cases v with
  | ok ds rs =>
    obtain ⟨mem, e, same'⟩ := h
    refine ⟨mem, output ▸ e, fun i lt => ?_⟩
    rw [same' i lt, same i lt]
  | fault e => exact h
  | diverges => exact h

/-- Clauses one after the other. -/
lemma asking_replies (words : Lexicon) (sound : Sound (envOf colon_words))
    (own : ∀ w ∈ colon_words, w.name ≠ "WORD" ∧ w.name ≠ "NUMBER")
    (fits : words.dictionary.dp ≤ WORD_BUFFER_BASE) (s : Workspace) (below : ℕ)
    (undamaged : words.Undamaged s.mem) (typed : answered clauses s.input = some (items, rest))
    (hd : itemsDepth (envOf colon_words) items s.rs.length = some depth) :
    ∃ v, runItems (call (envOf colon_words)) items s.ds s.rs below = some v ∧
      Replies s rest (meaningItems (meaning words (envOf colon_words)) (asking clauses) s below) v ∧
      ∀ ds rs, v = .ok ds rs → rs.length = depth := by
  induction clauses generalizing s items with
  | nil =>
    cases typed
    refine ⟨.ok s.ds s.rs, rfl, ⟨s.mem, rfl, fun i lt => rfl⟩, fun ds rs e => ?_⟩
    cases e
    exact Option.some.inj hd
  | cons clause clauses ih =>
    have all : asking (clause :: clauses) = clause.items ++ asking clauses := rfl
    rw [all, meaningItems_append]
    cases clause with
    | item i =>
      obtain ⟨⟨items', rest'⟩, later, e⟩ := Option.map_eq_some_iff.mp typed
      cases e
      rw [itemsDepth_cons] at hd
      obtain ⟨between, one, hd⟩ := Option.bind_eq_some_iff.mp hd
      obtain ⟨v, run, same, leaves⟩ := items_sameVerdict sound.sameVerdict s below one
      rw [runItems_cons, run, Clause.items, same]
      cases v with
      | ok ds rs =>
        rw [← leaves ds rs rfl] at hd
        obtain ⟨v', run', replies, leaves'⟩ :=
          ih { s with ds := ds, rs := rs } undamaged later hd
        exact ⟨v', run', replies.before (fun i lt => rfl) rfl, leaves'⟩
      | fault e => exact ⟨.fault e, rfl, .inr rfl, fun ds rs e' => by cases e'⟩
      | diverges => exact ⟨.diverges, rfl, rfl, fun ds rs e' => by cases e'⟩
    | ask delim =>
      rw [answered] at typed
      split at typed
      · cases typed
      · rename_i d rest' more
        split at typed
        · rename_i short
          obtain ⟨⟨items', rest''⟩, later, e⟩ := Option.map_eq_some_iff.mp typed
          cases e
          by_cases room : s.ds.length + 2 ≤ 1024
          · rw [ask_meaning s below undamaged fits own more short room]
            have undamaged' := undamaged.congr fits (withToken_below s.mem (token delim s.input))
            obtain ⟨v, run, replies, leaves⟩ := ih { s with
              ds := (parsed (signed? (token delim s.input))).2 ::
                (parsed (signed? (token delim s.input))).1 :: s.ds
              mem := Threaded.withToken s.mem (token delim s.input), input := rest' } undamaged'
              later hd
            refine ⟨v, ?_, replies.before (withToken_below s.mem _) rfl, leaves⟩
            have low : s.ds.length < 1024 := by omega
            have low' : s.ds.length + 1 < 1024 := by omega
            simp only [literals, List.cons_append, List.nil_append, runItems, List.length_cons,
              if_pos low, if_pos low', run]
          · refine ⟨.fault .stackOverflow, ?_, .inl rfl, fun ds rs e => by cases e⟩
            have full : ¬s.ds.length + 1 < 1024 := by omega
            simp only [literals, List.cons_append, List.nil_append, runItems, List.length_cons,
              if_neg full, ite_self]
        · cases typed

end Clauses

section System

variable {n : ℕ} {m m' : ListMemoryAdapter n} {d d' : Dictionary} {colon_words : List ColonWordDto}
  {clauses : List Clause} {items : List Item} {rest : List ℤ}

/-- The emulator ends as the verdict says, with the input read up to `rest`, and leaves all below
    the token buffer as it was in `before`. -/
def EndsReading (s before : EmulatorService) (rest : List ℤ) : Verdict → Prop
  | .ok ds _ => ∃ u, Halts EmulatorService.advance s u ∧ u.data.contents.ds = ds ∧
      u.data.contents.rs = before.data.contents.rs ∧
      (∀ i, i < WORD_BUFFER_BASE → u.data.contents.mem i = before.data.contents.mem i) ∧
      u.char_input = rest ∧ u.char_output = before.char_output
  | .fault e => Fails EmulatorService.advance s e
  | .diverges => Diverges EmulatorService.advance s

/-- Numbers may be typed instead of laid down. For every memory and dictionary that the build starts
    from, all sound colon words that leave `WORD` and `NUMBER` alone, and all boot threads that ask
    for numbers, if the dictionary stays below the token buffer; on any machine that holds the
    dictionary, and whatever has been typed, if it answers all that the program asks: the emulator
    ends as the reference semantics says of the items with the numbers and flags as literals, unless
    that is an overflow. It has read exactly what it has asked for. -/
theorem typed_numbers_run [UnicodeData] (rep : Represents m d) {image : KernelImageDto}
    (run : build colon_words (bootThread (asking clauses)) m = .ok image m')
    (rep' : Represents m' d') (fits : d'.dp ≤ WORD_BUFFER_BASE) (sound : Sound (envOf colon_words))
    (own : ∀ w ∈ colon_words, w.name ≠ "WORD" ∧ w.name ≠ "NUMBER") {s : EmulatorService}
    (holds : ∀ i, DICTIONARY_BASE ≤ i → i < d'.dp → s.data.memory.cell i = m'.cell i)
    (typed : answered clauses s.char_input = some (items, rest))
    (balanced : Balanced (envOf colon_words) items) :
    ∃ verdict, runItems (call (envOf colon_words)) items s.data.contents.ds []
        s.data.contents.rs.length = some verdict ∧
      (verdict ≠ .fault .stackOverflow → EndsReading (boot s image) s rest verdict) := by
  have lay := Layout.values
  obtain ⟨word_cfas, ip, cells, rfl, threads, resolved, boot_at, lo, hi⟩ := build_lays rep run rep'
  have undamaged := undamaged_of_holds (by omega) holds
  have ends := (threads (by omega)).image_means rep' sound.genuine fits resolved boot_at lo
    (by omega) undamaged
  obtain ⟨v, e, replies, leaves⟩ := asking_replies ⟨m'.cell, d'⟩ sound own fits (.of s)
    s.data.contents.rs.length undamaged typed balanced
  refine ⟨v, e, fun no_overflow => ?_⟩
  cases v with
  | ok ds rs =>
    obtain ⟨mem, meaning, same⟩ := replies
    obtain rfl : rs = [] := List.eq_nil_of_length_eq_zero (leaves ds rs rfl)
    rw [meaning] at ends
    obtain ⟨u, halts, contents, input, output⟩ := ends
    refine ⟨u, halts, by rw [contents], by rw [contents]; rfl, fun i lt => ?_, input, output⟩
    rw [contents]
    exact same i lt
  | fault err =>
    rcases replies with overflow | meaning
    · exact absurd (congrArg Verdict.fault overflow) no_overflow
    · rw [meaning] at ends
      exact ends
  | diverges =>
    rw [replies] at ends
    exact ends

section Instances

attribute [local instance] UnicodeData.ascii

/-- Asks for two numbers and adds them. -/
def adding : List Clause :=
  [.ask 32, .item (.word "DROP"), .ask 32, .item (.word "DROP"), .item (.word "+")]

/-- `40` and `2`. -/
theorem typed_numbers_run_adding : ∃ image m' u,
    buildFresh [] (bootThread (asking adding)) (.zeroed MEMORY_SIZE.toNat) = .ok image m' ∧
    Halts EmulatorService.advance (boot (typing [52, 48, 32, 50, 32, 65] m') image) u ∧
    u.data.contents.ds = [42] ∧ u.char_input = [65] := by
  have resolvable : Resolvable [] (bootThread (asking adding)) :=
    ⟨by decide +kernel, by decide +kernel⟩
  obtain ⟨image, m', run, dp⟩ := builds 315 resolvable (by decide +kernel) (by decide)
  obtain ⟨m₀, e₀, rep, -⟩ := init_represents (.zeroed MEMORY_SIZE.toNat) (by decide)
  have run' := run
  rw [buildFresh, bind_ok e₀] at run'
  obtain ⟨d', word_cfas, cells, -, -, -, rep', -⟩ := build_inv rep run'
  let s := typing [52, 48, 32, 50, 32, 65] m'
  have stop : m'.cell DP_ADDR = (d'.skip cells.length).dp := rep'.ready.dp
  have typed : answered adding s.char_input = some ([.lit 40, .lit 1, .word "DROP", .lit 2, .lit 1,
      .word "DROP", .word "+"], [65]) := by
    show answered adding [52, 48, 32, 50, 32, 65] = _
    decide +kernel
  obtain ⟨v, e, ends⟩ := typed_numbers_run rep run' rep' (by rw [← stop, dp]; decide)
    sound_code_words (List.forall_mem_nil _) (s := s) (fun i lo hi => rfl) typed (by decide +kernel)
  have empty : s.data.contents.ds = [] := DownwardStackAdapter.contents_init m'
  have empty' : s.data.contents.rs = [] := DownwardStackAdapter.contents_init m'
  have verdict : runItems (call (envOf [])) [.lit 40, .lit 1, .word "DROP", .lit 2, .lit 1,
      .word "DROP", .word "+"] [] [] 0 = some (.ok [42] []) := by decide +kernel
  rw [empty, empty', List.length_nil] at e
  obtain rfl := Option.some.inj (e.symm.trans verdict)
  obtain ⟨u, halts, ds, -, -, input, -⟩ := ends (fun h => by cases h)
  exact ⟨image, m', u, run, halts, ds, input⟩

end Instances

end System

end MinCpuForth.Kernel
