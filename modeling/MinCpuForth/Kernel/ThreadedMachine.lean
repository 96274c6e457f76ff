import MinCpuForth.Kernel.Pipeline

/-!
# The threaded machine

What the kernel is for: a machine whose instructions are the words of a thread. It has a place in
the thread, two stacks, a memory and two devices, and no registers. It knows every word of the
kernel; it does not say what becomes of a program that uses the cells of the stacks as memory.
-/

namespace MinCpuForth.Kernel
open Python Domain Layout Adapters Emulator Lib Decimal MemoryDictionaryAdapter View

/-- The words of the kernel. -/
inductive KernelWord where
  | LIT | EXIT | BYE
  | stack (w : StackWord)
  | FETCH | STOREW | CFETCH | CSTOREW
  | KEY | EMIT | NUMBER | WORD | FIND
  deriving DecidableEq, Repr

namespace KernelWord

/-- In the order in which the kernel defines them. -/
def all : List KernelWord := [
  .LIT, .EXIT, .BYE, .stack .DUP, .stack .DROP, .stack .SWAP, .stack .OVER, .stack .ROT,
  .stack .NROT, .stack .NIP, .stack .TUCK, .stack .PLUS, .stack .MINUS, .stack .MUL,
  .stack .NEGATE, .stack .ABS, .stack .ONEPLUS, .stack .ONEMINUS, .FETCH, .STOREW, .CFETCH,
  .CSTOREW, .stack .TOR, .stack .FROMR, .stack .RFETCH, .stack .EQUALS, .stack .NOTEQUALS,
  .stack .LESSTHAN, .stack .GREATERTHAN, .stack .ZEROEQ, .stack .ZEROLT, .stack .BITAND,
  .stack .BITOR, .stack .BITINVERT, .KEY, .EMIT, .NUMBER, .WORD, .FIND]

/-- The name of the word in Forth. -/
def name : KernelWord → PyStr
  | .LIT => "LIT" | .EXIT => "EXIT" | .BYE => "BYE" | .stack w => w.name
  | .FETCH => "@" | .STOREW => "!" | .CFETCH => "C@" | .CSTOREW => "C!"
  | .KEY => "KEY" | .EMIT => "EMIT" | .NUMBER => "NUMBER" | .WORD => "WORD" | .FIND => "FIND"

/-- They are the CODE words. -/
lemma names : all.map name = CODE_WORDS.map CodeWordDto.name := rfl

lemma mem_all (w : KernelWord) : w ∈ all := by
  cases w with
  | stack w => cases w <;> simp [all]
  | _ => simp [all]

/-- The word of a name. -/
def ofName? (name : PyStr) : Option KernelWord := all.find? (·.name = name)

lemma name_of_ofName? {name : PyStr} {w : KernelWord} (h : ofName? name = some w) :
    w.name = name := by
  simpa using List.find?_some h

/-- No two words share a name. -/
lemma ofName?_name (w : KernelWord) : ofName? w.name = some w := by
  have distinct : (all.map name).Nodup := by
    rw [names]
    exact code_words_nodup
  cases found : ofName? w.name with
  | none => simpa using List.find?_eq_none.mp found w w.mem_all
  | some w' =>
    have listed : w' ∈ all := List.mem_of_find?_eq_some found
    rw [List.inj_on_of_nodup_map distinct listed w.mem_all (name_of_ofName? found)]

/-- The word that a code field calls. -/
def at? (routine : ℤ) : Option KernelWord :=
  (CODE_WORDS.find? fun k => kernelLabels.lookup k.routine_label = some routine).bind
    fun k => ofName? k.name

lemma of_at? {routine : ℤ} {w : KernelWord} (h : at? routine = some w) :
    ∃ k ∈ CODE_WORDS, k.name = w.name ∧ kernelLabels.lookup k.routine_label = some routine := by
  obtain ⟨k, found, named⟩ := Option.bind_eq_some_iff.mp h
  have label := List.find?_some found
  exact ⟨k, List.mem_of_find?_eq_some found, (name_of_ofName? named).symm, of_decide_eq_true label⟩

/-- The routines of the CODE words. -/
lemma routine_labels : CODE_WORDS.map (fun k => kernelLabels.lookup k.routine_label) =
    ROUTINES.tail.map fun r => some r.base := by
  have pairs : List.Forall₂ (fun (p : KernelPrimitive) (r : Routine) =>
      (p.word.routine_label, r.base) ∈ r.labels) PRIMITIVES ROUTINES.tail := by
    repeat' first
      | exact .nil
      | refine .cons (.head _) ?_
  have sub : ∀ r ∈ ROUTINES.tail, r ∈ ROUTINES := fun r => List.mem_of_mem_tail
  rw [CODE_WORDS, List.map_map]
  generalize PRIMITIVES = ps at pairs
  generalize ROUTINES.tail = rs at pairs sub
  induction pairs with
  | nil => rfl
  | cons own _ ih =>
    obtain ⟨listed, sub⟩ := List.forall_mem_cons.mp sub
    rw [List.map_cons, List.map_cons, ih sub]
    exact congrArg (· :: _) (lookup_kernelLabels listed own)

/-- Every CODE word is known by its code field. -/
lemma at?_routine {w : KernelWord} {k : CodeWordDto} {routine : ℤ} (listed : k ∈ CODE_WORDS)
    (named : k.name = w.name) (label : kernelLabels.lookup k.routine_label = some routine) :
    at? routine = some w := by
  have distinct : (CODE_WORDS.map fun k => kernelLabels.lookup k.routine_label).Nodup := by
    rw [routine_labels]
    decide
  rw [at?]
  cases found : CODE_WORDS.find? fun k => kernelLabels.lookup k.routine_label = some routine with
  | none =>
    have missing := List.find?_eq_none.mp found k listed
    exact absurd (decide_eq_true label) missing
  | some k' =>
    have label' := List.find?_some found
    obtain rfl : k' = k := List.inj_on_of_nodup_map distinct (List.mem_of_find?_eq_some found)
      listed ((of_decide_eq_true label').trans label.symm)
    rw [Option.bind_some, named, ofName?_name]

end KernelWord

/-- What `FIND` searches: a dictionary, and the cells that hold it. -/
structure Lexicon where
  cell : ℤ → ℤ
  dictionary : Dictionary

/-- The memory still holds the dictionary. -/
def Lexicon.Intact (words : Lexicon) (mem : ℤ → ℤ) : Prop :=
  ∀ i < words.dictionary.dp.toNat, mem i = words.cell i

instance (words : Lexicon) (mem : ℤ → ℤ) : Decidable (words.Intact mem) :=
  inferInstanceAs (Decidable (∀ i < words.dictionary.dp.toNat, mem i = words.cell i))

namespace Threaded

/-- The cells of threads and the code fields, below the token buffer. -/
abbrev InDictionary (address : ℤ) : Prop := 0 ≤ address ∧ address < WORD_BUFFER_BASE

/-- The characters of the counted string at an address, if it lies below the stacks. -/
def stringAt? (mem : ℤ → ℤ) (address : ℤ) : Option (List ℤ) :=
  if 0 ≤ address ∧ 0 ≤ mem address ∧ address + mem address < DICTIONARY_TOP then
    some ((List.range (mem address).toNat).map fun i : ℕ => mem (address + 1 + i))
  else none

/-- The memory after `WORD` has read a token into its buffer. -/
def withToken (mem : ℤ → ℤ) (token : List ℤ) : ℤ → ℤ :=
  Function.update (writeCells mem (WORD_BUFFER_BASE + 1) token) WORD_BUFFER_BASE token.length

/-- `@` and `C@`. -/
def fetch (t : Threaded) : Outcome PyError Threaded :=
  match t.ds with
  | [] => .fail .stackUnderflow
  | a :: ds =>
    match cellOf a with
    | some i => if Below i then .next { t with ip := t.ip + 1, ds := t.mem i :: ds } else .unknown
    | none => .fail .indexError

/-- `!` and `C!`. -/
def store (t : Threaded) : Outcome PyError Threaded :=
  match t.ds with
  | [] | [_] => .fail .stackUnderflow
  | a :: x :: ds =>
    match cellOf a with
    | some i =>
      if Below i then .next { t with ip := t.ip + 1, ds := ds, mem := Function.update t.mem i x }
      else .unknown
    | none => .fail .indexError

/-- `WORD`. A token that is longer than its buffer runs into the data stack. -/
def readToken (t : Threaded) : Outcome PyError Threaded :=
  match t.ds with
  | [] => .fail .stackUnderflow
  | delim :: ds =>
    if (token delim t.input).length < WORD_BUFFER_SIZE then
      match (t.input.dropWhile (· = delim)).dropWhile (· ≠ delim) with
      | [] => .fail .inputExhausted
      | _ :: rest =>
        .next { t with
          ip := t.ip + 1, ds := WORD_BUFFER_BASE :: ds,
          mem := withToken t.mem (token delim t.input), input := rest }
    else .unknown

/-- `NUMBER` and `FIND` replace the address of a counted string by two cells. -/
def convert (f : List ℤ → Option (ℤ × ℤ)) (t : Threaded) : Outcome PyError Threaded :=
  match t.ds with
  | [] => .fail .stackUnderflow
  | a :: ds =>
    match (stringAt? t.mem a).bind f with
    | some (x, y) =>
      if ds.length + 2 ≤ 1024 then .next { t with ip := t.ip + 1, ds := y :: x :: ds } else .unknown
    | none => .unknown

/-- What `FIND` answers, as long as the dictionary is intact. -/
def lookup (words : Lexicon) (mem : ℤ → ℤ) (codes : List ℤ) : Option (ℤ × ℤ) :=
  if words.Intact mem then
    some (answer ((words.dictionary.entries.map Entry.header).find? (visible codes)))
  else none

/-- What a word of the kernel does. A multiplication that never ends stays where it is. -/
def perform (words : Lexicon) (t : Threaded) : KernelWord → Outcome PyError Threaded
  | .LIT =>
    if t.ds.length < 1024 then .next { t with ip := t.ip + 2, ds := t.mem (t.ip + 1) :: t.ds }
    else .fail .stackOverflow
  | .EXIT =>
    match t.rs with
    | [] => .fail .stackUnderflow
    | back :: rs => .next { t with ip := back, rs := rs }
  | .BYE => .halt
  | .stack w =>
    match w.verdict t.ds t.rs 0 with
    | .ok ds rs => .next { t with ip := t.ip + 1, ds := ds, rs := rs }
    | .fault e => .fail e
    | .diverges => .next t
  | .FETCH | .CFETCH => t.fetch
  | .STOREW | .CSTOREW => t.store
  | .KEY =>
    match t.input with
    | [] => .fail .inputExhausted
    | c :: input =>
      if t.ds.length < 1024 then .next { t with ip := t.ip + 1, ds := c :: t.ds, input := input }
      else .fail .stackOverflow
  | .EMIT =>
    match t.ds with
    | [] => .fail .stackUnderflow
    | c :: ds => .next { t with ip := t.ip + 1, ds := ds, output := t.output ++ [c] }
  | .NUMBER => t.convert fun codes => some (parsed (signed? codes))
  | .WORD => t.readToken
  | .FIND => t.convert (lookup words t.mem)

/-- A colon word: to its thread, with the way back on the return stack. -/
def enter (t : Threaded) : Outcome PyError Threaded :=
  if t.rs.length < 1024 then
    .next { t with ip := t.mem t.ip + 1, rs := (t.ip + 1) :: t.rs }
  else .fail .stackOverflow

/-- The next word of the thread. -/
def step (words : Lexicon) (t : Threaded) : Outcome PyError Threaded :=
  if InDictionary t.ip ∧ InDictionary (t.mem t.ip) then
    if t.mem (t.mem t.ip) = KernelBuilder.ENTER_INDEX then t.enter
    else
      match KernelWord.at? (t.mem (t.mem t.ip)) with
      | some w => perform words t w
      | none => .unknown
  else .unknown

end Threaded

end MinCpuForth.Kernel
