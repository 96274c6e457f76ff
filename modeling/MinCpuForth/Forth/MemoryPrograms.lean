import MinCpuForth.Forth.Agreement
import MinCpuForth.Kernel.Meaning

/-!
# Programs on the stacks and the memory

The interpreter and the kernel on programs that also use `@` and `!`. Both sides work on one memory.
The kernel's threads lie in it, so a program that writes over them is one that only the interpreter
can run; such a program has no meaning, and nothing is said about it here.
-/

namespace MinCpuForth.Forth
open Python Domain Adapters DataPath Lib ForthService Kernel Emulator Layout
open MemoryDictionaryAdapter

/-- What the interpreter comes to where a program has this meaning; the kernel needs more cells of
    the return stack. -/
def Reflects (base : List ℤ) : Meaning → EStateM.Result PyError ForthService Unit → Prop
  | .ok s, r => ∃ f, r = .ok () f ∧ f.data.contents = ⟨s.ds, s.rs ++ base, s.mem⟩
  | .fault e, r => (∃ f, r = .error e f) ∨ e = .stackOverflow
  | .diverges, _ | .unknown, _ => True

/-- The action of the interpreter does on any stacks and memory what is meant. -/
def Mirrors (meant : Workspace → ℕ → Meaning) (act : Action Unit) : Prop :=
  ∀ (f : ForthService) (s : Workspace) base below,
    f.data.contents = ⟨s.ds, s.rs ++ base, s.mem⟩ → base.length ≤ below →
    Reflects base (meant s below) (act f)

/-- The words of the kernel that the interpreter does not have. -/
def FOREIGN : List PyStr := ["C@", "C!", "KEY", "EMIT", "NUMBER", "WORD", "FIND"]

/-- The name does not denote a word that only one side has, or one that leaves a flag. -/
def Common (name : PyStr) : Prop := name ∉ FOREIGN ∧ name ∉ COMPARISONS

instance (name : PyStr) : Decidable (Common name) := inferInstanceAs (Decidable (_ ∧ _))

section Accesses

variable {p : DataPath} {a x i : ℤ} {ds : List ℤ}

/-- Taking a cell, with one there and with none. -/
lemma popData_cons (stack : p.contents.ds = a :: ds) :
    ∃ q, popData p = .ok a q ∧ q.contents = { p.contents with ds := ds } := by
  refine popData_refines.ok ?_
  rw [Contents.popData, stack]

lemma popData_nil (empty : p.contents.ds = []) :
    ∃ q, popData p = .error .stackUnderflow q := by
  refine popData_refines.error (c := p.contents) ?_
  rw [Contents.popData, empty]

/-- `@` on a cell below the stacks. -/
lemma fetch_contents (stack : p.contents.ds = a :: ds) (place : cellOf a = some i)
    (below : View.Below i) :
    ∃ q, fetch p = .ok () q ∧ q.contents = { p.contents with ds := p.contents.mem i :: ds } := by
  obtain ⟨q, popped, same⟩ := popData_cons stack
  have found : DataPath.read a q = .ok (p.contents.mem i) q := by
    have read := q.read_cellOf (a := a)
    rw [place] at read
    have cell : q.contents.mem i = q.memory.cell i := contents_mem below
    rw [same] at cell
    rw [cell]
    exact read
  have room : q.contents.ds.length < 1024 := by
    have le := (contents_le p).1
    rw [stack] at le
    rw [same]
    exact le
  have push : Contents.pushData (p.contents.mem i) q.contents =
      .ok () { q.contents with ds := p.contents.mem i :: q.contents.ds } := if_pos room
  obtain ⟨r, pushed, same'⟩ := (pushData_refines _).ok push
  refine ⟨r, (bind_ok popped).trans ((bind_ok found).trans pushed), ?_⟩
  rw [same', same]

/-- `!` on a cell below the stacks. -/
lemma store_contents (stack : p.contents.ds = a :: x :: ds) (place : cellOf a = some i)
    (below : View.Below i) :
    ∃ q, store p = .ok () q ∧ q.contents =
      { p.contents with ds := ds, mem := Function.update p.contents.mem i x } := by
  obtain ⟨q, popped, same⟩ := popData_cons stack
  obtain ⟨q', popped', same'⟩ := popData_cons (p := q) (a := x) (by rw [same])
  rw [same] at same'
  have same_cell : DataPath.write a x q' = DataPath.write i x q' := by
    rw [q'.write_cellOf (a := a), place, q'.write_inside x (inside_of_cellOf place)]
  obtain ⟨r, written, same''⟩ := q'.write_run x below.1 below.2
  refine ⟨r, (bind_ok popped).trans ((bind_ok popped').trans (same_cell.trans written)), ?_⟩
  rw [same'', same']
  refine Contents.ext rfl rfl (funext fun j => ?_)
  exact (Function.update_apply p.contents.mem i x j).symm

/-- `@` needs an address. -/
lemma fetch_underflow (empty : p.contents.ds = []) : ∃ q, fetch p = .error .stackUnderflow q := by
  obtain ⟨q, popped⟩ := popData_nil empty
  exact ⟨q, bind_error popped⟩

/-- `@` outside the memory. -/
lemma fetch_outside (stack : p.contents.ds = a :: ds) (place : cellOf a = none) :
    ∃ q, fetch p = .error .indexError q := by
  obtain ⟨q, popped, -⟩ := popData_cons stack
  have read := q.read_cellOf (a := a)
  rw [place] at read
  exact ⟨q, (bind_ok popped).trans (bind_error read)⟩

/-- `!` needs an address and a value. -/
lemma store_underflow (short : p.contents.ds.length < 2) :
    ∃ q, store p = .error .stackUnderflow q := by
  rcases stack : p.contents.ds with _ | ⟨a, _ | ⟨x, ds⟩⟩
  · obtain ⟨q, popped⟩ := popData_nil stack
    exact ⟨q, bind_error popped⟩
  · obtain ⟨q, popped, same⟩ := popData_cons stack
    obtain ⟨q', popped'⟩ := popData_nil (p := q) (by rw [same])
    exact ⟨q', (bind_ok popped).trans (bind_error popped')⟩
  · rw [stack, List.length_cons, List.length_cons] at short
    omega

/-- `!` outside the memory. -/
lemma store_outside (stack : p.contents.ds = a :: x :: ds) (place : cellOf a = none) :
    ∃ q, store p = .error .indexError q := by
  obtain ⟨q, popped, same⟩ := popData_cons stack
  obtain ⟨q', popped', -⟩ := popData_cons (p := q) (a := x) (by rw [same])
  have write := q'.write_cellOf (a := a) x
  rw [place] at write
  exact ⟨q', (bind_ok popped).trans ((bind_ok popped').trans write)⟩

end Accesses

section Words

variable {words : Lexicon} {base rs : List ℤ} {o : Outcome PyError Threaded}
  {r : EStateM.Result PyError ForthService Unit}

/-- A step of the threaded machine that the interpreter's action follows. -/
lemma Reflects.next {t : Threaded} (out : o = .next t)
    (run : ∃ f, r = .ok () f ∧ f.data.contents = ⟨t.ds, rs ++ base, t.mem⟩) :
    Reflects base (.ofOutcome words rs o) r := by
  rw [out, Meaning.ofOutcome]
  split
  · exact run
  · trivial

/-- A step that fails. -/
lemma Reflects.fail {e : PyError} (out : o = .fail e) (run : ∃ f, r = .error e f) :
    Reflects base (.ofOutcome words rs o) r := by
  rw [out]
  exact .inl run

/-- A step of which the threaded machine does not know. -/
lemma Reflects.unknown (out : o = .unknown) : Reflects base (.ofOutcome words rs o) r := by
  rw [out]
  trivial

/-- What the interpreter does to the data path. -/
lemma onData_ok {op : EStateM PyError DataPath Unit} {f : ForthService} {c : Contents}
    (run : ∃ q, op f.data = .ok () q ∧ q.contents = c) :
    ∃ f', ForthService.onData op f = .ok () f' ∧ f'.data.contents = c := by
  obtain ⟨q, run, same⟩ := run
  exact ⟨{ f with data := q }, by rw [ForthService.onData, run], same⟩

lemma onData_error {op : EStateM PyError DataPath Unit} {f : ForthService} {e : PyError}
    (run : ∃ q, op f.data = .error e q) : ∃ f', ForthService.onData op f = .error e f' := by
  obtain ⟨q, run⟩ := run
  exact ⟨{ f with data := q }, by rw [ForthService.onData, run]⟩

/-- `@`. -/
lemma FETCH_mirrors : Mirrors (fun s below => KernelWord.FETCH.meaning words s below)
    (Primitive.FETCH.call []) := by
  intro f s base below same le
  have ds : f.data.contents.ds = s.ds := by rw [same]
  rw [call_body rfl]
  show Reflects base (.ofOutcome words s.rs (s.threaded 0 []).fetch) _
  rcases stack : s.ds with _ | ⟨a, rest⟩
  · exact .fail (by simp [Threaded.fetch, Workspace.threaded, stack])
      (onData_error (fetch_underflow (ds.trans stack)))
  · cases place : cellOf a with
    | none =>
      exact .fail (by simp [Threaded.fetch, Workspace.threaded, stack, place])
        (onData_error (fetch_outside (ds.trans stack) place))
    | some i =>
      by_cases low : View.Below i
      · obtain ⟨q, run, after⟩ := fetch_contents (ds.trans stack) place low
        rw [same] at after
        exact .next (t := ⟨1, s.mem i :: rest, s.rs ++ [], s.mem, s.input, s.output⟩)
          (by simp [Threaded.fetch, Workspace.threaded, stack, place, if_pos low])
          (onData_ok ⟨q, run, after⟩)
      · exact .unknown (by simp [Threaded.fetch, Workspace.threaded, stack, place, if_neg low])

/-- `!`. -/
lemma STOREW_mirrors : Mirrors (fun s below => KernelWord.STOREW.meaning words s below)
    (Primitive.STORE.call []) := by
  intro f s base below same le
  have ds : f.data.contents.ds = s.ds := by rw [same]
  rw [call_body rfl]
  show Reflects base (.ofOutcome words s.rs (s.threaded 0 []).store) _
  rcases stack : s.ds with _ | ⟨a, _ | ⟨x, rest⟩⟩
  · exact .fail (by simp [Threaded.store, Workspace.threaded, stack])
      (onData_error (store_underflow (by rw [ds, stack]; decide)))
  · exact .fail (by simp [Threaded.store, Workspace.threaded, stack])
      (onData_error (store_underflow (by rw [ds, stack]; exact Nat.lt_succ_self 1)))
  · cases place : cellOf a with
    | none =>
      exact .fail (by simp [Threaded.store, Workspace.threaded, stack, place])
        (onData_error (store_outside (ds.trans stack) place))
    | some i =>
      by_cases low : View.Below i
      · obtain ⟨q, run, after⟩ := store_contents (ds.trans stack) place low
        rw [same] at after
        exact .next
          (t := ⟨1, rest, s.rs ++ [], Function.update s.mem i x, s.input, s.output⟩)
          (by simp [Threaded.store, Workspace.threaded, stack, place, if_pos low])
          (onData_ok ⟨q, run, after⟩)
      · exact .unknown (by simp [Threaded.store, Workspace.threaded, stack, place, if_neg low])

/-- Words on the stacks, wherever the depth of the own return stack is known afterwards. -/
lemma stackWord_mirrors {w : StackWord} (plain : w.name ∉ COMPARISONS) :
    Mirrors (fun s below => (KernelWord.stack w).meaning words s below)
      ((primitiveOf w).call []) := by
  intro f s base below same le
  simp only [KernelWord.meaning]
  cases leaves : w.returnDepth s.rs.length with
  | none => trivial
  | some depth =>
    obtain ⟨v, verdict, answers, -⟩ := stackWord_agrees plain f s.rs base below depth
      (by rw [same]) leaves le
    obtain rfl := Option.some.inj verdict
    rw [same] at answers
    show Reflects base (.ofVerdict s (w.verdict s.ds s.rs below)) _
    cases e : w.verdict s.ds s.rs below with
    | ok ds rs =>
      rw [e] at answers
      exact answers
    | fault e' =>
      rw [e] at answers
      exact answers.imp_right And.left
    | diverges => trivial

end Words

section Programs

variable {words : Lexicon} {name : PyStr} {names : List PyStr}

/-- The interpreter's callable of a name that both sides have. -/
lemma word_mirrors {w : KernelWord} (common : Common w.name) :
    Mirrors (fun s below => w.meaning words s below) (bound [] w.name) := by
  obtain ⟨native, plain⟩ := common
  cases w with
  | stack w =>
    have act : bound [] w.name = (primitiveOf w).call [] := by rw [bound, found_word]
    show Mirrors _ (bound [] w.name)
    rw [act]
    exact stackWord_mirrors plain
  | FETCH => exact FETCH_mirrors
  | STOREW => exact STOREW_mirrors
  | LIT | EXIT | BYE => exact fun _ _ _ _ _ _ => trivial
  | CFETCH | CSTOREW | KEY | EMIT | NUMBER | WORD | FIND => exact absurd (by decide) native

/-- Names one after the other. -/
lemma names_mirror {meant : PyStr → Workspace → ℕ → Meaning} {act : PyStr → Action Unit}
    (each : ∀ name ∈ names, Mirrors (meant name) (act name)) :
    Mirrors (meaningItems meant (names.map .word)) (names.forM act) := by
  intro f s base below same le
  induction names generalizing f s with
  | nil => exact ⟨f, rfl, same⟩
  | cons name names ih =>
    obtain ⟨first, others⟩ := List.forall_mem_cons.mp each
    have reflects := first f s base below same le
    show Reflects base _ ((act name >>= fun _ => names.forM act) f)
    rw [List.map_cons, meaningItems]
    cases out : meant name s below with
    | ok s' =>
      rw [out] at reflects
      obtain ⟨f', run, same'⟩ := reflects
      rw [bind_ok run]
      exact ih others f' s' same'
    | fault e =>
      rw [out] at reflects
      refine reflects.imp_left ?_
      rintro ⟨f', run⟩
      exact ⟨f', bind_error run⟩
    | diverges => trivial
    | unknown => trivial

/-- A colon word, by its body. The kernel keeps the way back on the return stack while the body
    runs. -/
lemma colon_mirrors {meant : Workspace → ℕ → Meaning} {act : Action Unit} (h : Mirrors meant act) :
    Mirrors (fun s below =>
      if below + s.rs.length < 1024 then
        (meant { s with rs := [] } (below + s.rs.length + 1)).leave s.rs
      else .fault .stackOverflow) act := by
  intro f s base below same le
  show Reflects base (if below + s.rs.length < 1024 then
    (meant { s with rs := [] } (below + s.rs.length + 1)).leave s.rs else .fault .stackOverflow) _
  split
  · have le' : (s.rs ++ base).length ≤ below + s.rs.length + 1 := by
      rw [List.length_append]
      omega
    have reflects := h f { s with rs := [] } (s.rs ++ base) (below + s.rs.length + 1) same le'
    cases out : meant { s with rs := [] } (below + s.rs.length + 1) with
    | ok s' =>
      rw [out] at reflects
      rw [Meaning.leave]
      split
      · rename_i empty
        obtain ⟨f', run, same'⟩ := reflects
        rw [empty] at same'
        exact ⟨f', run, same'⟩
      · trivial
    | fault e =>
      rw [out] at reflects
      exact reflects
    | diverges => trivial
    | unknown => trivial
  · exact .inr rfl

/-- The names of the CODE words. -/
lemma code_mirrors {ks : List CodeWordDto} (common : Common name) :
    Mirrors (meaning words (ks.map .code) name) (bound [] name) := by
  induction ks with
  | nil => exact fun _ _ _ _ _ _ => trivial
  | cons k ks ih =>
    intro f s base below same le
    rw [List.map_cons, meaning]
    split
    · cases known : KernelWord.ofName? name with
      | none => trivial
      | some w =>
        obtain rfl := KernelWord.name_of_ofName? known
        exact word_mirrors common f s base below same le
    · exact ih f s base below same le

/-- Every common name does in the interpreter what it means, where the names in a body stand for the
    words before it. -/
lemma bound_mirrors {ks : List CodeWordDto} {colon_words : List ColonWordDto}
    (bodies : ∀ k ∈ colon_words, ∀ name ∈ k.words, Common name) (common : Common name) :
    Mirrors (meaning words (colon_words.map .colon ++ ks.map .code) name)
      (bound colon_words name) := by
  induction colon_words generalizing name with
  | nil => exact code_mirrors common
  | cons k colon_words ih =>
    obtain ⟨body, bodies⟩ := List.forall_mem_cons.mp bodies
    intro f s base below same le
    rw [List.map_cons, List.cons_append, meaning, bound]
    by_cases named : k.name = name
    · rw [if_pos named, if_pos named.symm]
      have inside : Mirrors
          (meaningItems (meaning words (colon_words.map .colon ++ ks.map .code))
            (k.words.map .word)) (k.words.forM (bound colon_words)) :=
        names_mirror fun name mem => ih bodies (body name mem)
      exact colon_mirrors inside f s base below same le
    · rw [if_neg named, if_neg (Ne.symm named)]
      exact ih bodies common f s base below same le

/-- The names of a program, run by the interpreter that has the colon words. -/
lemma program_mirrors {colon_words : List ColonWordDto} (data : DataPath) (registers : PyStr → ℤ)
    (keeps : KeepsNames colon_words)
    (bodies : ∀ k ∈ colon_words, ∀ name ∈ k.words, Common name)
    (common : ∀ name ∈ names, Common name) {s : Workspace} (own : s.rs = [])
    (ds : s.ds = data.contents.ds) (mem : s.mem = data.contents.mem) :
    ∃ fuel r,
      execute_words (call fuel) names (define (.init data registers) colon_words) = within r ∧
      Reflects data.contents.rs
        (meaningItems (meaning words (envOf colon_words)) (names.map .word) s
          data.contents.rs.length) r := by
  have env : envOf colon_words =
      colon_words.reverse.map .colon ++ CODE_WORDS.reverse.map .code := by
    rw [envOf, KernelBuilder.specs, List.reverse_append, List.map_reverse, List.map_reverse]
  let f := define (.init data registers) colon_words
  have runs : ∃ trace, Runs f names trace (names.forM (bound colon_words.reverse) f) :=
    runs_names keeps
  obtain ⟨fuel, run⟩ := execute_iff.mpr runs
  have init : f.data = data := define_data ..
  have same : f.data.contents = ⟨s.ds, s.rs ++ data.contents.rs, s.mem⟩ := by
    rw [init, own, ds, mem]
    rfl
  refine ⟨fuel, _, run, ?_⟩
  rw [env]
  have each : ∀ name ∈ names, Mirrors
      (meaning words (colon_words.reverse.map .colon ++ CODE_WORDS.reverse.map .code) name)
      (bound colon_words.reverse name) := fun name listed =>
    bound_mirrors (fun k mem' => bodies k (List.mem_reverse.mp mem')) (common name listed)
  exact names_mirror each f s data.contents.rs data.contents.rs.length same (Nat.le_refl _)

/-- The emulator's run ends as the interpreter's result: with the same stacks and the same memory
    below them, or with the same exception. -/
def EndsWith (s : EmulatorService) : EStateM.Result PyError ForthService Unit → Prop
  | .ok _ f => ∃ u, Halts EmulatorService.advance s u ∧ u.data.contents = f.data.contents
  | .error e _ => Fails EmulatorService.advance s e

/-- A program of names over colon words, none of which takes over a name that is in use, run by the
    interpreter and compiled for the emulator, on the same stacks and the same memory. The names are
    those that both sides have and that leave no flag; they may read and write the memory. Where the
    program has a meaning, the interpreter comes to a result, and the emulator ends with the same
    stacks and memory or with the same exception, unless the program means to run forever, or to
    overflow a stack. -/
theorem memory_programs_agree [UnicodeData] {n : ℕ} {m m' : ListMemoryAdapter n}
    {d d' : Dictionary} {colon_words : List ColonWordDto} (rep : Represents m d)
    {image : KernelImageDto}
    (run : KernelBuilder.build colon_words (bootThread (names.map .word)) m = .ok image m')
    (rep' : Represents m' d') (fits : d'.dp ≤ WORD_BUFFER_BASE)
    (own : ∀ w ∈ colon_words, w.name ∉ RESERVED) (keeps : KeepsNames colon_words)
    (bodies : ∀ k ∈ colon_words, ∀ name ∈ k.words, Common name)
    (common : ∀ name ∈ names, Common name) {s : EmulatorService}
    (holds : ∀ i, DICTIONARY_BASE ≤ i → i < d'.dp → s.data.memory.cell i = m'.cell i)
    {meant : Meaning}
    (means : meaningItems (meaning ⟨m'.cell, d'⟩ (envOf colon_words)) (names.map .word) (.of s)
      s.data.contents.rs.length = meant)
    (known : meant ≠ .unknown) (registers : PyStr → ℤ) :
    ∃ fuel r,
      execute_words (call fuel) names (define (.init s.data registers) colon_words) = within r ∧
      (EndsWith (boot s image) r ∨
        meant = .diverges ∧ Diverges EmulatorService.advance (boot s image) ∨
        meant = .fault .stackOverflow ∧
          Fails EmulatorService.advance (boot s image) .stackOverflow) := by
  have lay := Layout.values
  obtain ⟨word_cfas, ip, cells, rfl, threads, resolved, boot_at, lo, hi⟩ := build_lays rep run rep'
  have ends := (threads (by omega)).image_means rep' (genuine_envOf own) fits resolved boot_at lo
    (by omega) (undamaged_of_holds (by omega) holds)
  obtain ⟨fuel, r, result, reflects⟩ := program_mirrors s.data registers
    keeps bodies common (s := .of s) rfl rfl rfl
  rw [means] at ends reflects
  refine ⟨fuel, r, result, ?_⟩
  cases meant with
  | ok w =>
    obtain ⟨f, rfl, contents⟩ := reflects
    obtain ⟨u, halts, same, -, -⟩ := ends
    exact .inl ⟨u, halts, same.trans contents.symm⟩
  | fault e =>
    rcases reflects with ⟨f, rfl⟩ | rfl
    · exact .inl ends
    · exact .inr (.inr ⟨rfl, ends⟩)
  | diverges => exact .inr (.inl ⟨rfl, ends⟩)
  | unknown => exact absurd rfl known

end Programs

section Instances

attribute [local instance] UnicodeData.ascii

/-- `: BUMP DUP @ 1+ SWAP ! ;`. -/
def bump : ColonWordDto := ⟨"BUMP", ["DUP", "@", "1+", "SWAP", "!"], false⟩

/-- `BUMP` counts a cell up. -/
lemma meaning_bump {words : Lexicon} {mem : ℤ → ℤ} (undamaged : words.Undamaged mem) {i : ℤ}
    (place : cellOf i = some i) (below : View.Below i)
    (free : words.dictionary.dp ≤ i) (input output : List ℤ) :
    meaning words (envOf [bump]) "BUMP" ⟨[i], [], mem, input, output⟩ 0 =
      .ok ⟨[], [], Function.update mem i (mem i + 1), input, output⟩ := by
  have env : envOf [bump] = .colon bump :: envOf [] := by
    simp [envOf, KernelBuilder.specs]
  have named : ∀ w : KernelWord, ∀ s below,
      meaning words (envOf []) w.name s below = w.meaning words s below :=
    fun w s below => meaning_kernel_word w (List.forall_mem_nil _)
  have after : words.Undamaged (Function.update mem i (mem i + 1)) := by
    intro j lt lo
    have ne : (j : ℤ) ≠ i := by omega
    rw [Function.update_of_ne ne]
    exact undamaged j lt lo
  -- The words of the body, one after the other.
  have dup : (KernelWord.stack .DUP).meaning words ⟨[i], [], mem, input, output⟩ 1 =
      .ok ⟨[i, i], [], mem, input, output⟩ := rfl
  have fetched : KernelWord.FETCH.meaning words ⟨[i, i], [], mem, input, output⟩ 1 =
      .ok ⟨[mem i, i], [], mem, input, output⟩ := by
    simp [KernelWord.meaning, Threaded.perform, Threaded.fetch, Workspace.threaded,
      Meaning.ofOutcome, place, if_pos below, undamaged]
  have counted : (KernelWord.stack .ONEPLUS).meaning words ⟨[mem i, i], [], mem, input, output⟩ 1 =
      .ok ⟨[mem i + 1, i], [], mem, input, output⟩ := rfl
  have swapped : (KernelWord.stack .SWAP).meaning words ⟨[mem i + 1, i], [], mem, input, output⟩ 1 =
      .ok ⟨[i, mem i + 1], [], mem, input, output⟩ := rfl
  have stored : KernelWord.STOREW.meaning words ⟨[i, mem i + 1], [], mem, input, output⟩ 1 =
      .ok ⟨[], [], Function.update mem i (mem i + 1), input, output⟩ := by
    simp [KernelWord.meaning, Threaded.perform, Threaded.store, Workspace.threaded,
      Meaning.ofOutcome, place, if_pos below, after]
  have body : bump.words.map Item.word = [.word (KernelWord.stack .DUP).name,
      .word KernelWord.FETCH.name, .word (KernelWord.stack .ONEPLUS).name,
      .word (KernelWord.stack .SWAP).name, .word KernelWord.STOREW.name] := rfl
  have here : bump.name = py "BUMP" := rfl
  have room : 0 + ([] : List ℤ).length < 1024 := by decide
  rw [env, meaning, if_pos here, body, if_pos room]
  simp only [meaningItems, named, List.length_nil, Nat.zero_add, dup, fetched, counted, swapped,
    stored]
  rfl

/-- `BUMP` on the address 1800. -/
theorem memory_programs_agree_bump : ∃ image m' fuel r,
    KernelBuilder.buildFresh [bump] (bootThread [.word "BUMP"]) (.zeroed MEMORY_SIZE.toNat) =
      .ok image m' ∧
    let data : DataPath := ⟨m'.set 3071 1800, ⟨3071, by decide, by decide⟩, .init _ _⟩
    execute_words (call fuel) ["BUMP"] (define (.init data fun _ => 0) [bump]) = within r ∧
    EndsWith (boot { idle m' with data := data } image) r := by
  have resolvable : Resolvable [bump] (bootThread [.word "BUMP"]) :=
    ⟨by decide +kernel, by decide +kernel⟩
  obtain ⟨image, m', run, dp⟩ := builds 320 resolvable (by decide +kernel) (by decide)
  obtain ⟨m₀, e₀, rep, -⟩ := init_represents (.zeroed MEMORY_SIZE.toNat) (by decide)
  have run' : KernelBuilder.build [bump] (bootThread ([py "BUMP"].map .word)) m₀ =
      .ok image m' := by
    rw [KernelBuilder.buildFresh, bind_ok e₀] at run
    exact run
  obtain ⟨d', word_cfas, cells, -, -, -, rep', -⟩ := KernelBuilder.build_inv rep run'
  have stop : m'.cell DP_ADDR = (d'.skip cells.length).dp := rep'.ready.dp
  rw [dp] at stop
  have low : (d'.skip cells.length).dp ≤ 1800 := by
    rw [← stop]
    decide
  let data : DataPath := ⟨m'.set 3071 1800, ⟨3071, by decide, by decide⟩, .init _ _⟩
  let s : EmulatorService := { idle m' with data := data }
  have lay := Layout.values
  have holds : ∀ i, DICTIONARY_BASE ≤ i → i < (d'.skip cells.length).dp →
      s.data.memory.cell i = m'.cell i := by
    intro i lo hi
    exact ListMemoryAdapter.cell_set_of_ne m' 1800 (by omega)
  have undamaged := undamaged_of_holds (by omega) holds
  have empty : s.data.contents.rs = [] := DownwardStackAdapter.contents_init _
  have top : s.data.contents.ds = [1800] := by
    have place : (m'.set 3071 1800).cell 3071 = 1800 :=
      m'.cell_set_self 1800 (by decide) (by decide)
    exact congrArg (fun x => [x]) place
  have start : Workspace.of s = ⟨[1800], [], s.data.contents.mem, [], []⟩ := by
    rw [Workspace.of, top]
    rfl
  have means : meaningItems (meaning ⟨m'.cell, d'.skip cells.length⟩ (envOf [bump]))
      ([py "BUMP"].map .word) (.of s) s.data.contents.rs.length =
      .ok ⟨[], [], Function.update s.data.contents.mem 1800 (s.data.contents.mem 1800 + 1), [],
        []⟩ := by
    rw [start, empty]
    have one := meaning_bump undamaged (i := 1800) rfl ⟨by decide, by decide⟩ low [] []
    simp only [List.map_cons, List.map_nil, meaningItems, List.length_nil, one]
  have fits : (d'.skip cells.length).dp ≤ WORD_BUFFER_BASE := by omega
  have keeps : KeepsNames [bump] := ⟨by decide +kernel, trivial⟩
  obtain ⟨fuel, r, result, ends⟩ := memory_programs_agree rep run' rep' fits (by decide +kernel)
    keeps (by decide +kernel) (by decide +kernel) holds means (by simp) fun _ => 0
  refine ⟨image, m', fuel, r, run, result, ?_⟩
  rcases ends with ends | ⟨e, -⟩ | ⟨e, -⟩
  · exact ends
  · cases e
  · cases e

end Instances

end MinCpuForth.Forth
