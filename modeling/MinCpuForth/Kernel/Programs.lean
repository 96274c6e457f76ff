import MinCpuForth.Kernel.Vocabulary

/-!
# Threads run as the reference semantics says

The words of an environment, installed in the dictionary, do on the machine what `call` says. The
induction is over the environment: a colon word's thread holds only code field addresses of words
installed before it.
-/

namespace MinCpuForth.Kernel
open Python Domain Layout Adapters Emulator Lib KernelBuilder MemoryDictionaryAdapter View

namespace StackWord

/-- A stack comment does not look below the own return stack. -/
lemma comment_append {w : StackWord} {ds own base : List ℤ} {depth : ℕ}
    (h : w.returnDepth own.length = some depth) :
    w.comment ds (own ++ base) = (w.comment ds own).map fun p => (p.1, p.2 ++ base) := by
  cases w with
  | FROMR | RFETCH =>
    cases own with
    | nil => cases h
    | cons a own => rfl
  | _ => rcases ds with _ | ⟨a, _ | ⟨b, _ | ⟨c, s⟩⟩⟩ <;> rfl

/-- The depth that a stack comment leaves. -/
lemma comment_depth {w : StackWord} {ds own ds' rs' : List ℤ} {depth : ℕ}
    (h : w.returnDepth own.length = some depth) (e : w.comment ds own = some (ds', rs')) :
    rs'.length = depth := by
  cases w with
  | FROMR | RFETCH =>
    cases own with
    | nil => cases h
    | cons a own =>
      cases h
      cases e
      rfl
  | _ => rcases ds with _ | ⟨a, _ | ⟨b, _ | ⟨c, s⟩⟩⟩ <;> cases e <;> cases h <;> rfl

end StackWord

/-- The verdict with the cells below the own return stack put back. -/
def Verdict.over (base : List ℤ) : Verdict → Verdict
  | .ok ds rs => .ok ds (rs ++ base)
  | other => other

namespace StackWord

/-- The verdict on the machine's return stack is that on the own one. -/
lemma verdict_over {w : StackWord} {ds own base : List ℤ} {depth : ℕ}
    (h : w.returnDepth own.length = some depth) :
    w.verdict ds (own ++ base) 0 = (w.verdict ds own base.length).over base := by
  rw [verdict, verdict, comment_append h]
  cases w.comment ds own with
  | none => rfl
  | some p =>
    by_cases endless : w.Endless ds
    · simp [endless, Verdict.over]
    · by_cases fit : p.1.length ≤ 1024 ∧ base.length + p.2.length ≤ 1024
      · have fit' : p.1.length ≤ 1024 ∧ 0 + (p.2 ++ base).length ≤ 1024 := by
          rw [List.length_append]
          omega
        simp only [Option.map_some, if_neg endless, if_pos fit, if_pos fit', Verdict.over]
      · have fit' : ¬(p.1.length ≤ 1024 ∧ 0 + (p.2 ++ base).length ≤ 1024) := by
          rw [List.length_append]
          omega
        simp only [Option.map_some, if_neg endless, if_neg fit, if_neg fit', Verdict.over]

/-- What a word leaves when it comes back. -/
lemma verdict_ok {w : StackWord} {ds rs ds' rs' : List ℤ} {below : ℕ}
    (h : w.verdict ds rs below = .ok ds' rs') :
    w.comment ds rs = some (ds', rs') ∧ ds'.length ≤ 1024 ∧ below + rs'.length ≤ 1024 := by
  rw [verdict] at h
  cases e : w.comment ds rs with
  | none =>
    rw [e] at h
    cases h
  | some p =>
    rw [e] at h
    dsimp only at h
    split at h
    · cases h
    · split at h
      · rename_i fit
        cases h
        exact ⟨rfl, fit⟩
      · cases h

end StackWord

/-- What installing the words of an environment has left. -/
inductive Installed : Env → Dictionary → PyDict ℤ → Prop
  | nil : Installed [] Dictionary.empty []
  | cons {env : Env} {d : Dictionary} {word_cfas : PyDict ℤ} {w : WordSpecDto} {op : Append}
      (rest : Installed env d word_cfas) (h : appendOf word_cfas w = .ok op) :
      Installed (w :: env) (d.append op) (word_cfas.setItem w.name (d.returned op))

/-- Laying out words extends the environment. -/
lemma Installed.laidOut {env : Env} {d d' : Dictionary} {word_cfas word_cfas' : PyDict ℤ}
    (h : Installed env d word_cfas) {words : List WordSpecDto}
    (l : laidOut d word_cfas words = .ok (d', word_cfas')) :
    Installed (words.reverse ++ env) d' word_cfas' := by
  induction words generalizing env d word_cfas with
  | nil =>
    cases l
    exact h
  | cons w words ih =>
    obtain ⟨op, e, rest⟩ := laidOut_cons l
    simpa using ih (h.cons e) rest

/-- The memory holds the words, and they lie below the stacks. -/
structure Holds (mem : ℤ → ℤ) (d : Dictionary) : Prop where
  dp_le : d.dp ≤ DICTIONARY_TOP
  stored : ∀ e ∈ d.entries, CellsAt mem e.start e.cells

/-- The newest word, and the older ones. -/
lemma Holds.newest {mem : ℤ → ℤ} {d : Dictionary} {name : PyStr} {code_field : ℤ} {thread : List ℤ}
    {immediate : Bool} (h : Holds mem (d.append (.word name code_field thread immediate))) :
    let cfa := d.returned (.word name code_field thread immediate)
    Below cfa ∧ mem cfa = code_field ∧ CellsAt mem (cfa + 1) thread ∧
      cfa + 1 + thread.length ≤ DICTIONARY_TOP ∧ Holds mem d := by
  have lay := Layout.values
  have base := d.linked.base_le
  let e := d.next name code_field thread immediate
  have cells := Entry.cellsAt_iff.mp (h.stored e (List.mem_cons_self ..))
  have top : e.stop ≤ DICTIONARY_TOP := h.dp_le
  have start : e.start = d.dp := rfl
  have at_cfa : d.returned (.word name code_field thread immediate) =
      d.dp + 3 + 1 + name.length := rfl
  simp only [Entry.stop, Entry.length_cells, start] at top
  have shape : e.name.length = name.length ∧ e.thread.length = thread.length := ⟨rfl, rfl⟩
  refine ⟨⟨by omega, by omega⟩, cells.2.2.2.2.1, cells.2.2.2.2.2, by omega, by omega, ?_⟩
  intro e' mem'
  exact h.stored e' (List.mem_cons_of_mem _ mem')

/-- What a run is to do where the reference semantics answers `f`. -/
def Realizes (v : View) (t : Threaded) (ip : ℤ) (base : List ℤ) (depth : ℕ) (f : Option Verdict) :
    Prop :=
  ∃ verdict, f = some verdict ∧ Performs v t ip (verdict.over base) ∧
    ∀ ds rs, verdict = .ok ds rs → rs.length = depth

/-- The words of the table do what the reference semantics says. -/
def WordsPerform (env : Env) (word_cfas : PyDict ℤ) (mem : ℤ → ℤ) : Prop :=
  ∀ (name : PyStr) (v : View) (t : Threaded) (own base : List ℤ) (depth : ℕ), AtNext v t →
    t.mem = mem → Below t.ip → word_cfas.lookup name = some (mem t.ip) → t.rs = own ++ base →
    wordDepth env name own.length = some depth →
    Realizes v t (t.ip + 1) base depth (call env name t.ds own base.length)

/-- The word under a reserved name is the kernel's. -/
def ReservedPerform (word_cfas : PyDict ℤ) (mem : ℤ → ℤ) : Prop :=
  ∀ name ∈ RESERVED, ∀ cfa, word_cfas.lookup name = some cfa → Below cfa ∧
    ∀ code, RunsCode name code → CodeAt kernelProgram (mem cfa) (code (mem cfa))

/-- How many cells the items take. -/
def itemsSize : List Item → ℕ
  | [] => 0
  | .lit _ :: items => itemsSize items + 2
  | .word _ :: items => itemsSize items + 1

/-- A body takes a cell for each name. -/
lemma itemsSize_words (names : List PyStr) : itemsSize (names.map .word) = names.length := by
  induction names with
  | nil => rfl
  | cons name names ih => simp [itemsSize, ih]

/-- The cells from `ip` on hold the items. -/
def Laid (word_cfas : PyDict ℤ) (mem : ℤ → ℤ) : ℤ → List Item → Prop
  | _, [] => True
  | ip, .lit n :: items =>
    word_cfas.lookup (py "LIT") = some (mem ip) ∧ mem (ip + 1) = n ∧
      Laid word_cfas mem (ip + 2) items
  | ip, .word name :: items =>
    word_cfas.lookup name = some (mem ip) ∧ Laid word_cfas mem (ip + 1) items

variable {env : Env} {word_cfas : PyDict ℤ} {mem : ℤ → ℤ}

/-- A run, and then what the rest of the thread is to do. -/
lemma Realizes.after {v u : View} {t t' : Threaded} {ip : ℤ} {base : List ℤ} {depth : ℕ}
    {f : Option Verdict} (r : Reaches step v u) (mem : t'.mem = t.mem) (input : t'.input = t.input)
    (output : t'.output = t.output) (h : Realizes u t' ip base depth f) :
    Realizes v t ip base depth f := by
  obtain ⟨verdict, e, p, leaves⟩ := h
  exact ⟨verdict, e, p.after r mem input output, leaves⟩

/-- Items run one after the other. -/
lemma items_run (words : WordsPerform env word_cfas mem) (reserved : ReservedPerform word_cfas mem)
    {items : List Item} {v : View} {t : Threaded} (own base : List ℤ) {depth : ℕ}
    (next : AtNext v t) (hm : t.mem = mem) (laid : Laid word_cfas mem t.ip items) (lo : 0 ≤ t.ip)
    (hi : t.ip + itemsSize items ≤ DICTIONARY_TOP) (split : t.rs = own ++ base)
    (hd : itemsDepth env items own.length = some depth) :
    Realizes v t (t.ip + itemsSize items) base depth
      (runItems (call env) items t.ds own base.length) := by
  induction items generalizing v t own with
  | nil =>
    cases hd
    refine ⟨.ok t.ds own, rfl, ⟨v, .refl, ?_⟩, ?_⟩
    · simpa [← split, itemsSize] using next
    · intro ds rs e
      cases e
      rfl
  | cons item items ih =>
    cases item with
    | lit n =>
      obtain ⟨lit, cell, rest⟩ := laid
      obtain ⟨below, code⟩ := reserved "LIT" (List.mem_cons_self ..) _ lit
      simp only [itemsSize, Nat.cast_add, Nat.cast_ofNat] at hi ⊢
      subst hm
      have pushed := lit_run next ⟨lo, by omega⟩ ⟨by omega, by omega⟩ below (code _ LIT_runs)
      by_cases room : t.ds.length < 1024
      · rw [if_pos room, cell] at pushed
        obtain ⟨u, r, next'⟩ := pushed
        have last := ih own next' rfl rest (by simp only; omega) (by simp only; omega) split hd
        have stop : t.ip + 2 + (itemsSize items : ℤ) = t.ip + (itemsSize items + 2) := by omega
        rw [runItems, if_pos room, ← stop]
        exact last.after r rfl rfl rfl
      · rw [if_neg room] at pushed
        exact ⟨.fault .stackOverflow, by rw [runItems, if_neg room], pushed, nofun⟩
    | word name =>
      obtain ⟨found, rest⟩ := laid
      obtain ⟨between, hd, hd'⟩ := Option.bind_eq_some_iff.mp hd
      simp only [itemsSize, Nat.cast_add, Nat.cast_one] at hi ⊢
      obtain ⟨verdict, e, p, leaves⟩ :=
        words name v t own base between next hm ⟨lo, by omega⟩ found split hd
      rw [runItems, e]
      cases verdict with
      | ok ds rs =>
        obtain ⟨u, r, next'⟩ := p
        rw [← leaves ds rs rfl] at hd'
        have last := ih rs next' hm rest (by simp only; omega) (by simp only; omega) rfl hd'
        have stop : t.ip + 1 + (itemsSize items : ℤ) = t.ip + (itemsSize items + 1) := by omega
        rw [← stop]
        exact last.after r rfl rfl rfl
      | fault err => exact ⟨_, rfl, p, nofun⟩
      | diverges => exact ⟨_, rfl, p, nofun⟩

/-- A thread of names, and the word that ends it. -/
lemma thread_laid {names : List PyStr} {last : PyStr} {thread : List ℤ} {ip : ℤ}
    (h : (names ++ [last]).mapM (cfa_of word_cfas) = .ok thread) (cells : CellsAt mem ip thread) :
    thread.length = names.length + 1 ∧ Laid word_cfas mem ip (names.map .word) ∧
      word_cfas.lookup last = some (mem (ip + names.length)) := by
  have known : ∀ {name : PyStr} {cfa : ℤ}, cfa_of word_cfas name = .ok cfa →
      word_cfas.lookup name = some cfa := by
    intro name cfa e
    rw [cfa_of] at e
    split at e
    · cases e
      assumption
    · cases e
  induction names generalizing ip thread with
  | nil =>
    obtain ⟨cfa, rest, e, e', rfl⟩ := Fallible.mapM_cons_eq_ok.mp h
    cases e'
    refine ⟨rfl, trivial, ?_⟩
    rw [known e, ← cells.1]
    simp
  | cons name names ih =>
    obtain ⟨cfa, rest, e, e', rfl⟩ := Fallible.mapM_cons_eq_ok.mp h
    obtain ⟨len, laid, final⟩ := ih e' cells.2
    refine ⟨by simp [len], ⟨?_, laid⟩, ?_⟩
    · rw [known e, ← cells.1]
    · rw [final, List.length_cons]
      congr 2
      omega

/-- A CODE word on the stacks. -/
lemma code_performs {w : CodeWordDto} {v : View} {t : Threaded} {own base : List ℤ} {depth : ℕ}
    {routine : ℤ} (mem' : w ∈ CODE_WORDS) (next : AtNext v t) (ip : Below t.ip)
    (below : Below (t.mem t.ip)) (cell : t.mem (t.mem t.ip) = routine)
    (label : label_index kernelLabels w.routine_label = .ok routine) (split : t.rs = own ++ base)
    (hd : (StackWord.ofName? w.name).bind (·.returnDepth own.length) = some depth) :
    Realizes v t (t.ip + 1) base depth
      ((StackWord.ofName? w.name).map (·.verdict t.ds own base.length)) := by
  obtain ⟨sw, e, hd⟩ := Option.bind_eq_some_iff.mp hd
  obtain ⟨u, r, entered⟩ := next_run next ip below
  obtain ⟨above, code⟩ := (stackWord_runs sw).codeAt mem' (StackWord.name_of_ofName? e).symm label
  have pc : u.pc = routine := entered.pc.trans cell
  rw [← pc] at above code
  rw [← entered.program] at code
  have meets := performs sw entered.runs above code
  rw [entered.ds, entered.rs, split] at meets
  have p := entered.performs meets fun ds rs e => by
    have fit := (StackWord.verdict_ok e).2
    omega
  rw [StackWord.verdict_over hd] at p
  refine ⟨sw.verdict t.ds own base.length, by rw [e]; rfl, p.after r rfl rfl rfl, ?_⟩
  intro ds rs e
  exact StackWord.comment_depth hd (StackWord.verdict_ok e).1

/-- A colon word. -/
lemma colon_performs {w : ColonWordDto} {v : View} {t : Threaded} {own base : List ℤ}
    {thread : List ℤ} (words : WordsPerform env word_cfas mem)
    (reserved : ReservedPerform word_cfas mem)
    (resolved : (w.words ++ [EXIT_WORD]).mapM (cfa_of word_cfas) = .ok thread)
    (balanced : Balanced env (w.words.map .word)) (next : AtNext v t) (hm : t.mem = mem)
    (ip : Below t.ip) (below : Below (t.mem t.ip))
    (cell : t.mem (t.mem t.ip) = ENTER_INDEX) (cells : CellsAt mem (t.mem t.ip + 1) thread)
    (fits : t.mem t.ip + 1 + thread.length ≤ DICTIONARY_TOP) (split : t.rs = own ++ base) :
    Realizes v t (t.ip + 1) base own.length
      (if base.length + own.length < 1024 then
        (runItems (call env) (w.words.map .word) t.ds [] (base.length + own.length + 1)).map
          (.leave own)
      else some (.fault .stackOverflow)) := by
  obtain ⟨len, laid, last⟩ := thread_laid resolved cells
  have depth : t.rs.length = base.length + own.length := by
    rw [split, List.length_append]
    omega
  have size := itemsSize_words w.words
  by_cases room : base.length + own.length < 1024
  · rw [if_pos room]
    obtain ⟨u, r, inside⟩ := enter_run next ip below cell (by omega)
    obtain ⟨verdict, e, p, leaves⟩ := items_run words reserved [] ((t.ip + 1) :: t.rs) inside hm
      laid (by simp only; omega) (by simp only; omega) rfl balanced
    simp only [List.length_cons, depth] at e
    rw [e]
    cases verdict with
    | ok ds rs =>
      obtain ⟨u', r', outside⟩ := p
      obtain rfl : rs = [] := List.eq_nil_of_length_eq_zero (leaves ds rs rfl)
      rw [size] at outside
      -- The thread ends in `EXIT`, with the way back on top of the return stack.
      obtain ⟨below', code⟩ := reserved "EXIT" (by simp [RESERVED]) _ last
      subst hm
      obtain ⟨u'', r'', back⟩ := exit_run outside ⟨by simp only; omega, by simp only; omega⟩ below'
        (code _ EXIT_runs) rfl
      refine ⟨.ok ds own, rfl, ⟨u'', (r.trans r').trans r'', ?_⟩, ?_⟩
      · rwa [split] at back
      · intro ds' rs' e'
        cases e'
        rfl
    | fault err => exact ⟨.fault err, rfl, p.after r rfl rfl rfl, nofun⟩
    | diverges => exact ⟨.diverges, rfl, p.after r rfl rfl rfl, nofun⟩
  · rw [if_neg room]
    exact ⟨.fault .stackOverflow, rfl, enter_overflow next ip below cell (by omega), nofun⟩

/-- A reserved name denotes the CODE word of that name. -/
lemma Installed.reserved {d : Dictionary} (h : Installed env d word_cfas) (sound : Sound env)
    (holds : Holds mem d) : ReservedPerform word_cfas mem := by
  intro name res cfa found
  induction h with
  | nil => cases found
  | cons rest e ih =>
    rename_i env d word_cfas w op
    cases w with
    | code w =>
      obtain ⟨routine, label, rfl⟩ := appendOf_code e
      obtain ⟨below, cell, -, -, older⟩ := holds.newest
      rw [PyDict.lookup_setItem] at found
      split at found
      · rename_i same
        cases found
        refine ⟨below, fun code runs => ?_⟩
        rw [cell]
        exact (runs.codeAt sound.1 same.symm label).2
      · exact ih sound.2 older found
    | colon w =>
      obtain ⟨thread, -, rfl⟩ := appendOf_colon e
      rw [PyDict.lookup_setItem, if_neg] at found
      · exact ih sound.2.2 holds.newest.2.2.2.2 found
      · rintro rfl
        exact sound.1 res

/-- The words of a sound environment do what the reference semantics says. -/
theorem Installed.perform {d : Dictionary} (h : Installed env d word_cfas) (sound : Sound env)
    (holds : Holds mem d) : WordsPerform env word_cfas mem := by
  intro name v t own base depth next hm ip found split hd
  induction h generalizing name v t own base depth with
  | nil => cases found
  | cons rest e ih =>
    rename_i env d word_cfas w op
    cases w with
    | code w =>
      obtain ⟨routine, label, rfl⟩ := appendOf_code e
      obtain ⟨below, cell, -, -, older⟩ := holds.newest
      rw [PyDict.lookup_setItem, WordSpecDto.name] at found
      rw [wordDepth] at hd
      rw [call]
      by_cases same : w.name = name
      · subst same
        rw [if_pos rfl] at hd ⊢
        rw [if_pos rfl] at found
        simp only [Option.some.injEq] at found
        subst hm
        rw [found] at below cell
        exact code_performs sound.1 next ip below cell label split hd
      · rw [if_neg same] at hd ⊢
        rw [if_neg (Ne.symm same)] at found
        exact ih sound.2 older name v t own base depth next hm ip found split hd
    | colon w =>
      obtain ⟨thread, resolved, rfl⟩ := appendOf_colon e
      obtain ⟨below, cell, cells, fits, older⟩ := holds.newest
      rw [PyDict.lookup_setItem, WordSpecDto.name] at found
      rw [wordDepth] at hd
      rw [call]
      by_cases same : w.name = name
      · subst same
        rw [if_pos rfl] at hd ⊢
        rw [if_pos rfl] at found
        simp only [Option.some.injEq] at found hd
        subst hm hd
        rw [found] at below cell cells fits
        exact colon_performs (ih sound.2.2 older) (rest.reserved sound.2.2 older) resolved sound.2.1
          next rfl ip below cell cells fits split
      · rw [if_neg same] at hd ⊢
        rw [if_neg (Ne.symm same)] at found
        exact ih sound.2.2 older name v t own base depth next hm ip found split hd

end MinCpuForth.Kernel
