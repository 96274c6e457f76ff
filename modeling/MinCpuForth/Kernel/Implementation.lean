import MinCpuForth.Kernel.WordEffects
import MinCpuForth.Lib.Refinement

/-!
# The kernel implements the threaded machine

`NEXT` stands between two words of a thread; from one such state to the next, the emulator does what
the threaded machine does in one step.
-/

namespace MinCpuForth.Kernel
open Python Domain Layout Adapters Emulator Lib Decimal MemoryDictionaryAdapter View Routines

/-- The emulator has halted with what the threaded machine holds. -/
structure HaltedAs (s : EmulatorService) (t : Threaded) : Prop where
  ds : s.data.contents.ds = t.ds
  rs : s.data.contents.rs = t.rs
  mem : s.data.contents.mem = t.mem
  input : s.char_input = t.input
  output : s.char_output = t.output

/-- The emulator is where the threaded machine is: about to run `NEXT`, or in a multiplication that
    never ends. -/
inductive Shows (words : Lexicon) (s : EmulatorService) (t : Threaded) : Prop
  | next (h : AtNext (view s) t)
  | spins (stays : Threaded.step words t = .next t) (d : Diverges EmulatorService.advance s)

/-- What the emulator does where the threaded machine does this. -/
def Follows (words : Lexicon) (s : EmulatorService) (t : Threaded) :
    Outcome PyError Threaded → Prop
  | .next t' => ∃ u, Progresses EmulatorService.advance s u ∧ Shows words u t'
  | .halt => ∃ u, Halts EmulatorService.advance s u ∧ HaltedAs u t
  | .fail e => Fails EmulatorService.advance s e
  | .unknown => True

section Steps

variable {words : Lexicon} {s u : EmulatorService} {t t' : Threaded} {w : KernelWord}
  {k : CodeWordDto}

/-- The threaded machine's state is that of the emulator. -/
lemma AtNext.unique {v : View} (h : AtNext v t) (h' : AtNext v t') : t = t' := by
  apply Threaded.ext
  · exact h.ip.symm.trans h'.ip
  · exact h.ds.symm.trans h'.ds
  · exact h.rs.symm.trans h'.rs
  · exact h.mem.symm.trans h'.mem
  · exact h.input.symm.trans h'.input
  · exact h.output.symm.trans h'.output

/-- A run from one word of a thread to another takes a step. -/
lemma AtNext.progress (h : AtNext (view s) t) (r : Reaches EmulatorService.advance s u)
    (h' : AtNext (view u) t') (ne : t ≠ t') : Progresses EmulatorService.advance s u := by
  cases Relation.reflTransGen_iff_eq_or_transGen.mp r with
  | inl same =>
    subst same
    exact absurd (h.unique h') ne
  | inr p => exact p

/-- The emulator has come to the next word. -/
lemma AtNext.follows (h : AtNext (view s) t) (ne : t ≠ t')
    (run : ∃ u, Reaches EmulatorService.advance s u ∧ AtNext (view u) t') :
    Follows words s t (.next t') := by
  obtain ⟨u, r, h'⟩ := run
  exact ⟨u, h.progress r h' ne, .next h'⟩

/-- The same for a run of the view. -/
lemma AtNext.follows_view (h : AtNext (view s) t) (ne : t ≠ t')
    (run : ∃ v, Reaches step (view s) v ∧ AtNext v t') : Follows words s t (.next t') := by
  obtain ⟨v, r, h'⟩ := run
  obtain ⟨u, r', rfl⟩ := view_simulates.reaches r
  exact h.follows ne ⟨u, r', h'⟩

/-- A word that has moved on along the thread. -/
lemma ne_of_ip (h : t.ip ≠ t'.ip) : t ≠ t' := fun e => h (congrArg Threaded.ip e)

/-- The colon words. -/
lemma AtNext.enter_follows (h : AtNext (view s) t) (ip : Below t.ip) (cfa : Below (t.mem t.ip))
    (enter : t.mem (t.mem t.ip) = KernelBuilder.ENTER_INDEX) : Follows words s t t.enter := by
  rw [Threaded.enter]
  split
  · rename_i room
    refine h.follows_view (fun e => ?_) (enter_run h ip cfa enter room)
    have longer := congrArg (List.length ∘ Threaded.rs) e
    simp at longer
  · rename_i full
    exact view_simulates.fails (enter_overflow h ip cfa enter full)

/-- The words on the stacks. -/
lemma AtNext.stack_follows {sw : StackWord} (h : AtNext (view s) t) (ip : Below t.ip)
    (cfa : Below (t.mem t.ip)) (listed : k ∈ CODE_WORDS) (same : k.name = sw.name)
    (label : kernelLabels.lookup k.routine_label = some (t.mem (t.mem t.ip)))
    (here : Threaded.step words t = t.perform words (.stack sw)) :
    Follows words s t (t.perform words (.stack sw)) := by
  obtain ⟨v, r, entered⟩ := next_run h ip cfa
  have found : KernelBuilder.label_index kernelLabels k.routine_label =
      .ok (t.mem (t.mem t.ip)) := by
    rw [KernelBuilder.label_index, label]
  obtain ⟨above, code⟩ := (stackWord_runs sw).codeAt listed same found
  rw [← entered.pc] at above code
  rw [← entered.program] at code
  have meets := performs sw entered.runs above code
  rw [entered.ds, entered.rs] at meets
  have p := entered.performs meets fun ds rs e => by
    have fit := (StackWord.verdict_ok e).2
    omega
  rw [Threaded.perform] at here ⊢
  cases verdict : sw.verdict t.ds t.rs 0 with
  | ok ds rs =>
    rw [verdict] at p
    obtain ⟨v', r', next⟩ := p
    exact h.follows_view (ne_of_ip (by simp)) ⟨v', r.trans r', next⟩
  | fault e =>
    rw [verdict] at p
    exact view_simulates.fails (r.fails p)
  | diverges =>
    rw [verdict] at p here
    have d : Diverges EmulatorService.advance s := view_simulates.diverges (r.diverges p)
    obtain ⟨u, e⟩ := d s .refl
    exact ⟨u, .head e .refl, .spins here fun x r => d x (.head e r)⟩

end Steps

section Steps

variable {words : Lexicon} {s u : EmulatorService} {t t' : Threaded} {k : CodeWordDto}
  {label : PyStr}

/-- `@` and `C@`. -/
lemma AtNext.fetch_follows (h : AtNext (view s) t)
    (enters : ∃ u, Reaches EmulatorService.advance s u ∧ Enters label u ∧ Entered (view u) t)
    (code : ∀ u, Enters label u → Loaded FETCH_code u.pc (bare u)) :
    Follows words s t t.fetch := by
  obtain ⟨u, r, enters, entered⟩ := enters
  have loaded := code u enters
  have size := depth_view (s := u)
  have hds : u.data.contents.ds = t.ds := entered.ds
  rw [Threaded.fetch]
  rcases stack : t.ds with _ | ⟨a, ds⟩
  · exact r.fails (loaded.underflow (hds.trans stack))
  · dsimp only
    rcases place : cellOf a with _ | i
    · obtain ⟨one, above, on_top, -⟩ := DataPath.below_top (hds.trans stack)
      have top := one.le_base
      have same : (bare u).sp = u.data.data_stack.pointer := rfl
      rw [on_top] at place
      exact r.fails (loaded.fails (Int.add_zero _).symm (Nat.zero_le _)
        (fetch_block_fails enters.running (by omega) place).1)
    · dsimp only
      split
      · rename_i below
        obtain ⟨x, r', next⟩ := Entered.fetches enters loaded entered stack place below
        exact h.follows (ne_of_ip (by simp)) ⟨x, r.trans r', next⟩
      · trivial

/-- `!` and `C!`. -/
lemma AtNext.store_follows (h : AtNext (view s) t)
    (enters : ∃ u, Reaches EmulatorService.advance s u ∧ Enters label u ∧ Entered (view u) t)
    (code : ∀ u, Enters label u → Loaded STOREW_code u.pc (bare u)) :
    Follows words s t t.store := by
  obtain ⟨u, r, enters, entered⟩ := enters
  have loaded := code u enters
  have size := depth_view (s := u)
  have hds : u.data.contents.ds = t.ds := entered.ds
  have same : (bare u).sp = u.data.data_stack.pointer := rfl
  rw [Threaded.store]
  rcases stack : t.ds with _ | ⟨a, _ | ⟨x, ds⟩⟩
  · exact r.fails (loaded.underflow (hds.trans stack))
  · rw [hds, stack, List.length_singleton] at size
    exact r.fails (loaded.fails (Int.add_zero _).symm (Nat.zero_le _)
      (store_block_underflow enters.running (by omega)).1)
  · rw [hds, stack, List.length_cons, List.length_cons] at size
    dsimp only
    rcases place : cellOf a with _ | i
    · obtain ⟨one, above, on_top, -⟩ := DataPath.below_top (hds.trans stack)
      rw [on_top] at place
      exact r.fails (loaded.fails (Int.add_zero _).symm (Nat.zero_le _)
        (store_block_fails enters.running (by omega) place).1)
    · dsimp only
      split
      · rename_i below
        obtain ⟨y, r', next⟩ := Entered.stores enters loaded entered stack place below
        exact h.follows (ne_of_ip (by simp)) ⟨y, r.trans r', next⟩
      · trivial

/-- `WORD`. -/
lemma AtNext.readToken_follows (h : AtNext (view s) t)
    (enters : ∃ u, Reaches EmulatorService.advance s u ∧ Enters "WORD" u ∧ Entered (view u) t) :
    Follows words s t t.readToken := by
  obtain ⟨u, r, enters, entered⟩ := enters
  have loaded := enters.loaded 38 WORD_code rfl (.head _) rfl (by decide)
  have hds : u.data.contents.ds = t.ds := entered.ds
  rw [Threaded.readToken]
  rcases stack : t.ds with _ | ⟨delim, ds⟩
  · exact r.fails (loaded.underflow (hds.trans stack))
  · dsimp only
    split
    · rename_i fits
      rcases more : (t.input.dropWhile (· = delim)).dropWhile (· ≠ delim) with _ | ⟨d, rest⟩
      · obtain ⟨one, above, on_top, -⟩ := DataPath.below_top (hds.trans stack)
        have top := one.le_base
        have same : (bare u).sp = u.data.data_stack.pointer := rfl
        have delim_eq : (bare u).cell (bare u).sp = delim := on_top.symm
        have input : (bare u).input = t.input := entered.input
        have f := word_exhausted (v := bare u) loaded (by omega) (by rwa [delim_eq, input])
          (by rwa [delim_eq, input])
        exact r.fails (routine_simulates.fails f).of_upTo
      · obtain ⟨x, r', next⟩ := Entered.reads enters entered stack fits more
        exact h.follows (ne_of_ip (by simp)) ⟨x, r.trans r', next⟩
    · trivial

/-- `NUMBER` and `FIND`, given what they make of a string. -/
lemma AtNext.convert_follows {f : List ℤ → Option (ℤ × ℤ)} (h : AtNext (view s) t)
    (enters : ∃ u, Reaches EmulatorService.advance s u ∧ Enters label u ∧ Entered (view u) t)
    (code : ∀ u, Enters label u → ∃ r rest, Loaded (.POP_D r :: rest) u.pc (bare u))
    (answers : ∀ (a : ℤ) (ds codes : List ℤ) (x y : ℤ), t.ds = a :: ds → ds.length + 2 ≤ 1024 →
      0 ≤ a → a + codes.length < DICTIONARY_TOP → CellsAt t.mem a (codes.length :: codes) →
      f codes = some (x, y) → ∃ u, Reaches EmulatorService.advance s u ∧
        AtNext (view u) { t with ip := t.ip + 1, ds := y :: x :: ds }) :
    Follows words s t (t.convert f) := by
  rw [Threaded.convert]
  rcases stack : t.ds with _ | ⟨a, ds⟩
  · obtain ⟨u, r, enters, entered⟩ := enters
    have hds : u.data.contents.ds = t.ds := entered.ds
    obtain ⟨_, _, loaded⟩ := code u enters
    exact r.fails (loaded.underflow (hds.trans stack))
  · dsimp only
    rcases found : (Threaded.stringAt? t.mem a).bind f with _ | ⟨x, y⟩
    · trivial
    · obtain ⟨codes, string, value⟩ := Option.bind_eq_some_iff.mp found
      obtain ⟨low, high, cells⟩ := stringAt?_eq_some string
      dsimp only
      split
      · rename_i room
        have run := answers a ds codes x y stack room low high cells value
        exact h.follows (ne_of_ip (by simp)) run
      · trivial

end Steps

section Machine

variable {n : ℕ} {m : ListMemoryAdapter n} {d : Dictionary} {s : EmulatorService} {t : Threaded}
  {w : KernelWord}

/-- The kernel's primitive of a name. -/
lemma primitive_named {p : KernelPrimitive} {k : CodeWordDto} (i : ℕ) (hp : PRIMITIVES[i]? = some p)
    (listed : k ∈ CODE_WORDS) (named : k.name = p.word.name) :
    k.routine_label = p.word.routine_label := by
  have same : k = p.word := List.inj_on_of_nodup_map code_words_nodup listed
    (List.mem_map_of_mem (List.mem_of_getElem? hp)) named
  rw [same]

lemma KEY_runs : RunsCode "KEY" fun _ => KEY_code :=
  .of_index 34 rfl rfl rfl (.head _) rfl

lemma EMIT_runs : RunsCode "EMIT" fun _ => EMIT_code :=
  .of_index 35 rfl rfl rfl (.head _) rfl

/-- The emulator does what a word of the threaded machine does. -/
lemma AtNext.word_follows (rep : Represents m d) (fits : d.dp ≤ DICTIONARY_TOP)
    (h : AtNext (view s) t) (ip : Threaded.InDictionary t.ip)
    (cfa : Threaded.InDictionary (t.mem t.ip))
    (called : KernelWord.at? (t.mem (t.mem t.ip)) = some w)
    (here : Threaded.step ⟨m.cell, d⟩ t = t.perform ⟨m.cell, d⟩ w) :
    Follows ⟨m.cell, d⟩ s t (t.perform ⟨m.cell, d⟩ w) := by
  have lay := Layout.values
  obtain ⟨k, listed, named, label⟩ := KernelWord.of_at? called
  have invokes : Invokes t.mem t.ip k.routine_label := ⟨ip.1, ip.2, cfa.1, cfa.2, label⟩
  obtain ⟨below, below'⟩ := invokes.below
  have enters := h.enters invokes
  cases w with
  | LIT =>
    have run := lit_run h below ⟨by omega, by omega⟩ below'
      (invokes.code LIT_runs listed named)
    rw [Threaded.perform]
    split
    · rename_i room
      rw [if_pos room] at run
      exact h.follows_view (ne_of_ip (by simp)) run
    · rename_i full
      rw [if_neg full] at run
      exact view_simulates.fails run
  | EXIT =>
    have code := invokes.code EXIT_runs listed named
    rw [Threaded.perform]
    rcases top : t.rs with _ | ⟨back, rs⟩
    · exact view_simulates.fails (exit_fails h below below' code top)
    · refine h.follows_view (fun e => ?_) (exit_run h below below' code top)
      have shorter := congrArg (List.length ∘ Threaded.rs) e
      simp [top] at shorter
  | BYE =>
    obtain ⟨v, halts, ds, rs, mem, input, output⟩ :=
      bye_run h below below' (invokes.code BYE_runs listed named)
    obtain ⟨u, halts', rfl⟩ := view_simulates.halts halts
    exact ⟨u, halts', ds, rs, mem, input, output⟩
  | stack sw => exact h.stack_follows below below' listed named label here
  | FETCH =>
    rw [primitive_named 18 rfl listed named] at enters
    exact h.fetch_follows enters fun u e =>
      e.loaded 19 (fun _ => FETCH_code) rfl (.head _) rfl (by decide)
  | CFETCH =>
    rw [primitive_named 20 rfl listed named] at enters
    exact h.fetch_follows enters fun u e =>
      e.loaded 21 (fun _ => CFETCH_code) rfl (.head _) rfl (by decide)
  | STOREW =>
    rw [primitive_named 19 rfl listed named] at enters
    exact h.store_follows enters fun u e =>
      e.loaded 20 (fun _ => STOREW_code) rfl (.head _) rfl (by decide)
  | CSTOREW =>
    rw [primitive_named 21 rfl listed named] at enters
    exact h.store_follows enters fun u e =>
      e.loaded 22 (fun _ => CSTOREW_code) rfl (.head _) rfl (by decide)
  | KEY =>
    have code := invokes.code KEY_runs listed named
    rw [Threaded.perform]
    rcases typed : t.input with _ | ⟨c, input⟩
    · exact view_simulates.fails (key_exhausted h below below' code typed)
    · dsimp only
      split
      · rename_i room
        exact h.follows_view (ne_of_ip (by simp)) (key_run h below below' code typed room)
      · rename_i full
        exact view_simulates.fails (key_overflow h below below' code typed full)
  | EMIT =>
    have code := invokes.code EMIT_runs listed named
    rw [Threaded.perform]
    rcases stack : t.ds with _ | ⟨c, ds⟩
    · exact view_simulates.fails (emit_fails h below below' code stack)
    · exact h.follows_view (ne_of_ip (by simp)) (emit_run h below below' code stack)
  | NUMBER =>
    rw [primitive_named 36 rfl listed named] at enters invokes
    refine h.convert_follows enters (fun u e => ⟨_, _, e.loaded 37 NUMBER_code rfl (.head _)
      rfl (by decide)⟩) fun a ds codes x y stack room low high cells value => ?_
    have run := h.number invokes stack room low high cells
    rwa [Option.some.inj value] at run
  | WORD =>
    rw [primitive_named 37 rfl listed named] at enters
    exact h.readToken_follows enters
  | FIND =>
    rw [primitive_named 38 rfl listed named] at enters invokes
    refine h.convert_follows enters (fun u e => ⟨_, _, e.loaded 39 FIND_code rfl (.head _)
      rfl (by decide)⟩) fun a ds codes x y stack room low high cells value => ?_
    rw [Threaded.lookup] at value
    split at value
    · rename_i intact
      have same : ∀ i, 0 ≤ i → i < d.dp → t.mem i = m.cell i := by
        intro i lo hi
        obtain ⟨j, rfl⟩ := Int.eq_ofNat_of_zero_le lo
        exact intact j (by simp only; omega)
      have run := h.find rep fits same invokes stack room low high cells
      rwa [Option.some.inj value] at run
    · cases value

/-- The emulator does what the threaded machine does. -/
lemma AtNext.step_follows (rep : Represents m d) (fits : d.dp ≤ DICTIONARY_TOP)
    (h : AtNext (view s) t) : Follows ⟨m.cell, d⟩ s t (Threaded.step ⟨m.cell, d⟩ t) := by
  have lay := Layout.values
  by_cases inside : Threaded.InDictionary t.ip ∧ Threaded.InDictionary (t.mem t.ip)
  · by_cases enter : t.mem (t.mem t.ip) = KernelBuilder.ENTER_INDEX
    · rw [Threaded.step, if_pos inside, if_pos enter]
      exact h.enter_follows ⟨inside.1.1, by omega⟩ ⟨inside.2.1, by omega⟩ enter
    · cases called : KernelWord.at? (t.mem (t.mem t.ip)) with
      | none =>
        simp only [Threaded.step, if_pos inside, if_neg enter, called]
        trivial
      | some w =>
        have here : Threaded.step ⟨m.cell, d⟩ t = t.perform ⟨m.cell, d⟩ w := by
          simp only [Threaded.step, if_pos inside, if_neg enter, called]
        rw [here]
        exact h.word_follows rep fits inside.1 inside.2 called here
  · rw [Threaded.step, if_neg inside]
    trivial

/-- The kernel on the emulator implements the threaded machine. -/
lemma kernel_implements (rep : Represents m d) (fits : d.dp ≤ DICTIONARY_TOP) :
    Implements (Shows ⟨m.cell, d⟩) HaltedAs EmulatorService.advance
      (Threaded.step ⟨m.cell, d⟩) := by
  have follows : ∀ s t, Shows ⟨m.cell, d⟩ s t →
      Follows ⟨m.cell, d⟩ s t (Threaded.step ⟨m.cell, d⟩ t) := by
    intro s t shows
    cases shows with
    | next h => exact h.step_follows rep fits
    | spins stays div =>
      rw [stays]
      obtain ⟨u, e⟩ := div s .refl
      exact ⟨u, .head e .refl, .spins stays fun x r => div x (.head e r)⟩
  constructor
  · intro s t t' shows e
    have f := follows s t shows
    rwa [e] at f
  · intro s t shows e
    have f := follows s t shows
    rwa [e] at f
  · intro s t err shows e
    have f := follows s t shows
    rwa [e] at f

end Machine

namespace Threaded

variable {words : Lexicon} {t : Threaded} {w : KernelWord}

/-- A cell that calls a routine of the kernel. -/
lemma step_invokes {p : KernelPrimitive} (i : ℕ) (hp : PRIMITIVES[i]? = some p)
    (named : p.word.name = w.name) (invokes : Invokes t.mem t.ip p.word.routine_label) :
    Threaded.step words t = t.perform words w := by
  have listed : p.word ∈ CODE_WORDS := List.mem_map_of_mem (List.mem_of_getElem? hp)
  obtain ⟨ip_low, ip_high, cfa_low, cfa_high, label⟩ := invokes
  have listed' := List.mem_map_of_mem (f := fun k => kernelLabels.lookup k.routine_label) listed
  rw [KernelWord.routine_labels, label] at listed'
  obtain ⟨r, mem, base⟩ := List.mem_map.mp listed'
  have other : ∀ r ∈ ROUTINES.tail, r.base ≠ KernelBuilder.ENTER_INDEX := by decide
  have ne : t.mem (t.mem t.ip) ≠ KernelBuilder.ENTER_INDEX := by
    rw [← Option.some.inj base]
    exact other r mem
  rw [Threaded.step, if_pos ⟨⟨ip_low, ip_high⟩, cfa_low, cfa_high⟩, if_neg ne,
    KernelWord.at?_routine listed named label]

end Threaded

section System

variable {n : ℕ} {m m' : ListMemoryAdapter n} {d d' : Dictionary}

/-- The threaded machine at a thread, with what an emulator holds. -/
def Threaded.start (s : EmulatorService) (ip : ℤ) : Threaded where
  ip := ip
  ds := s.data.contents.ds
  rs := s.data.contents.rs
  mem := s.data.contents.mem
  input := s.char_input
  output := s.char_output

/-- `START` goes to the boot thread. -/
lemma boot_next (s : EmulatorService) (image : KernelImageDto)
    (program : image.program = kernelProgram) : ∃ u,
    Reaches EmulatorService.advance (boot s image) u ∧
      AtNext (view u) (Threaded.start s image.boot_ip) := by
  obtain ⟨v, r, next⟩ := start_run (v := view (boot s image)) (runs_view rfl) program rfl
  obtain ⟨u, r', rfl⟩ := view_simulates.reaches r
  have ip : (view (boot s image)).regs Register.IP = image.boot_ip := by
    simp [boot, view]
  rw [ip] at next
  exact ⟨u, r', next⟩

end System

end MinCpuForth.Kernel
