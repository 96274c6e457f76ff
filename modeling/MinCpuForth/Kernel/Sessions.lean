import MinCpuForth.Adapters.DictionaryHiding
import MinCpuForth.Kernel.Frames
import MinCpuForth.Lib.Refinement

/-!
# Sessions

One machine on which programs are built and run in any order. Every build compiles into the
dictionary that the earlier ones have left, words of the same names included, and the threads of an
image name the words of their own build. No later build and no run takes an image away, also not a
run that fails or that the step guard cuts off in the middle of a word: it goes on doing what the
reference semantics says, on whatever the stacks hold by then.
-/

namespace MinCpuForth.Kernel
open Python Domain Layout Adapters Emulator EmulatorService Lib KernelBuilder
  MemoryDictionaryAdapter

/-- Colon words and a boot thread, and the image that they were built into. -/
structure Program where
  colon_words : List ColonWordDto
  items : List Item
  image : KernelImageDto

/-- What the reference semantics says of the program on these stacks. -/
def Program.verdict (p : Program) (c : DataPath.Contents) : Option Verdict :=
  runItems (call (envOf p.colon_words)) p.items c.ds [] c.rs.length

/-- The emulator ends as the verdict says, and leaves all else as it was in `before`. -/
def EndsFrom (s before : EmulatorService) : Verdict → Prop
  | .ok ds _ => ∃ s', Halts EmulatorService.advance s s' ∧
      s'.data.contents = { before.data.contents with ds := ds } ∧
      s'.char_input = before.char_input ∧ s'.char_output = before.char_output
  | .fault e => Fails EmulatorService.advance s e
  | .diverges => Diverges EmulatorService.advance s

/-- The image of a program stands in the memory below `top`. -/
structure Program.InPlace (p : Program) (mem : ℤ → ℤ) (top : ℤ) : Prop where
  program : p.image.program = kernelProgram
  sound : Sound (envOf p.colon_words)
  balanced : Balanced (envOf p.colon_words) p.items
  threads : Threads mem top (envOf p.colon_words) p.image.word_cfas
  base : DICTIONARY_BASE ≤ p.image.boot_ip
  boot : ∃ cells, bootCells p.image.word_cfas (bootThread p.items) = .ok cells ∧
    CellsAt mem p.image.boot_ip cells ∧ p.image.boot_ip + cells.length ≤ top

namespace Program.InPlace

variable {p : Program} {mem mem' : ℤ → ℤ} {top top' : ℤ}

/-- An image stays in place when the memory changes elsewhere. -/
lemma congr (h : p.InPlace mem top)
    (same : ∀ i, DICTIONARY_BASE ≤ i → i < top → mem' i = mem i) (le : top ≤ top') :
    p.InPlace mem' top' := by
  obtain ⟨cells, resolved, there, fits⟩ := h.boot
  have base := h.base
  refine ⟨h.program, h.sound, h.balanced, h.threads.congr same le, base, cells, resolved, ?_,
    by omega⟩
  exact there.congr fun i low high => same i (by omega) (by omega)

/-- Booting an image that is in place. -/
lemma runs {s : EmulatorService} (h : p.InPlace s.data.memory.cell top)
    (low : top ≤ DICTIONARY_TOP) :
    ∃ verdict, p.verdict s.data.contents = some verdict ∧
      EndsFrom (Kernel.boot s p.image) s verdict := by
  have lay := Layout.values
  have view_mem : ∀ i, DICTIONARY_BASE ≤ i → i < top →
      s.data.contents.mem i = s.data.memory.cell i :=
    fun i lo hi => if_pos ⟨by omega, by omega⟩
  obtain ⟨program, sound, balanced, threads, base, cells, resolved, there, fits⟩ :=
    h.congr view_mem (Int.le_refl top)
  obtain ⟨len, laid, last⟩ := boot_laid resolved there
  let booted := Kernel.boot s p.image
  obtain ⟨u, r, next⟩ := start_run (v := view booted) (runs_view rfl) program rfl
  have ip : (view booted).regs Register.IP = p.image.boot_ip := by
    simp [booted, Kernel.boot, view]
  rw [ip] at next
  have reserved := threads.reserved sound low
  obtain ⟨verdict, e, performs, leaves⟩ := items_run (threads.perform sound low) reserved []
    s.data.contents.rs next rfl laid (by simp only; omega) (by simp only; omega) rfl balanced
  refine ⟨verdict, e, ?_⟩
  cases verdict with
  | ok ds rs =>
    obtain ⟨v, r', next'⟩ := performs
    obtain rfl : rs = [] := List.eq_nil_of_length_eq_zero (leaves ds rs rfl)
    obtain ⟨below, code⟩ := reserved "BYE" (by simp [RESERVED]) _ last
    obtain ⟨w, halts, hds, hrs, hmem, hin, hout⟩ := bye_run next'
      ⟨by simp only; omega, by simp only; omega⟩ below (code _ BYE_runs)
    obtain ⟨s', halts', rfl⟩ := view_simulates.halts ((r.trans r').halts halts)
    exact ⟨s', halts', DataPath.Contents.ext hds hrs hmem, hin, hout⟩
  | fault err => exact view_simulates.fails (r.fails performs)
  | diverges => exact view_simulates.diverges (r.diverges performs)

/-- A run of an image that is in place, wherever it ends, leaves the memory below the stacks as it
    was. -/
lemma ran {s s' : EmulatorService} {max_steps : ℤ} (h : p.InPlace s.data.memory.cell top)
    (low : top ≤ DICTIONARY_TOP)
    (run : run max_steps (Kernel.boot s p.image) = .ok () s' ∨
      ∃ e, run max_steps (Kernel.boot s p.image) = .error e s') :
    ∀ i, i < DICTIONARY_TOP → s'.data.memory.cell i = s.data.memory.cell i := by
  obtain ⟨program, sound, balanced, threads, base, cells, resolved, there, fits⟩ := h
  obtain ⟨len, laid, last⟩ := boot_laid resolved there
  have rest : Rest s.data.memory.cell top "BYE" p.image.boot_ip p.items 0 :=
    ⟨⟨_, _, threads, sound, laid, balanced, last⟩, base, by omega⟩
  have ip : (Kernel.boot s p.image).registers Register.IP = p.image.boot_ip := by
    simp [Kernel.boot]
  obtain ⟨t, reaches, data⟩ := run_data run
  have always := Framed.always (s := Kernel.boot s p.image) program rfl rfl (fun _ _ => rfl)
    (ip ▸ .boot rest) low t reaches
  rw [data]
  exact always

end Program.InPlace

section Builds

variable {n : ℕ} {m m' : ListMemoryAdapter n} {d : Dictionary} {colon_words : List ColonWordDto}
  {boot : List ThreadItemDto}

/-- A build that returns adds to the dictionary. -/
lemma build_adds [UnicodeData] (rep : Represents m d) {image : KernelImageDto}
    (run : build colon_words boot m = .ok image m') :
    ∃ d' word_cfas cells, laidOut d [] (specs colon_words) = .ok (d', word_cfas) ∧
      bootCells word_cfas boot = .ok cells ∧ image = ⟨kernelProgram, word_cfas, d'.dp⟩ ∧
      Represents m' (d'.skip cells.length) ∧ CellsAt m'.cell d'.dp cells ∧
      ∀ i, DICTIONARY_BASE ≤ i → i < d.dp → m'.cell i = m.cell i := by
  obtain ⟨d', word_cfas, cells, laid, hb, fits⟩ := (build_returns rep).mp ⟨image, m', run⟩
  obtain ⟨m₁, run₁, rep', boot_at, frame⟩ := build_ok rep laid hb fits
  cases run.symm.trans run₁
  exact ⟨d', word_cfas, cells, laid, hb, rfl, rep', boot_at,
    fun i lo hi => frame i lo (by omega)⟩

/-- So does a build that fails with a `KernelError`. -/
lemma failed_build_adds [UnicodeData] (rep : Represents m d) {e : PyError}
    (run : build colon_words boot m = .error e m') (kernel : e.isKernelError) :
    ∃ d', Represents m' d' ∧ d.dp ≤ d'.dp ∧
      ∀ i, DICTIONARY_BASE ≤ i → i < d.dp → m'.cell i = m.cell i := by
  have lay := Layout.values
  have base := d.linked.base_le
  rcases build_cases rep colon_words boot with laid | ⟨e, m₁, run', stops⟩
  · obtain ⟨image, m', run'⟩ := (build_returns rep).mpr laid
    cases run.symm.trans run'
  · cases run.symm.trans run'
    cases stops with
    | word stops =>
      cases stops with
      | unresolved split laid fits err rep' frame =>
        exact ⟨_, rep', laidOut_dp_le laid, fun i lo hi => frame i lo (by omega)⟩
      | overflow => cases kernel
    | @boot m₁ d₁ cfas laid fits rep₁ frame stops =>
      have le := laidOut_dp_le laid
      cases stops with
      | unresolved split resolved fits' err grown =>
        refine ⟨_, rep₁.skip grown fits', ?_, fun i lo hi => ?_⟩
        · show d.dp ≤ d₁.dp + _
          omega
        · rw [grown.frame i (by omega) (by omega), frame i lo (by omega)]
      | overflow => cases kernel

/-- A build returns if its names resolve and its cells fit. -/
lemma build_goes_on [UnicodeData] (rep : Represents m d) (resolvable : Resolvable colon_words boot)
    (fits : d.dp + buildSize colon_words boot ≤ n) :
    ∃ image m', build colon_words boot m = .ok image m' ∧
      m'.cell DP_ADDR = d.dp + buildSize colon_words boot := by
  obtain ⟨d', word_cfas, laid⟩ := (Knows.nil.laidOut (d := d) fun _ => specs_code).mpr resolvable.1
  obtain ⟨dp, knows⟩ := laidOut_extent .nil laid
  obtain ⟨cells, hb⟩ := knows.bootCells.mpr fun item mem name refers => by
    rw [List.append_nil, List.mem_reverse]
    exact resolvable.2 item mem name refers
  have size : d'.dp + cells.length = d.dp + buildSize colon_words boot := by
    rw [dp, Fallible.length_of_mapM hb, buildSize]
    omega
  obtain ⟨m', run, rep', -⟩ := build_ok rep laid hb (by omega)
  exact ⟨_, m', run, rep'.ready.dp.trans size⟩

end Builds

/-- The emulator on another memory. -/
def withMemory (s : EmulatorService) (m : MachineMemory) : EmulatorService :=
  { s with data := { s.data with memory := m } }

/-- What can have happened on a machine since its dictionary was new, and the programs that have
    been built on it. -/
inductive Session [UnicodeData] : List Program → EmulatorService → Prop
  | fresh {s : EmulatorService} {m : MachineMemory} : init s.data.memory = .ok () m →
    Session [] (withMemory s m)
  | built {programs : List Program} {s : EmulatorService} {p : Program} {m : MachineMemory} :
    Session programs s → Sound (envOf p.colon_words) →
    Balanced (envOf p.colon_words) p.items →
    build p.colon_words (bootThread p.items) s.data.memory = .ok p.image m →
    m.cell DP_ADDR ≤ DICTIONARY_TOP →
    Session (p :: programs) (withMemory s m)
  | failed {programs : List Program} {s : EmulatorService} {colon_words : List ColonWordDto}
    {boot : List ThreadItemDto} {e : PyError} {m : MachineMemory} :
    Session programs s → build colon_words boot s.data.memory = .error e m → e.isKernelError →
    m.cell DP_ADDR ≤ DICTIONARY_TOP →
    Session programs (withMemory s m)
  /-- A run, until it halts, fails or is cut off by the step guard. -/
  | ran {programs : List Program} {s s' : EmulatorService} {p : Program} {max_steps : ℤ} :
    Session programs s → p ∈ programs →
    (run max_steps (boot s p.image) = .ok () s' ∨
      ∃ e, run max_steps (boot s p.image) = .error e s') →
    Session programs s'
  /-- The stacks, the registers, the devices and the program are for anyone to change. -/
  | other {programs : List Program} {s s' : EmulatorService} :
    Session programs s →
    (∀ i, 0 ≤ i → i < DICTIONARY_TOP → s'.data.memory.cell i = s.data.memory.cell i) →
    Session programs s'

/-- In every state of a session, the memory holds a dictionary below the stacks, and in it the
    images of all programs that have been built. -/
structure SessionInv (programs : List Program) (s : EmulatorService) : Prop where
  dictionary : ∃ d, Represents s.data.memory d ∧ d.dp ≤ DICTIONARY_TOP ∧
    ∀ p ∈ programs, p.InPlace s.data.memory.cell d.dp

section Invariant

variable {programs : List Program} {s s' : EmulatorService} {p : Program}

/-- Changes of the stacks. -/
lemma SessionInv.other (h : SessionInv programs s)
    (same : ∀ i, 0 ≤ i → i < DICTIONARY_TOP → s'.data.memory.cell i = s.data.memory.cell i) :
    SessionInv programs s' := by
  have lay := Layout.values
  obtain ⟨d, rep, low, places⟩ := h.dictionary
  have base := d.linked.base_le
  refine ⟨d, rep.copied rep.ready.le_size fun a place => ?_, low, fun p mem => ?_⟩
  · rw [rep.ready.dp] at place
    exact same a (by omega) (by omega)
  · exact (places p mem).congr (fun i lo hi => same i (by omega) (by omega)) (Int.le_refl _)

/-- A build, finished or not, that has added to the dictionary. -/
lemma SessionInv.adds {d d' : Dictionary} {m : MachineMemory}
    (places : ∀ p ∈ programs, p.InPlace s.data.memory.cell d.dp) (rep : Represents m d')
    (le : d.dp ≤ d'.dp) (low : m.cell DP_ADDR ≤ DICTIONARY_TOP)
    (frame : ∀ i, DICTIONARY_BASE ≤ i → i < d.dp → m.cell i = s.data.memory.cell i) :
    SessionInv programs (withMemory s m) := by
  rw [rep.ready.dp] at low
  exact ⟨d', rep, low, fun p mem => (places p mem).congr frame le⟩

/-- A program that has just been built. -/
lemma Program.InPlace.built [UnicodeData] {d : Dictionary} {m : MachineMemory}
    (rep : Represents s.data.memory d) (sound : Sound (envOf p.colon_words))
    (balanced : Balanced (envOf p.colon_words) p.items)
    (run : build p.colon_words (bootThread p.items) s.data.memory = .ok p.image m)
    (low : m.cell DP_ADDR ≤ DICTIONARY_TOP) :
    ∃ d', Represents m d' ∧ d.dp ≤ d'.dp ∧ p.InPlace m.cell d'.dp ∧
      ∀ i, DICTIONARY_BASE ≤ i → i < d.dp → m.cell i = s.data.memory.cell i := by
  obtain ⟨d', word_cfas, cells, laid, hb, image, rep', boot_at, frame⟩ := build_adds rep run
  have base := d.linked.base_le
  have le := laidOut_dp_le laid
  have top : (d'.skip cells.length).dp = d'.dp + cells.length := rfl
  rw [rep'.ready.dp, top] at low
  have holds : Holds m.cell d' := ⟨by omega, rep'.stored⟩
  have empty : Threads m.cell (d'.skip cells.length).dp [] [] := rfl
  have threads := empty.laidOut laid holds (by omega)
  rw [List.append_nil] at threads
  refine ⟨_, rep', by omega, ?_, frame⟩
  obtain ⟨colon_words, items, image'⟩ := p
  obtain rfl : image' = ⟨kernelProgram, word_cfas, d'.dp⟩ := image
  exact ⟨rfl, sound, balanced, threads, by simp only; omega, cells, hb, boot_at, Int.le_refl _⟩

/-- Every event of a session keeps the invariant. -/
lemma Session.inv [UnicodeData] (h : Session programs s) : SessionInv programs s := by
  have lay := Layout.values
  induction h with
  | @fresh s m run =>
    obtain ⟨m', run', rep, -⟩ := init_represents s.data.memory (by decide)
    cases run.symm.trans run'
    exact ⟨.empty, rep, by decide, fun p mem => by cases mem⟩
  | built _ sound balanced run low ih =>
    obtain ⟨d, rep, -, places⟩ := ih.dictionary
    obtain ⟨d', rep', le, place, frame⟩ := Program.InPlace.built rep sound balanced run low
    rw [rep'.ready.dp] at low
    refine ⟨d', rep', low, fun q mem => ?_⟩
    rcases List.mem_cons.mp mem with rfl | mem
    · exact place
    · exact (places q mem).congr frame le
  | failed _ run kernel low ih =>
    obtain ⟨d, rep, -, places⟩ := ih.dictionary
    obtain ⟨d', rep', le, frame⟩ := failed_build_adds rep run kernel
    exact .adds places rep' le low frame
  | @ran programs s s' p _ _ mem run ih =>
    obtain ⟨d, rep, low, places⟩ := ih.dictionary
    exact ih.other fun i _ => (places p mem).ran low run i
  | other _ same ih => exact ih.other same

end Invariant

/-- Builds, failed builds, runs of what has been built, and changes of the stacks and the devices,
    in any order and number: every program that has been built runs in every state of the session as
    the reference semantics says of the stacks as they are, however many programs have been built
    since, under whatever names; when it comes back, it has changed nothing but the data stack. -/
theorem session_runs [UnicodeData] {programs : List Program} {s : EmulatorService} {p : Program}
    (h : Session programs s) (mem : p ∈ programs) :
    ∃ verdict, p.verdict s.data.contents = some verdict ∧
      EndsFrom (boot s p.image) s verdict := by
  obtain ⟨d, -, low, places⟩ := h.inv.dictionary
  exact (places p mem).runs low

section Instances

attribute [local instance] UnicodeData.ascii

/-- A session goes on with another build. -/
lemma Session.next {programs : List Program} {s : EmulatorService} (h : Session programs s)
    (colon_words : List ColonWordDto) (items : List Item) (size : ℤ)
    (sound : Sound (envOf colon_words)) (balanced : Balanced (envOf colon_words) items)
    (resolvable : Resolvable colon_words (bootThread items))
    (room : s.data.memory.cell DP_ADDR + buildSize colon_words (bootThread items) = size)
    (fits : size ≤ DICTIONARY_TOP) :
    ∃ image m, Session (⟨colon_words, items, image⟩ :: programs) (withMemory s m) ∧
      m.cell DP_ADDR = size := by
  have lay := Layout.values
  obtain ⟨d, rep, -, -⟩ := h.inv.dictionary
  rw [rep.ready.dp] at room
  obtain ⟨image, m, run, dp⟩ := build_goes_on rep resolvable (by omega)
  exact ⟨image, m, .built h sound balanced run (by omega), by omega⟩

/-- A session goes on with a run, however it ends, and with the stacks as they were before. -/
lemma Session.tried {programs : List Program} {s : EmulatorService} {p : Program}
    (h : Session programs s) (mem : p ∈ programs) (max_steps : ℤ) :
    ∃ m, Session programs (withMemory s m) ∧ m.cell DP_ADDR = s.data.memory.cell DP_ADDR := by
  obtain ⟨d, -, low, places⟩ := h.inv.dictionary
  obtain ⟨s', ends⟩ : ∃ s', run max_steps (boot s p.image) = .ok () s' ∨
      ∃ e, run max_steps (boot s p.image) = .error e s' := by
    cases run max_steps (boot s p.image) with
    | ok _ s' => exact ⟨s', .inl rfl⟩
    | error e s' => exact ⟨s', .inr ⟨e, rfl⟩⟩
  have dp := (places p mem).ran low ends DP_ADDR (by decide)
  exact ⟨s'.data.memory, (h.ran mem ends).other fun _ _ _ => rfl, dp⟩

/-- `TWICE` doubles, and goes on doubling in what was built before another `TWICE`, also after a run
    that was given up after twenty steps. -/
theorem session_runs_twice : ∃ p q s s',
    Session [⟨[⟨"TWICE", ["DUP", "DUP", "+", "+"], false⟩], [.lit 1, .word "TWICE"], q⟩,
      ⟨[⟨"TWICE", ["DUP", "+"], false⟩], [.lit 7, .word "TWICE"], p⟩] s ∧
    Halts EmulatorService.advance (boot s p) s' ∧ s'.data.contents.ds = [14] := by
  have sound : ∀ w : ColonWordDto, w.name ∉ RESERVED → Balanced (envOf []) (w.words.map .word) →
      Sound (envOf [w]) := by
    intro w own balanced
    have env : envOf [w] = .colon w :: envOf [] := by
      simp [envOf, specs]
    rw [env]
    exact ⟨own, balanced, sound_code_words⟩
  obtain ⟨m₀, e₀, rep, -⟩ := init_represents (.zeroed MEMORY_SIZE.toNat) (by decide)
  have fresh : Session [] (withMemory (idle (.zeroed MEMORY_SIZE.toNat)) m₀) := .fresh e₀
  obtain ⟨p, m₁, first, dp⟩ := fresh.next [⟨"TWICE", ["DUP", "+"], false⟩]
    [.lit 7, .word "TWICE"] 328
    (sound _ (by decide +kernel) (by decide +kernel)) (by decide +kernel)
    ⟨by decide +kernel, by decide +kernel⟩ (by
      have size : buildSize [⟨"TWICE", ["DUP", "+"], false⟩]
        (bootThread [.lit 7, .word "TWICE"]) = 320 := by decide +kernel
      show m₀.cell DP_ADDR + _ = 328
      rw [rep.ready.dp, size]
      rfl) (by decide)
  obtain ⟨m₂, tried, dp'⟩ := first.tried (.head _) 20
  obtain ⟨q, m₃, second, -⟩ := tried.next [⟨"TWICE", ["DUP", "DUP", "+", "+"], false⟩]
    [.lit 1, .word "TWICE"] 650
    (sound _ (by decide +kernel) (by decide +kernel)) (by decide +kernel)
    ⟨by decide +kernel, by decide +kernel⟩ (by
      have size : buildSize [⟨"TWICE", ["DUP", "DUP", "+", "+"], false⟩]
        (bootThread [.lit 1, .word "TWICE"]) = 322 := by decide +kernel
      show m₂.cell DP_ADDR + _ = 650
      rw [dp', size]
      show m₁.cell DP_ADDR + _ = 650
      rw [dp]
      rfl) (by decide)
  obtain ⟨v, known, ends⟩ := session_runs second (.tail _ (.head _))
  have verdict : runItems (call (envOf [⟨"TWICE", ["DUP", "+"], false⟩])) [.lit 7, .word "TWICE"]
      [] [] 0 = some (.ok [14] []) := by decide +kernel
  obtain rfl := Option.some.inj (known.symm.trans verdict)
  obtain ⟨s', halts, contents, -⟩ := ends
  exact ⟨p, q, _, s', second, halts, by rw [contents]⟩

end Instances

end MinCpuForth.Kernel
