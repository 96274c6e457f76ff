import MinCpuForth.Kernel.Agreement
import MinCpuForth.Kernel.Programs
import MinCpuForth.Kernel.WordRuns

/-!
# Threaded code does what the reference semantics says

A build of sound colon words and a balanced boot thread, booted on any machine whose memory holds
the image: the emulator halts with the data stack that the reference semantics computes and the
return stack as it was, it fails as the reference semantics does, or it runs forever, which only `*`
with a negative multiplier makes it do.
-/

namespace MinCpuForth.Kernel
open Python Domain Layout Adapters Emulator Lib KernelBuilder MemoryDictionaryAdapter

variable {env : Env} {word_cfas : PyDict ℤ} {mem : ℤ → ℤ}

/-- The cells of a boot thread. -/
lemma boot_laid {items : List Item} {cells : List ℤ} {ip : ℤ}
    (h : bootCells word_cfas (bootThread items) = .ok cells) (there : CellsAt mem ip cells) :
    cells.length = itemsSize items + 1 ∧ Laid word_cfas mem ip items ∧
      word_cfas.lookup (py "BYE") = some (mem (ip + itemsSize items)) := by
  induction items generalizing ip cells with
  | nil =>
    obtain ⟨bye, rest, e, e', rfl⟩ := Fallible.mapM_cons_eq_ok.mp h
    cases e'
    refine ⟨rfl, trivial, ?_⟩
    rw [itemsSize, Int.natCast_zero, Int.add_zero, there.1]
    exact cfa_of_eq_ok.mp e
  | cons item items ih =>
    cases item with
    | lit n =>
      obtain ⟨lit, rest, e, h₁, rfl⟩ := Fallible.mapM_cons_eq_ok.mp h
      obtain ⟨value, rest, e', h₂, rfl⟩ := Fallible.mapM_cons_eq_ok.mp h₁
      cases e'
      have next : ip + 1 + 1 = ip + 2 := by omega
      obtain ⟨at_ip, at_next, there⟩ := there
      rw [next] at there
      obtain ⟨len, laid, last⟩ := ih h₂ there
      refine ⟨by simp [itemsSize, len], ⟨?_, at_next, laid⟩, ?_⟩
      · rw [at_ip]
        exact cfa_of_eq_ok.mp e
      · rw [last, itemsSize]
        congr 2
        omega
    | word name =>
      obtain ⟨cfa, rest, e, h₁, rfl⟩ := Fallible.mapM_cons_eq_ok.mp h
      obtain ⟨at_ip, there⟩ := there
      obtain ⟨len, laid, last⟩ := ih h₁ there
      refine ⟨by simp [itemsSize, len], ⟨?_, laid⟩, ?_⟩
      · rw [at_ip]
        exact cfa_of_eq_ok.mp e
      · rw [last, itemsSize]
        congr 2
        omega

/-- The emulator's run does what the verdict says, with the return stack as given. -/
def Ends (s : EmulatorService) (rs : List ℤ) : Verdict → Prop
  | .ok ds _ => ∃ s', Halts EmulatorService.advance s s' ∧ (view s').ds = ds ∧ (view s').rs = rs
  | .fault e => Fails EmulatorService.advance s e
  | .diverges => Diverges EmulatorService.advance s

/-- A boot thread of balanced items, on a machine whose memory holds the words. -/
lemma boot_runs {d : Dictionary} {items : List Item} {cells : List ℤ} (s : EmulatorService)
    (installed : Installed env d word_cfas) (sound : Sound env) (balanced : Balanced env items)
    (hb : bootCells word_cfas (bootThread items) = .ok cells)
    (holds : Holds s.data.contents.mem d) (there : CellsAt s.data.contents.mem d.dp cells)
    (fits : d.dp + cells.length ≤ DICTIONARY_TOP) :
    ∃ verdict, runItems (call env) items s.data.contents.ds [] s.data.contents.rs.length =
        some verdict ∧
      Ends (boot s ⟨kernelProgram, word_cfas, d.dp⟩) s.data.contents.rs verdict := by
  have lay := Layout.values
  have base := d.linked.base_le
  obtain ⟨len, laid, last⟩ := boot_laid hb there
  let booted := boot s ⟨kernelProgram, word_cfas, d.dp⟩
  obtain ⟨u, r, next⟩ := start_run (v := view booted) (runs_view rfl) rfl rfl
  have ip : (view booted).regs Register.IP = d.dp := by
    simp [booted, boot, view]
  rw [ip] at next
  have reserved := installed.reserved sound holds
  obtain ⟨verdict, e, p, leaves⟩ := items_run (installed.perform sound holds) reserved []
    s.data.contents.rs next rfl laid (by simp only; omega) (by simp only; omega) rfl balanced
  refine ⟨verdict, e, ?_⟩
  cases verdict with
  | ok ds rs =>
    obtain ⟨v, r', next'⟩ := p
    obtain rfl : rs = [] := List.eq_nil_of_length_eq_zero (leaves ds rs rfl)
    obtain ⟨below, code⟩ := reserved "BYE" (by simp [RESERVED]) _ last
    obtain ⟨w, halts, hds, hrs, -⟩ := bye_run next' ⟨by simp only; omega, by simp only; omega⟩ below
      (code _ BYE_runs)
    obtain ⟨s', halts', rfl⟩ := view_simulates.halts ((r.trans r').halts halts)
    exact ⟨s', halts', hds, hrs⟩
  | fault err => exact view_simulates.fails (r.fails p)
  | diverges => exact view_simulates.diverges (r.diverges p)

/-- What the memory of a machine holds after a build into a fresh dictionary, if the dictionary
    stays below the data stack. -/
lemma built [UnicodeData] {colon_words : List ColonWordDto} {boot : List ThreadItemDto}
    {m m' : MachineMemory} {image : KernelImageDto}
    (run : buildFresh colon_words boot m = .ok image m')
    (top : m'.cell DP_ADDR ≤ DICTIONARY_TOP) {p : DataPath}
    (same : ∀ i, 0 ≤ i → i < DICTIONARY_TOP → p.memory.cell i = m'.cell i) :
    ∃ d word_cfas cells, Installed (envOf colon_words) d word_cfas ∧
      bootCells word_cfas boot = .ok cells ∧ image = ⟨kernelProgram, word_cfas, d.dp⟩ ∧
      Holds p.contents.mem d ∧ CellsAt p.contents.mem d.dp cells ∧
      d.dp + cells.length ≤ DICTIONARY_TOP := by
  have lay := Layout.values
  obtain ⟨m₀, e₀, rep, -⟩ := init_represents m (by decide)
  rw [buildFresh, bind_ok e₀] at run
  obtain ⟨d, word_cfas, cells, laid, hb, rfl, rep', boot_at⟩ := build_inv rep run
  rw [rep'.ready.dp] at top
  have fits : d.dp + cells.length ≤ DICTIONARY_TOP := top
  have base := d.linked.base_le
  have view_mem : ∀ i, DICTIONARY_BASE ≤ i → i < DICTIONARY_TOP →
      p.contents.mem i = m'.cell i := by
    intro i lo hi
    have inside : 0 ≤ i ∧ i < DICTIONARY_TOP := ⟨by omega, hi⟩
    simp only [DataPath.contents, if_pos inside]
    exact same i inside.1 inside.2
  have installed := Installed.nil.laidOut laid
  rw [List.append_nil] at installed
  refine ⟨d, word_cfas, cells, installed, hb, rfl, ⟨by omega, fun e mem => ?_⟩, ?_, fits⟩
  · obtain ⟨lo, hi⟩ := d.linked.bounds mem
    simp only [Entry.stop] at hi
    exact (rep'.stored e mem).congr fun i lo' hi' => view_mem i (by omega) (by omega)
  · exact boot_at.congr fun i lo' hi' => view_mem i (by omega) (by omega)

/-- Sound colon words and a balanced boot thread, built into a fresh dictionary that stays below the
    data stack and booted on any machine that holds them below its stacks: whatever the registers,
    the stacks and the devices, the emulator ends as the reference semantics says. -/
theorem threaded_code_correct [UnicodeData] {colon_words : List ColonWordDto} {items : List Item}
    (sound : Sound (envOf colon_words)) (balanced : Balanced (envOf colon_words) items)
    {m m' : MachineMemory} {image : KernelImageDto}
    (run : buildFresh colon_words (bootThread items) m = .ok image m')
    (top : m'.cell DP_ADDR ≤ DICTIONARY_TOP) (s : EmulatorService)
    (same : ∀ i, 0 ≤ i → i < DICTIONARY_TOP → s.data.memory.cell i = m'.cell i) :
    ∃ verdict, runItems (call (envOf colon_words)) items s.data.contents.ds []
        s.data.contents.rs.length = some verdict ∧
      Ends (boot s image) s.data.contents.rs verdict := by
  obtain ⟨d, word_cfas, cells, installed, hb, rfl, holds, there, fits⟩ := built run top same
  exact boot_runs s installed sound balanced hb holds there fits

section Instances

attribute [local instance] UnicodeData.ascii

/-- The CODE words alone are sound. -/
lemma sound_code_words : Sound (envOf []) := by
  have code : ∀ words : List CodeWordDto, words ⊆ CODE_WORDS → Sound (words.map .code) := by
    intro words
    induction words with
    | nil => exact fun _ => trivial
    | cons w words ih =>
      intro sub
      exact ⟨sub (List.mem_cons_self ..), ih fun _ mem => sub (List.mem_cons_of_mem _ mem)⟩
  have env : envOf [] = CODE_WORDS.reverse.map .code := by
    rw [envOf, specs, List.map_nil, List.append_nil, List.map_reverse]
  rw [env]
  exact code _ fun w mem => List.mem_reverse.mp mem

/-- A machine with empty stacks on a memory. -/
def idle (m : MachineMemory) : EmulatorService where
  registers _ := 0
  data := ⟨m, .init .., .init ..⟩
  char_input := []
  char_output := []
  program := []
  pc := 0
  halted := false

/-- A build that fits, on an idle machine. -/
lemma builds {colon_words : List ColonWordDto} {boot : List ThreadItemDto} (size : ℕ)
    (resolvable : Resolvable colon_words boot) (h : buildSize colon_words boot = size)
    (fits : DICTIONARY_BASE + size ≤ DICTIONARY_TOP) :
    ∃ image m', buildFresh colon_words boot (.zeroed MEMORY_SIZE.toNat) = .ok image m' ∧
      m'.cell DP_ADDR = DICTIONARY_BASE + size := by
  have lay := Layout.values
  obtain ⟨image, m', run, dp, -⟩ := (buildFresh_extent (.zeroed MEMORY_SIZE.toNat) (by decide)
    colon_words boot).1 ⟨resolvable, by omega⟩
  exact ⟨image, m', run, by omega⟩

/-- `7 SQUARE`. -/
theorem threaded_code_correct_square : ∃ image m' s',
    buildFresh [⟨"SQUARE", ["DUP", "*"], false⟩] (bootThread [.lit 7, .word "SQUARE"])
      (.zeroed MEMORY_SIZE.toNat) = .ok image m' ∧
    Halts EmulatorService.advance (boot (idle m') image) s' ∧ (view s').ds = [49] := by
  have sound : Sound (envOf [⟨"SQUARE", ["DUP", "*"], false⟩]) := by
    have env : envOf [⟨"SQUARE", ["DUP", "*"], false⟩] =
        .colon ⟨"SQUARE", ["DUP", "*"], false⟩ :: envOf [] := by
      simp [envOf, specs]
    rw [env]
    exact ⟨by decide +kernel, by decide +kernel, sound_code_words⟩
  have resolvable : Resolvable [⟨"SQUARE", ["DUP", "*"], false⟩]
      (bootThread [.lit 7, .word "SQUARE"]) := ⟨by decide +kernel, by decide +kernel⟩
  obtain ⟨image, m', run, dp⟩ := builds 321 resolvable (by decide +kernel) (by decide)
  have top : m'.cell DP_ADDR ≤ DICTIONARY_TOP := dp.trans_le (by decide)
  obtain ⟨verdict, e, ends⟩ := threaded_code_correct sound (by decide +kernel) run top (idle m')
    fun i lo hi => rfl
  have meaning : runItems (call (envOf [⟨"SQUARE", ["DUP", "*"], false⟩]))
      [.lit 7, .word "SQUARE"] [] [] 0 = some (.ok [49] []) := by decide +kernel
  cases meaning.symm.trans e
  obtain ⟨s', halts, ds, -⟩ := ends
  exact ⟨image, m', s', run, halts, ds⟩

/-- `1 -1 *` never halts. -/
theorem threaded_code_diverges : ∃ image m',
    buildFresh [] (bootThread [.lit 1, .lit (-1), .word "*"]) (.zeroed MEMORY_SIZE.toNat) =
      .ok image m' ∧ m'.cell DP_ADDR ≤ DICTIONARY_TOP ∧
    Balanced (envOf []) [.lit 1, .lit (-1), .word "*"] ∧
    ∀ s', ¬Halts EmulatorService.advance (boot (idle m') image) s' := by
  have resolvable : Resolvable [] (bootThread [.lit 1, .lit (-1), .word "*"]) :=
    ⟨by decide +kernel, by decide +kernel⟩
  have balanced : Balanced (envOf []) [.lit 1, .lit (-1), .word "*"] := by decide +kernel
  obtain ⟨image, m', run, dp⟩ := builds 309 resolvable (by decide +kernel) (by decide)
  have top : m'.cell DP_ADDR ≤ DICTIONARY_TOP := dp.trans_le (by decide)
  obtain ⟨d, word_cfas, cells, installed, hb, rfl, holds, there, fits⟩ :=
    built (p := (idle m').data) run top fun i lo hi => rfl
  obtain ⟨verdict, e, ends⟩ :=
    boot_runs (idle m') installed sound_code_words balanced hb holds there fits
  have meaning : runItems (call (envOf [])) [.lit 1, .lit (-1), .word "*"] [] [] 0 =
      some .diverges := by decide +kernel
  cases meaning.symm.trans e
  exact ⟨_, m', run, top, balanced, fun s' => ends.not_halts⟩

end Instances

end MinCpuForth.Kernel
