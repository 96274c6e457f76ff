import MinCpuForth.Kernel.Implementation

/-!
# A loop made of words

The kernel has no branch words, but a thread may put an address on the return stack and let `EXIT`
go there. `KEY EMIT LIT ip >R EXIT`, laid down at `ip`, copies the input to the output for ever.
-/

namespace MinCpuForth.Kernel
open Python Domain Layout Adapters Emulator Lib KernelBuilder MemoryDictionaryAdapter Routines

/-- `KEY EMIT LIT ip >R EXIT`. -/
def echo (ip : ℤ) : List ThreadItemDto :=
  [.reference "KEY", .reference "EMIT", .reference "LIT", .literal ip, .reference ">R",
    .reference "EXIT"]

/-- The names in it. -/
def ECHO : List PyStr := ["KEY", "EMIT", "LIT", ">R", "EXIT"]

/-- The thread at `ip`, where its names denote the kernel's words. -/
structure EchoAt (mem : ℤ → ℤ) (ip : ℤ) : Prop where
  key : Invokes mem ip "KEY"
  emit : Invokes mem (ip + 1) "EMIT"
  lit : Invokes mem (ip + 2) "LIT"
  target : mem (ip + 3) = ip
  tor : Invokes mem (ip + 4) "TOR"
  exit : Invokes mem (ip + 5) "EXIT"

namespace EchoAt

variable {words : Lexicon} {mem : ℤ → ℤ} {ip c : ℤ} {ds rs input output : List ℤ}

/-- `KEY`. -/
lemma reads (thread : EchoAt mem ip) (room : ds.length < 1024) :
    Threaded.step words ⟨ip, ds, rs, mem, c :: input, output⟩ =
      .next ⟨ip + 1, c :: ds, rs, mem, input, output⟩ :=
  (Threaded.step_invokes (w := .KEY) 34 rfl rfl thread.key).trans (if_pos room)

/-- A turn of the loop. -/
lemma turn (thread : EchoAt mem ip) (room : ds.length < 1024) (room' : rs.length < 1024) :
    Reaches (Threaded.step words) ⟨ip, ds, rs, mem, c :: input, output⟩
      ⟨ip, ds, rs, mem, input, output ++ [c]⟩ := by
  have emit : Threaded.step words ⟨ip + 1, c :: ds, rs, mem, input, output⟩ =
      .next ⟨ip + 1 + 1, ds, rs, mem, input, output ++ [c]⟩ :=
    Threaded.step_invokes (w := .EMIT) 35 rfl rfl thread.emit
  have lit : Threaded.step words ⟨ip + 2, ds, rs, mem, input, output ++ [c]⟩ =
      .next ⟨ip + 2 + 2, mem (ip + 2 + 1) :: ds, rs, mem, input, output ++ [c]⟩ :=
    (Threaded.step_invokes (w := .LIT) 0 rfl rfl thread.lit).trans (if_pos room)
  have moved : StackWord.TOR.verdict (ip :: ds) rs 0 = .ok ds (ip :: rs) := by
    have fit : ds.length ≤ 1024 ∧ 0 + (ip :: rs).length ≤ 1024 := by
      rw [List.length_cons]
      omega
    exact (if_neg nofun).trans (if_pos fit)
  have tor : Threaded.step words ⟨ip + 4, ip :: ds, rs, mem, input, output ++ [c]⟩ =
      .next ⟨ip + 4 + 1, ds, ip :: rs, mem, input, output ++ [c]⟩ := by
    rw [Threaded.step_invokes (w := .stack .TOR) 22 rfl rfl thread.tor]
    simp only [Threaded.perform, moved]
  have exit : Threaded.step words ⟨ip + 5, ds, ip :: rs, mem, input, output ++ [c]⟩ =
      .next ⟨ip, ds, rs, mem, input, output ++ [c]⟩ :=
    Threaded.step_invokes (w := .EXIT) 1 rfl rfl thread.exit
  have two : ip + 1 + 1 = ip + 2 := by omega
  have three : ip + 2 + 1 = ip + 3 := by omega
  have four : ip + 2 + 2 = ip + 4 := by omega
  have five : ip + 4 + 1 = ip + 5 := by omega
  rw [two] at emit
  rw [three, four, thread.target] at lit
  rw [five] at tor
  exact .head (thread.reads room) (.head emit (.head lit (.head tor (.one exit))))

/-- Any number of turns. -/
lemma turns (words : Lexicon) (input output : List ℤ) (thread : EchoAt mem ip)
    (room : ds.length < 1024) (room' : rs.length < 1024) (done : List ℤ) :
    Reaches (Threaded.step words) ⟨ip, ds, rs, mem, done ++ input, output⟩
      ⟨ip, ds, rs, mem, input, output ++ done⟩ := by
  induction done generalizing output with
  | nil =>
    rw [List.append_nil]
    exact .refl
  | cons c done ih =>
    rw [← List.singleton_append (l := done), ← List.append_assoc output]
    exact (thread.turn room room').trans (ih (output ++ [c]))

/-- The loop ends with the input. -/
lemma ends (thread : EchoAt mem ip) :
    Threaded.step words ⟨ip, ds, rs, mem, [], output⟩ = .fail .inputExhausted :=
  Threaded.step_invokes (w := .KEY) 34 rfl rfl thread.key

/-- The loop does not stay where it is. -/
lemma moves (thread : EchoAt mem ip) (room : ds.length < 1024) :
    Threaded.step words ⟨ip, ds, rs, mem, input, output⟩ ≠
      .next ⟨ip, ds, rs, mem, input, output⟩ := by
  intro stays
  cases input with
  | nil => cases thread.ends.symm.trans stays
  | cons c input =>
    have same := congrArg Threaded.ip (Outcome.next.inj ((thread.reads room).symm.trans stays))
    simp at same

end EchoAt

variable {n : ℕ} {m m' : ListMemoryAdapter n} {d d' : Dictionary} {word_cfas : PyDict ℤ}
  {colon_words : List ColonWordDto}

/-- What a build lays down is such a thread. -/
lemma built_echo (laid : laidOut d [] (specs colon_words) = .ok (d', word_cfas)) {cells : List ℤ}
    (hb : bootCells word_cfas (echo d'.dp) = .ok cells)
    (rep : Represents m' (d'.skip cells.length)) (boot_at : CellsAt m'.cell d'.dp cells)
    (fits : m'.cell DP_ADDR ≤ WORD_BUFFER_BASE) (own : ∀ w ∈ colon_words, w.name ∉ ECHO)
    {mem : ℤ → ℤ} (same : ∀ i, 0 ≤ i → i < m'.cell DP_ADDR → mem i = m'.cell i) :
    EchoAt mem d'.dp := by
  have lay := Layout.values
  have base := d'.linked.base_le
  have stop : m'.cell DP_ADDR = d'.dp + cells.length := rep.ready.dp
  have count := Fallible.length_of_mapM hb
  have size : (echo d'.dp).length = 6 := rfl
  have names : ∀ name ∈ ECHO, ∀ w ∈ colon_words, w.name ≠ name :=
    fun name listed w mem e => own w mem (e ▸ listed)
  simp only [ECHO, List.forall_mem_cons] at names
  obtain ⟨own_key, own_emit, own_lit, own_tor, own_exit, -⟩ := names
  have cell : ∀ (k : ℕ) {item : ThreadItemDto}, (echo d'.dp)[k]? = some item →
      k < cells.length ∧ item_cell word_cfas item = .ok (mem (d'.dp + k)) := by
    intro k item known
    obtain ⟨c, hit, e⟩ := Fallible.mapM_getElem? hb known
    obtain ⟨lt, rfl⟩ := List.getElem?_eq_some_iff.mp hit
    refine ⟨lt, ?_⟩
    rw [e, same _ (by omega) (by omega), boot_at.get lt]
  have invokes : ∀ (k i : ℕ) {p : KernelPrimitive}, PRIMITIVES[i]? = some p →
      (echo d'.dp)[k]? = some (.reference p.word.name) →
      (∀ w ∈ colon_words, w.name ≠ p.word.name) →
      Invokes mem (d'.dp + k) p.word.routine_label := by
    intro k i p listed known own
    obtain ⟨lt, e⟩ := cell k known
    exact invokes_code_word laid rep fits same (List.mem_map_of_mem (List.mem_of_getElem? listed))
      own (by omega) (by omega) (cfa_of_eq_ok.mp e)
  constructor
  · have first := invokes 0 34 rfl rfl own_key
    rwa [Int.natCast_zero, Int.add_zero] at first
  · exact invokes 1 35 rfl rfl own_emit
  · exact invokes 2 0 rfl rfl own_lit
  · have target := (cell 3 rfl).2
    exact (Except.ok.inj target).symm
  · exact invokes 4 22 rfl rfl own_tor
  · exact invokes 5 1 rfl rfl own_exit

/-- The boot thread `KEY EMIT LIT boot_ip >R EXIT` copies the input to the output. For every memory
    and dictionary that the build starts from, and all colon words that take none of these names
    over, if the dictionary stays below the token buffer; on any machine that holds the dictionary
    and has room for a cell on each stack; and for every input: the emulator comes to a state with
    any first part of the input written and the rest still to be read, with the stacks and the
    memory as they were, and it fails only for want of input. -/
theorem echo_copies [UnicodeData] (rep : Represents m d) {image : KernelImageDto}
    (run : build colon_words (echo image.boot_ip) m = .ok image m')
    (fits : m'.cell DP_ADDR ≤ WORD_BUFFER_BASE) (own : ∀ w ∈ colon_words, w.name ∉ ECHO)
    {s : EmulatorService}
    (holds : ∀ i, 0 ≤ i → i < m'.cell DP_ADDR → s.data.memory.cell i = m'.cell i)
    (room : s.data.contents.ds.length < 1024) (room' : s.data.contents.rs.length < 1024) :
    (∀ done rest, s.char_input = done ++ rest →
      ∃ u, Reaches EmulatorService.advance (boot s image) u ∧ u.char_input = rest ∧
        u.char_output = s.char_output ++ done ∧ u.data.contents = s.data.contents) ∧
    Fails EmulatorService.advance (boot s image) .inputExhausted := by
  have lay := Layout.values
  obtain ⟨d', word_cfas, cells, laid, hb, rfl, rep', boot_at⟩ := build_inv rep run
  have stop : m'.cell DP_ADDR = (d'.skip cells.length).dp := rep'.ready.dp
  have same : ∀ i, 0 ≤ i → i < m'.cell DP_ADDR → s.data.contents.mem i = m'.cell i :=
    fun i low high => (view_mem low (by omega)).trans (holds i low high)
  have thread : EchoAt s.data.contents.mem d'.dp := built_echo laid hb rep' boot_at fits own same
  obtain ⟨u, r, next⟩ := boot_next s ⟨kernelProgram, word_cfas, d'.dp⟩ rfl
  have implements := kernel_implements rep' (by omega)
  let words : Lexicon := ⟨m'.cell, d'.skip cells.length⟩
  have shows : Shows words u (Threaded.start s d'.dp) := .next next
  have turns := fun done rest => thread.turns words rest s.char_output room room' done
  refine ⟨fun done rest typed => ?_, ?_⟩
  · have run := turns done rest
    rw [← typed] at run
    obtain ⟨x, r', shows'⟩ := implements.reaches shows run
    cases shows' with
    | next h =>
      exact ⟨x, r.trans r', h.input, h.output, DataPath.Contents.ext h.ds h.rs h.mem⟩
    | spins stays d => exact absurd stays (thread.moves room)
  · have run := turns s.char_input []
    rw [List.append_nil] at run
    exact r.fails (implements.fails shows ⟨_, run, thread.ends⟩)

section Instances

attribute [local instance] UnicodeData.ascii

/-- The boot thread of a build without colon words lies at 311. -/
theorem echo_copies_hi : ∃ image m' u,
    buildFresh [] (echo 311) (.zeroed MEMORY_SIZE.toNat) = .ok image m' ∧
    Reaches EmulatorService.advance (boot (typing [72, 105] m') image) u ∧ u.char_input = [] ∧
    u.char_output = [72, 105] := by
  have lay := Layout.values
  have resolvable : Resolvable [] (echo 311) := ⟨by decide +kernel, by decide +kernel⟩
  obtain ⟨image, m', run, dp⟩ := builds 309 resolvable (by decide +kernel) (by decide)
  obtain ⟨m₀, e₀, rep, -⟩ := init_represents (.zeroed MEMORY_SIZE.toNat) (by decide)
  have run' := run
  rw [buildFresh, bind_ok e₀] at run'
  have place : image.boot_ip = 311 := by
    obtain ⟨d', word_cfas, cells, -, hb, rfl, rep', -⟩ := build_inv rep run'
    have stop : m'.cell DP_ADDR = d'.dp + cells.length := rep'.ready.dp
    have count := Fallible.length_of_mapM hb
    have size : (echo 311).length = 6 := rfl
    simp only
    omega
  have fits : m'.cell DP_ADDR ≤ WORD_BUFFER_BASE := by omega
  have empty : (typing [72, 105] m').data.contents.ds = [] :=
    DownwardStackAdapter.contents_init m'
  have empty' : (typing [72, 105] m').data.contents.rs = [] :=
    DownwardStackAdapter.contents_init m'
  rw [← place] at run'
  obtain ⟨copies, -⟩ := echo_copies rep run' fits
    (List.forall_mem_nil _) (s := typing [72, 105] m') (fun _ _ _ => rfl)
    (empty ▸ Nat.zero_lt_succ _) (empty' ▸ Nat.zero_lt_succ _)
  obtain ⟨u, r, input, output, -⟩ := copies [72, 105] [] rfl
  exact ⟨image, m', u, run, r, input, output⟩

end Instances

end MinCpuForth.Kernel
