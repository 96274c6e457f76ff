import MinCpuForth.Kernel.Calls
import MinCpuForth.Kernel.Vocabulary

/-!
# The words on the stacks, on the emulator

The routine of a word on the stacks, entered at its label, does on the emulator what its stack
comment says.
-/

namespace MinCpuForth.Kernel
open Python Domain Adapters Emulator Lib EmulatorService

/-- Runs of a routine on the view are runs of the emulator. -/
lemma routine_views : Simulates view routine viewRoutine := view_simulates.upTo fun _ => Iff.rfl

variable {s : EmulatorService}

/-- The stacks of the emulator never exceed their regions. -/
lemma runs_view (running : s.halted = false) : Runs (view s) := by
  refine ⟨running, ?_, ?_⟩
  · exact (DownwardStackAdapter.length_contents ..).trans_le s.data.data_stack.depth_le
  · exact (DownwardStackAdapter.length_contents ..).trans_le s.data.return_stack.depth_le

/-- What the routine of a word does, from its label on. -/
lemma stackWord_meets {w : StackWord} {k : CodeWordDto} (mem : k ∈ CODE_WORDS)
    (same : k.name = w.name) (h : Enters k.routine_label s) :
    Meets (view s) (w.verdict s.data.contents.ds s.data.contents.rs 0) := by
  have label : KernelBuilder.label_index kernelLabels k.routine_label = .ok s.pc := by
    rw [KernelBuilder.label_index, h.pc]
  obtain ⟨above, code⟩ := (stackWord_runs w).codeAt mem same label
  rw [← h.program] at code
  exact performs w (runs_view h.running) above code

/-- A routine that comes back. -/
lemma Meets.reaches {ds rs : List ℤ} (h : Meets (view s) (.ok ds rs)) :
    ∃ t, Reaches routine s t ∧ Back (view s) ds rs (view t) := by
  obtain ⟨u, r, back⟩ := h
  obtain ⟨t, r', rfl⟩ := routine_views.reaches r
  exact ⟨t, r', back⟩

/-- Where it is then, and what the data path holds. -/
lemma Enters.back {label : PyStr} {t : EmulatorService} {ds rs : List ℤ} (h : Enters label s)
    (back : Back (view s) ds rs (view t)) : kernelLabels.lookup (py "NEXT") = some t.pc ∧
      t.data.contents = { s.data.contents with ds := ds, rs := rs } := by
  constructor
  · rw [h.next]
    exact congrArg some back.pc.symm
  · exact DataPath.Contents.ext back.ds back.rs back.mem

end MinCpuForth.Kernel
