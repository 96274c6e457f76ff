import MinCpuForth.Emulator.Service

/-!
# Observing the emulator

An observation of the emulator's state with a step function of its own. Where the observer's
instructions do what the emulator's handlers do, its runs are runs of the emulator.
-/

namespace MinCpuForth.Emulator
open Python Domain Adapters Lib EmulatorService

variable {τ : Type}

/-- The emulator's action agrees with what the observer says happens. -/
def AgreesOn (observe : EmulatorService → τ) (r : EStateM.Result PyError EmulatorService Unit) :
    Outcome PyError τ → Prop
  | .next t => ∃ s, r = .ok () s ∧ observe s = t
  | .fail e => ∃ s, r = .error e s
  | .halt => False
  | .unknown => True

/-- An operation of the data path, against its effect on the contents. -/
lemma onData_ok {α : Type} {act : EStateM PyError DataPath α} {s : EmulatorService} {a : α}
    {d : DataPath} (h : act s.data = .ok a d) : onData act s = .ok a { s with data := d } := by
  simp only [onData, h]

lemma onData_error {α : Type} {act : EStateM PyError DataPath α} {s : EmulatorService} {e : PyError}
    {d : DataPath} (h : act s.data = .error e d) :
    onData act s = .error e { s with data := d } := by
  simp only [onData, h]

/-- Input that is exhausted, and input that is not. -/
lemma readInput_nil {s : EmulatorService} (h : s.char_input = []) :
    readInput s = .error .inputExhausted s := by
  simp only [readInput, h]

lemma readInput_cons {s : EmulatorService} {c : ℤ} {cs : List ℤ} (h : s.char_input = c :: cs) :
    readInput s = .ok c { s with char_input := cs } := by
  simp only [readInput, h]

/-- A branch, taken or not. -/
lemma branch_agrees (observe : EmulatorService → τ) (s : EmulatorService) {r : PyStr}
    (test : ℤ → Bool) (o : ℤ) {p : Prop} [Decidable p] (h : test (s.registers r) = true ↔ p)
    (i : InstructionDto) (ha : i.a = some r) (ho : i.offset = some o) :
    AgreesOn observe (exec_branch test i s)
      (.next (if p then observe { s with pc := s.pc + o } else observe s)) := by
  have run : exec_branch test i s = (if test (s.registers r) then branch o else pure ()) s := by
    simp only [exec_branch, requireA, ha, requireOffset, ho]
    rfl
  by_cases hp : p
  · refine ⟨{ s with pc := s.pc + o }, ?_, ?_⟩
    · rw [run, if_pos (h.mpr hp)]
      rfl
    · rw [if_pos hp]
  · refine ⟨s, ?_, ?_⟩
    · rw [run, if_neg (fun t => hp (h.mp t))]
      rfl
    · rw [if_neg hp]

/-- An observer that halts when the emulator is halted, fails when it is lost and agrees with every
    instruction simulates it. -/
lemma simulates_of_agrees {observe : EmulatorService → τ} {step : τ → Outcome PyError τ}
    (halts : ∀ s, s.halted = true → step (observe s) = .halt)
    (lost : ∀ s, s.halted = false → index? s.program.length s.pc = none →
      step (observe s) = .fail .indexError)
    (agrees : ∀ s, s.halted = false → ∀ i : Fin s.program.length,
      index? s.program.length s.pc = some i →
        AgreesOn observe (execute (s.program.get i) { s with pc := s.pc + 1 }) (step (observe s))) :
    Simulates observe advance step := by
  have lost' : ∀ s : EmulatorService, s.halted = false → index? s.program.length s.pc = none →
      advance s = .fail .indexError := by
    intro s running h
    have e : fetch s = .error .indexError s := by simp only [fetch, h]
    have run : EmulatorService.step s = .error .indexError s := bind_error e
    simp [advance, running, run]
  have agrees' : ∀ s : EmulatorService, s.halted = false → ∀ i : Fin s.program.length,
      index? s.program.length s.pc = some i →
        AgreesOn observe (EmulatorService.step s) (step (observe s)) := by
    intro s running i fetched
    rw [step_eq fetched]
    exact agrees s running i fetched
  constructor
  · intro s t h
    cases running : s.halted with
    | true => cases (halts s running).symm.trans h
    | false =>
      cases fetched : index? s.program.length s.pc with
      | none => cases (lost s running fetched).symm.trans h
      | some i =>
        have a := agrees' s running i fetched
        rw [h] at a
        obtain ⟨s', e, hv⟩ := a
        exact ⟨s', by simp [advance, running, e], hv⟩
  · intro s h
    cases running : s.halted with
    | true => simp [advance, running]
    | false =>
      cases fetched : index? s.program.length s.pc with
      | none => cases (lost s running fetched).symm.trans h
      | some i =>
        have a := agrees s running i fetched
        rw [h] at a
        cases a
  · intro s e h
    cases running : s.halted with
    | true => cases (halts s running).symm.trans h
    | false =>
      cases fetched : index? s.program.length s.pc with
      | none =>
        cases (lost s running fetched).symm.trans h
        exact lost' s running fetched
      | some i =>
        have a := agrees' s running i fetched
        rw [h] at a
        obtain ⟨s', e'⟩ := a
        simp [advance, running, e']

end MinCpuForth.Emulator
