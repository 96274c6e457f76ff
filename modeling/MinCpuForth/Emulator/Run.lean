import MinCpuForth.Emulator.Clean
import MinCpuForth.Emulator.WellFormed
import MinCpuForth.Lib.Loop

/-!
# Runs with a step guard

`EmulatorService.run`: steps until the emulator is halted, and gives up on a run that takes more
steps than allowed. The steps taken are kept, so a run that was given up can be resumed.
-/

namespace MinCpuForth.Emulator
open Python Domain Adapters Lib

namespace EmulatorService

def DEFAULT_MAX_STEPS : ℤ := 100000

/-- The loop of `run`, with the steps it has counted. The halted flag is read first. -/
def runLoop (max_steps steps : ℤ) : Action Unit := do
  if (← get).halted then
    return ()
  else if max_steps ≤ steps then
    throw (.maxSteps max_steps)
  else
    step
    runLoop max_steps (steps + 1)
termination_by (max_steps - steps).toNat

/-- Steps until halted, and raises past `max_steps`. -/
def run (max_steps : ℤ := DEFAULT_MAX_STEPS) : Action Unit := runLoop max_steps 0

end EmulatorService

open EmulatorService

variable {s t : EmulatorService} {m n k : ℕ}

lemma runLoop_halted {max_steps steps : ℤ} (h : s.halted = true) :
    runLoop max_steps steps s = .ok () s := by
  rw [runLoop]
  refine (bind_ok (s := s) rfl).trans ?_
  rw [if_pos h]
  rfl

lemma runLoop_exceeds {max_steps steps : ℤ} (h : s.halted = false) (le : max_steps ≤ steps) :
    runLoop max_steps steps s = .error (.maxSteps max_steps) s := by
  rw [runLoop]
  refine (bind_ok (s := s) rfl).trans ?_
  rw [if_neg (by simp [h]), if_pos le]
  rfl

lemma runLoop_steps {max_steps steps : ℤ} (h : s.halted = false) (lt : steps < max_steps) :
    runLoop max_steps steps s = (step >>= fun _ => runLoop max_steps (steps + 1)) s := by
  rw [runLoop]
  refine (bind_ok (s := s) rfl).trans ?_
  rw [if_neg (by simp [h]), if_neg (Int.not_le.mpr lt)]

/-- The loop counts up to its bound. -/
lemma runLoop_eq (max_steps steps : ℤ) : runLoop max_steps steps =
    untilStop (·.halted) step (.maxSteps max_steps) (max_steps - steps).toNat := by
  induction e : (max_steps - steps).toNat generalizing steps with
  | zero =>
    funext s
    cases h : s.halted with
    | true => exact (runLoop_halted h).trans (untilStop_stopped h).symm
    | false => exact (runLoop_exceeds h (by omega)).trans (untilStop_zero h).symm
  | succ n ih =>
    funext s
    cases h : s.halted with
    | true => exact (runLoop_halted h).trans (untilStop_stopped h).symm
    | false =>
      rw [runLoop_steps h (by omega), ih (steps + 1) (by omega)]
      exact (untilStop_succ h).symm

/-- A run is the loop with the bound as its allowance. -/
lemma run_eq (m : ℕ) : run m = untilStop (·.halted) step (.maxSteps m) m := by
  have whole : ((m : ℤ) - 0).toNat = m := by omega
  exact (runLoop_eq m 0).trans (by rw [whole])

/-- What a run with a bound does. It returns exactly when iterated steps halt the emulator within the
    bound, in the first halted state. Otherwise, and with no step raising, it raises and keeps all
    its steps; another run from there does what one run with both bounds together does, but for the
    bound that the guard names. -/
theorem run_guard (s : EmulatorService) (m n : ℕ) :
    (∀ t, run m s = .ok () t ↔ ∃ k ≤ m, iterate step k s = .ok () t ∧ t.halted = true ∧
      ∀ j < k, ∀ u, iterate step j s = .ok () u → u.halted = false) ∧
    ((∃ t, run m s = .ok () t) ↔ ∃ k ≤ m, ∃ t, iterate step k s = .ok () t ∧ t.halted = true) ∧
    ∀ t, iterate step m s = .ok () t → t.halted = false →
      run m s = .error (.maxSteps m) t ∧
      (run (m + n) s = run n t ∨ ∃ u, run n t = .error (.maxSteps n) u ∧
        run (m + n) s = .error (.maxSteps (m + n)) u) := by
  rw [run_eq]
  refine ⟨fun t => ?_, ?_, fun t steps running => ?_⟩
  · rw [untilStop_ok]
    constructor
    · rintro ⟨k, le, goes, halted⟩
      obtain ⟨steps, before⟩ := Goes.iff_iterate.mp goes
      exact ⟨k, le, steps, halted, before⟩
    · rintro ⟨k, le, steps, halted, before⟩
      exact ⟨k, le, Goes.iff_iterate.mpr ⟨steps, before⟩, halted⟩
  · constructor
    · rintro ⟨t, returns⟩
      obtain ⟨k, le, goes, halted⟩ := untilStop_ok.mp returns
      exact ⟨k, le, t, (Goes.iff_iterate.mp goes).1, halted⟩
    · rintro ⟨k, le, t, steps, halted⟩
      have first : ∃ j ≤ k, ∃ u, Goes (·.halted) step j s u ∧ u.halted = true :=
        Goes.first steps halted
      obtain ⟨j, le', u, goes, halted'⟩ := first
      exact ⟨u, untilStop_ok.mpr ⟨j, le'.trans le, goes, halted'⟩⟩
  · have goes := Goes.of_iterate step_halted steps running
    refine ⟨goes.exceeds running, ?_⟩
    have both := run_eq (m + n)
    rw [Nat.cast_add] at both
    rw [both, run_eq, goes.untilStop]
    rcases untilStop_exceeded (PyError.maxSteps (m + n)) (PyError.maxSteps n) with
      same | ⟨u, e, e'⟩
    · exact .inl same
    · exact .inr ⟨u, e', e⟩

/-- Two steps, with a bound of one and again from there. -/
theorem run_guard_resumed :
    ∃ s t u : EmulatorService, run 1 s = .error (.maxSteps 1) t ∧ run 1 t = .ok () u ∧
      run 2 s = .ok () u := by
  let s : EmulatorService :=
    ⟨fun _ => 0, ⟨.zeroed _, .init .., .init ..⟩, [], [], [.OUT "X", .HALT], 0, false⟩
  let t : EmulatorService := { s with char_output := [0], pc := 1 }
  let u : EmulatorService := { t with pc := 2, halted := true }
  have out : step s = .ok () t := rfl
  have halt : step t = .ok () u := rfl
  obtain ⟨stopped, resumed⟩ := (run_guard s 1 1).2.2 t ((bind_ok out).trans rfl) rfl
  have returns : run 1 t = .ok () u := by
    refine ((run_guard t 1 0).1 u).mpr ⟨1, Nat.le_refl 1, (bind_ok halt).trans rfl, rfl, ?_⟩
    intro j lt v run
    obtain rfl : j = 0 := by omega
    cases run
    rfl
  refine ⟨s, t, u, stopped, returns, ?_⟩
  rcases resumed with same | ⟨v, raised, -⟩
  · exact same.trans returns
  · cases returns.symm.trans raised

/-- The guard stops a jump to itself after one step and after two, with different messages. -/
theorem guard_names_its_own_bound :
    ¬∀ (s t : EmulatorService) (m n : ℕ), iterate step m s = .ok () t → t.halted = false →
      run (m + n) s = run n t := by
  intro claim
  let s : EmulatorService :=
    ⟨fun _ => 0, ⟨.zeroed _, .init .., .init ..⟩, [], [], [.JMP "X"], 0, false⟩
  have around : step s = .ok () s := rfl
  have same := claim s s 1 1 ((bind_ok around).trans rfl) rfl
  have once : Goes (·.halted) step 1 s s := .head rfl around .refl
  have twice : Goes (·.halted) step 2 s s := .head rfl around once
  have stopped : run 1 s = .error (.maxSteps 1) s :=
    (congrFun (run_eq 1) s).trans (once.exceeds rfl)
  have stopped' : run 2 s = .error (.maxSteps 2) s :=
    (congrFun (run_eq 2) s).trans (twice.exceeds rfl)
  cases stopped'.symm.trans (same.trans stopped)

/-- The emulator's machine is the loop of `run` without its guard. -/
lemma advance_eq : advance = looping (·.halted) step := by
  funext s
  unfold advance looping
  cases step s <;> rfl

/-- The emulator halts in the state in which a run returns, if its bound is large enough. -/
theorem halts_iff_run : Halts advance s t ↔ ∃ m : ℕ, run m s = .ok () t := by
  rw [advance_eq]
  constructor
  · rintro ⟨reaches, halt⟩
    obtain ⟨k, goes⟩ := reaches_looping.mp reaches
    refine ⟨k, ?_⟩
    rw [run_eq, untilStop_ok]
    exact ⟨k, Nat.le_refl k, goes, looping_halt.mp halt⟩
  · rintro ⟨m, returns⟩
    rw [run_eq, untilStop_ok] at returns
    obtain ⟨k, -, goes, halted⟩ := returns
    exact ⟨reaches_looping.mpr ⟨k, goes⟩, looping_halt.mpr halted⟩

/-- An emulator that fails does so in a run whose bound is large enough. -/
theorem fails_run {e : PyError} (h : Fails advance s e) :
    ∃ (m : ℕ) (t : EmulatorService), run m s = .error e t := by
  rw [advance_eq] at h
  obtain ⟨u, reaches, fail⟩ := h
  obtain ⟨k, goes⟩ := reaches_looping.mp reaches
  obtain ⟨running, t, raised⟩ := looping_fail.mp fail
  refine ⟨k + 1, t, ?_⟩
  rw [run_eq]
  exact goes.raises running raised

/-- The guard stops an emulator that never halts, whatever the bound. -/
theorem diverges_run (d : Diverges advance s) (m : ℕ) : ∃ t, run m s = .error (.maxSteps m) t := by
  rw [advance_eq] at d
  obtain ⟨t, goes, running⟩ := diverges_looping.mp d m
  rw [run_eq]
  exact ⟨t, goes.exceeds running⟩

/-- However a run ends, it leaves the data of a state that the emulator has come to: where a step
    raises, it has not touched them. -/
theorem run_data {max_steps : ℤ}
    (h : run max_steps s = .ok () t ∨ ∃ e, run max_steps s = .error e t) :
    ∃ u, Reaches advance s u ∧ t.data = u.data := by
  have loop : run max_steps =
      untilStop (·.halted) step (.maxSteps max_steps) (max_steps - 0).toNat :=
    runLoop_eq max_steps 0
  rw [loop] at h
  rw [advance_eq]
  rcases h with returns | ⟨e, raises⟩
  · obtain ⟨k, -, goes, -⟩ := untilStop_ok.mp returns
    exact ⟨t, reaches_looping.mpr ⟨k, goes⟩, rfl⟩
  · rcases untilStop_error raises with ⟨k, -, u, goes, -, raised⟩ | ⟨-, goes, -⟩
    · refine ⟨u, reaches_looping.mpr ⟨k, goes⟩, ?_⟩
      rcases step_error raised with ⟨-, same⟩ | ⟨i, -, same⟩ <;> rw [same]
    · exact ⟨t, reaches_looping.mpr ⟨_, goes⟩, rfl⟩

end MinCpuForth.Emulator
