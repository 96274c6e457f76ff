import Mathlib.Data.Nat.Notation
import MinCpuForth.Lib.Action
import MinCpuForth.Lib.Machine

/-!
# Loops with a guard

A loop that takes a step until the state says to stop, and raises once it has taken as many steps as
it is allowed. `Goes` counts the steps of the loop; a run that the guard has stopped is resumed from
the state in which it was stopped.
-/

namespace MinCpuForth.Lib

variable {ε σ : Type} {stop : σ → Bool} {step : EStateM ε σ Unit} {exceeded : ε}
  {s t u : σ} {k m n : ℕ}

/-- The step, this many times. -/
def iterate (step : EStateM ε σ Unit) : ℕ → EStateM ε σ Unit
  | 0 => pure ()
  | k + 1 => do
    step
    iterate step k

/-- Takes the step until the state says to stop; raises if that takes more steps than allowed. -/
def untilStop (stop : σ → Bool) (step : EStateM ε σ Unit) (exceeded : ε) : ℕ → EStateM ε σ Unit
  | 0 => fun s => if stop s then .ok () s else .error exceeded s
  | allowed + 1 => fun s =>
    if stop s then .ok () s else (step >>= fun _ => untilStop stop step exceeded allowed) s

/-- The loop leads from one state to another in this many steps. -/
inductive Goes (stop : σ → Bool) (step : EStateM ε σ Unit) : ℕ → σ → σ → Prop where
  | refl {s : σ} : Goes stop step 0 s s
  | head {k : ℕ} {s t u : σ} (going : stop s = false) (next : step s = .ok () t)
      (rest : Goes stop step k t u) : Goes stop step (k + 1) s u

lemma iterate_preserves {p : σ → Prop} (keeps : Preserves p step) (k : ℕ) :
    Preserves p (iterate step k) := by
  induction k with
  | zero => exact Preserves.pure ()
  | succ k ih => exact keeps.bind fun _ => ih

lemma untilStop_stopped (h : stop s = true) : untilStop stop step exceeded n s = .ok () s := by
  cases n with
  | zero => exact if_pos h
  | succ n => exact if_pos h

lemma untilStop_zero (h : stop s = false) : untilStop stop step exceeded 0 s = .error exceeded s :=
  if_neg (by simp [h])

lemma untilStop_succ (h : stop s = false) : untilStop stop step exceeded (n + 1) s =
    (step >>= fun _ => untilStop stop step exceeded n) s :=
  if_neg (by simp [h])

namespace Goes

/-- The loop's steps are iterated steps, and it had to go on before each of them. -/
lemma iff_iterate : Goes stop step k s t ↔ iterate step k s = .ok () t ∧
    ∀ j < k, ∀ u, iterate step j s = .ok () u → stop u = false := by
  constructor
  · intro h
    induction h with
    | refl => exact ⟨rfl, fun j lt => absurd lt (Nat.not_lt_zero j)⟩
    | head going e _ ih =>
      obtain ⟨run, before⟩ := ih
      refine ⟨(bind_ok e).trans run, fun j lt u run' => ?_⟩
      cases j with
      | zero =>
        cases run'
        exact going
      | succ j => exact before j (Nat.lt_of_succ_lt_succ lt) u ((bind_ok e).symm.trans run')
  · rintro ⟨run, before⟩
    induction k generalizing s with
    | zero =>
      cases run
      exact .refl
    | succ k ih =>
      obtain ⟨_, s', e, run⟩ := bind_eq_ok.mp run
      refine .head (before 0 (Nat.succ_pos k) s rfl) e (ih run fun j lt u run' => ?_)
      exact before (j + 1) (Nat.succ_lt_succ lt) u ((bind_ok e).trans run')

/-- Where a step never takes back that the loop is to stop, steps that do not end there are steps
    of the loop. -/
lemma of_iterate (keeps : Preserves (fun s => stop s = true) step)
    (run : iterate step k s = .ok () t) (going : stop t = false) : Goes stop step k s t := by
  induction k generalizing s with
  | zero =>
    cases run
    exact .refl
  | succ k ih =>
    obtain ⟨_, s', e, rest⟩ := bind_eq_ok.mp run
    refine .head (Bool.eq_false_iff.mpr fun stopped => ?_) e (ih rest)
    have stopped' : stop t = true := iterate_preserves keeps (k + 1) s () t stopped run
    exact Bool.eq_false_iff.mp going stopped'

/-- Steps that come to a state where the loop is to stop pass through the first such state. -/
lemma first (run : iterate step k s = .ok () t) (stopped : stop t = true) :
    ∃ j ≤ k, ∃ u, Goes stop step j s u ∧ stop u = true := by
  induction k generalizing s with
  | zero =>
    cases run
    exact ⟨0, Nat.le_refl _, _, .refl, stopped⟩
  | succ k ih =>
    cases here : stop s with
    | true => exact ⟨0, Nat.zero_le _, s, .refl, here⟩
    | false =>
      obtain ⟨_, s', e, rest⟩ := bind_eq_ok.mp run
      obtain ⟨j, le, u, goes, stopped'⟩ := ih rest
      exact ⟨j + 1, Nat.succ_le_succ le, u, .head here e goes, stopped'⟩

/-- The loop's first steps, then what is left of its allowance. -/
lemma untilStop (h : Goes stop step k s t) :
    untilStop stop step exceeded (k + n) s = untilStop stop step exceeded n t := by
  induction h with
  | refl => rw [Nat.zero_add]
  | head going e _ ih =>
    rw [Nat.succ_add, untilStop_succ going, bind_ok e]
    exact ih

end Goes

/-- The loop returns exactly when it comes to a state where it is to stop, within its allowance. -/
lemma untilStop_ok : untilStop stop step exceeded m s = .ok () t ↔
    ∃ k ≤ m, Goes stop step k s t ∧ stop t = true := by
  constructor
  · intro run
    induction m generalizing s with
    | zero =>
      cases here : stop s with
      | true =>
        cases (untilStop_stopped here).symm.trans run
        exact ⟨0, Nat.le_refl _, .refl, here⟩
      | false => cases (untilStop_zero here).symm.trans run
    | succ m ih =>
      cases here : stop s with
      | true =>
        cases (untilStop_stopped here).symm.trans run
        exact ⟨0, Nat.zero_le _, .refl, here⟩
      | false =>
        obtain ⟨_, s', e, rest⟩ := bind_eq_ok.mp ((untilStop_succ here).symm.trans run)
        obtain ⟨k, le, goes, stopped⟩ := ih rest
        exact ⟨k + 1, Nat.succ_le_succ le, .head here e goes, stopped⟩
  · rintro ⟨k, le, goes, stopped⟩
    obtain ⟨n, rfl⟩ := Nat.exists_eq_add_of_le le
    exact goes.untilStop.trans (untilStop_stopped stopped)

/-- The loop raises what its next step raises. -/
lemma Goes.raises {e : ε} (h : Goes stop step k s t) (going : stop t = false)
    (raised : step t = .error e u) :
    Lib.untilStop stop step exceeded (k + 1) s = .error e u := by
  rw [h.untilStop, untilStop_succ going]
  exact bind_error raised

/-- A loop that has to go on after all the steps it is allowed. -/
lemma Goes.exceeds (h : Goes stop step m s t) (going : stop t = false) :
    Lib.untilStop stop step exceeded m s = .error exceeded t :=
  h.untilStop.trans (untilStop_zero going)

/-- Where the loop raises, a step that it takes does, or its guard. -/
lemma untilStop_error {e : ε} (run : untilStop stop step exceeded m s = .error e t) :
    (∃ k < m, ∃ u, Goes stop step k s u ∧ stop u = false ∧ step u = .error e t) ∨
      (e = exceeded ∧ Goes stop step m s t ∧ stop t = false) := by
  induction m generalizing s with
  | zero =>
    cases here : stop s with
    | true => cases (untilStop_stopped here).symm.trans run
    | false =>
      cases (untilStop_zero here).symm.trans run
      exact .inr ⟨rfl, .refl, here⟩
  | succ m ih =>
    cases here : stop s with
    | true => cases (untilStop_stopped here).symm.trans run
    | false =>
      rcases bind_eq_error.mp ((untilStop_succ here).symm.trans run) with raised | ⟨_, u, e, run⟩
      · exact .inl ⟨0, Nat.succ_pos m, s, .refl, here, raised⟩
      · rcases ih run with ⟨k, lt, v, goes, going, raised⟩ | ⟨guard, goes, going⟩
        · exact .inl ⟨k + 1, Nat.succ_lt_succ lt, v, .head here e goes, going, raised⟩
        · exact .inr ⟨guard, .head here e goes, going⟩

/-- The loop raises what a step within its allowance raises. -/
lemma Goes.raises_within {e : ε} (h : Goes stop step k s t) (going : stop t = false)
    (raised : step t = .error e u) (lt : k < m) :
    Lib.untilStop stop step exceeded m s = .error e u := by
  obtain ⟨n, rfl⟩ := Nat.exists_eq_add_of_lt lt
  rw [Nat.add_assoc, h.untilStop, untilStop_succ going]
  exact bind_error raised

/-- What the guard raises matters only where the guard raises. -/
lemma untilStop_exceeded (exceeded exceeded' : ε) :
    untilStop stop step exceeded n s = untilStop stop step exceeded' n s ∨
      ∃ t, untilStop stop step exceeded n s = .error exceeded t ∧
        untilStop stop step exceeded' n s = .error exceeded' t := by
  induction n generalizing s with
  | zero =>
    cases here : stop s with
    | true => exact .inl ((untilStop_stopped here).trans (untilStop_stopped here).symm)
    | false => exact .inr ⟨s, untilStop_zero here, untilStop_zero here⟩
  | succ n ih =>
    cases here : stop s with
    | true => exact .inl ((untilStop_stopped here).trans (untilStop_stopped here).symm)
    | false =>
      rw [untilStop_succ here, untilStop_succ here]
      cases e : step s with
      | ok _ s' =>
        rw [bind_ok e, bind_ok e]
        exact ih
      | error _ s' =>
        rw [bind_error e, bind_error e]
        exact .inl rfl

section Machine

/-- The loop without its guard, as a machine. -/
def looping (stop : σ → Bool) (step : EStateM ε σ Unit) (s : σ) : Outcome ε σ :=
  if stop s then .halt
  else
    match step s with
    | .ok _ t => .next t
    | .error e _ => .fail e

lemma looping_next : looping stop step s = .next t ↔ stop s = false ∧ step s = .ok () t := by
  unfold looping
  cases stop s with
  | true => simp
  | false => cases step s <;> simp

lemma looping_halt : looping stop step s = .halt ↔ stop s = true := by
  unfold looping
  cases stop s with
  | true => simp
  | false => cases step s <;> simp

lemma looping_fail {e : ε} :
    looping stop step s = .fail e ↔ stop s = false ∧ ∃ t, step s = .error e t := by
  unfold looping
  cases stop s with
  | true => simp
  | false => cases step s <;> simp

/-- The machine's steps are those of the loop. -/
lemma reaches_looping : Reaches (looping stop step) s t ↔ ∃ k, Goes stop step k s t := by
  constructor
  · intro h
    induction h using Relation.ReflTransGen.head_induction_on with
    | refl => exact ⟨0, .refl⟩
    | head e _ ih =>
      obtain ⟨going, e⟩ := looping_next.mp e
      obtain ⟨k, goes⟩ := ih
      exact ⟨k + 1, .head going e goes⟩
  · rintro ⟨k, goes⟩
    induction goes with
    | refl => exact .refl
    | head going e _ ih => exact .head (looping_next.mpr ⟨going, e⟩) ih

/-- The machine runs forever exactly when the loop goes on after any number of steps. -/
lemma diverges_looping : Diverges (looping stop step) s ↔
    ∀ m, ∃ t, Goes stop step m s t ∧ stop t = false := by
  constructor
  · intro d m
    induction m generalizing s with
    | zero =>
      obtain ⟨t, e⟩ := d s .refl
      exact ⟨s, .refl, (looping_next.mp e).1⟩
    | succ m ih =>
      obtain ⟨t, e⟩ := d s .refl
      obtain ⟨u, goes, going⟩ := ih fun v r => d v (.head e r)
      obtain ⟨here, next⟩ := looping_next.mp e
      exact ⟨u, .head here next goes, going⟩
  · intro h
    -- The loop's first step leads to a state where all this holds again.
    refine .of_invariant (fun s => ∀ m, ∃ t, Goes stop step m s t ∧ stop t = false) ?_ h
    intro s h
    obtain ⟨_, goes, -⟩ := h 1
    obtain _ | ⟨here, next, -⟩ := goes
    refine ⟨_, .head (looping_next.mpr ⟨here, next⟩) .refl, fun m => ?_⟩
    obtain ⟨u, goes, going⟩ := h (m + 1)
    obtain _ | ⟨-, next', rest⟩ := goes
    cases next.symm.trans next'
    exact ⟨u, rest, going⟩

end Machine

end MinCpuForth.Lib
