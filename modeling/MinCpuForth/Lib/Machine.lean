import Mathlib.Data.Nat.Notation
import Mathlib.Logic.Relation

/-!
# Deterministic machines

A machine takes steps until it halts or fails. `Reaches` is any number of steps, `Progresses` at
least one. A view of the states that commutes with the steps carries runs of the viewed machine over
to the machine; where the viewed machine does not say what happens, nothing is claimed.
-/

namespace MinCpuForth.Lib

/-- What a machine does next. `unknown` is for a machine that models only part of another. -/
inductive Outcome (ε σ : Type*) where
  | next (s : σ)
  | halt
  | fail (e : ε)
  | unknown

variable {ε σ τ : Type*} {step : σ → Outcome ε σ} {s t u : σ}

/-- Any number of steps. -/
def Reaches (step : σ → Outcome ε σ) : σ → σ → Prop :=
  Relation.ReflTransGen fun s t => step s = .next t

/-- At least one step. -/
def Progresses (step : σ → Outcome ε σ) : σ → σ → Prop :=
  Relation.TransGen fun s t => step s = .next t

/-- The run ends in the halted state `t`. -/
def Halts (step : σ → Outcome ε σ) (s t : σ) : Prop := Reaches step s t ∧ step t = .halt

/-- The run ends with an error. -/
def Fails (step : σ → Outcome ε σ) (s : σ) (e : ε) : Prop :=
  ∃ t, Reaches step s t ∧ step t = .fail e

/-- The run never ends: every state that it reaches has a next one. -/
def Diverges (step : σ → Outcome ε σ) (s : σ) : Prop :=
  ∀ t, Reaches step s t → ∃ u, step t = .next u

namespace Reaches

lemma refl : Reaches step s s := Relation.ReflTransGen.refl

lemma trans (h : Reaches step s t) (h' : Reaches step t u) : Reaches step s u :=
  Relation.ReflTransGen.trans h h'

lemma one (h : step s = .next t) : Reaches step s t := .single h

/-- A step, then a run. -/
lemma head (h : step s = .next t) (h' : Reaches step t u) : Reaches step s u :=
  Relation.ReflTransGen.head h h'

/-- A run, then a halting one. -/
lemma halts (h : Reaches step s t) (h' : Halts step t u) : Halts step s u :=
  ⟨h.trans h'.1, h'.2⟩

/-- A run, then a failing one. -/
lemma fails {e : ε} (h : Reaches step s t) (h' : Fails step t e) : Fails step s e := by
  obtain ⟨u, r, f⟩ := h'
  exact ⟨u, h.trans r, f⟩

/-- Two runs of one state: one continues the other. -/
lemma total (h : Reaches step s t) (h' : Reaches step s u) :
    Reaches step t u ∨ Reaches step u t := by
  refine Relation.ReflTransGen.total_of_right_unique ?_ h h'
  intro a b c hb hc
  cases hb.symm.trans hc
  rfl

/-- A run comes to one end at most. -/
lemma unique (h : Reaches step s t) (h' : Reaches step s u) (stop : step t = .halt)
    (stop' : step u = .halt) : t = u := by
  have ends : ∀ {x y : σ}, step x = .halt → Reaches step x y → x = y := by
    intro x y e r
    rcases Relation.ReflTransGen.cases_head r with rfl | ⟨z, next, -⟩
    · rfl
    · cases e.symm.trans next
  cases h.total h' with
  | inl later => exact ends stop later
  | inr earlier => exact (ends stop' earlier).symm

/-- A run, then a diverging one. -/
lemma diverges (h : Reaches step s t) (d : Diverges step t) : Diverges step s := by
  intro v hv
  cases h.total hv with
  | inl later => exact d v later
  | inr earlier =>
    cases Relation.ReflTransGen.cases_head earlier with
    | inl e => exact d v (e ▸ refl)
    | inr more =>
      obtain ⟨w, hw, -⟩ := more
      exact ⟨w, hw⟩

/-- A loop with a variant reaches its exit: while the invariant holds and the variant is positive,
    the loop comes back with a smaller one. -/
lemma loop (inv : ℕ → σ → Prop) (post : σ → Prop)
    (exit : ∀ s, inv 0 s → ∃ t, Reaches step s t ∧ post t)
    (turn : ∀ k s, inv (k + 1) s → ∃ t, Reaches step s t ∧ inv k t) (k : ℕ) (h : inv k s) :
    ∃ t, Reaches step s t ∧ post t := by
  induction k generalizing s with
  | zero => exact exit s h
  | succ k ih =>
    obtain ⟨t, r, ht⟩ := turn k s h
    obtain ⟨u, r', hu⟩ := ih ht
    exact ⟨u, r.trans r', hu⟩

end Reaches

namespace Progresses

lemma head (h : step s = .next t) (h' : Reaches step t u) : Progresses step s u :=
  Relation.TransGen.head' h h'

lemma reaches (h : Progresses step s t) : Reaches step s t := h.to_reflTransGen

end Progresses

/-- Every state of a run that keeps coming back to an invariant has a next one. -/
lemma Diverges.of_invariant (inv : σ → Prop)
    (turn : ∀ s, inv s → ∃ t, Progresses step s t ∧ inv t) (h : inv s) : Diverges step s := by
  intro v hv
  -- The run from `s` to `v` is overtaken by turns of the loop.
  have ahead : ∃ w, inv w ∧ Progresses step v w := by
    induction hv with
    | refl =>
      obtain ⟨t, p, ht⟩ := turn s h
      exact ⟨t, ht, p⟩
    | tail _ e ih =>
      obtain ⟨w, hw, p⟩ := ih
      obtain ⟨x, hx, rest⟩ := Relation.TransGen.head'_iff.mp p
      cases e.symm.trans hx
      obtain ⟨t, p', ht⟩ := turn w hw
      exact ⟨t, ht, Relation.TransGen.trans_right rest p'⟩
  obtain ⟨w, -, p⟩ := ahead
  obtain ⟨x, hx, -⟩ := Relation.TransGen.head'_iff.mp p
  exact ⟨x, hx⟩

/-- A diverging run does not halt. -/
lemma Diverges.not_halts (d : Diverges step s) : ¬Halts step s t := by
  rintro ⟨r, h⟩
  obtain ⟨u, e⟩ := d t r
  rw [h] at e
  cases e

/-- The view `f` commutes with the steps wherever the viewed machine knows what happens. -/
structure Simulates (f : σ → τ) (step : σ → Outcome ε σ) (step' : τ → Outcome ε τ) : Prop where
  next : ∀ s t, step' (f s) = .next t → ∃ s', step s = .next s' ∧ f s' = t
  halt : ∀ s, step' (f s) = .halt → step s = .halt
  fail : ∀ s e, step' (f s) = .fail e → step s = .fail e

namespace Simulates

variable {f : σ → τ} {step' : τ → Outcome ε τ}

/-- Runs carry over. -/
lemma reaches (sim : Simulates f step step') {v : τ} (h : Reaches step' (f s) v) :
    ∃ s', Reaches step s s' ∧ f s' = v := by
  induction h with
  | refl => exact ⟨s, .refl, rfl⟩
  | tail _ e ih =>
    obtain ⟨t, r, rfl⟩ := ih
    obtain ⟨s', h, hf⟩ := sim.next _ _ e
    exact ⟨s', r.trans (.one h), hf⟩

/-- Halting runs carry over. -/
lemma halts (sim : Simulates f step step') {v : τ} (h : Halts step' (f s) v) :
    ∃ s', Halts step s s' ∧ f s' = v := by
  obtain ⟨s', r, hf⟩ := sim.reaches h.1
  exact ⟨s', ⟨r, sim.halt s' (by rw [hf]; exact h.2)⟩, hf⟩

/-- Failing runs carry over. -/
lemma fails (sim : Simulates f step step') {e : ε} (h : Fails step' (f s) e) : Fails step s e := by
  obtain ⟨v, r, h⟩ := h
  obtain ⟨s', r', hf⟩ := sim.reaches r
  exact ⟨s', r', sim.fail s' e (by rw [hf]; exact h)⟩

/-- Diverging runs carry over. -/
lemma diverges (sim : Simulates f step step') (d : Diverges step' (f s)) : Diverges step s := by
  refine Diverges.of_invariant (fun t => Diverges step' (f t)) (fun t dt => ?_) d
  obtain ⟨v, e⟩ := dt (f t) .refl
  obtain ⟨t', e', rfl⟩ := sim.next _ _ e
  exact ⟨t', .head e' .refl, fun w r => dt w (.head e r)⟩

/-- Where the viewed machine knows what happens, its step is that of the machine. -/
lemma reflects_step (sim : Simulates f step step') (h : step s = .next t)
    (known : step' (f s) ≠ .unknown) : step' (f s) = .next (f t) := by
  cases e : step' (f s) with
  | next v =>
    obtain ⟨w, hw, rfl⟩ := sim.next s v e
    cases h.symm.trans hw
    rfl
  | halt => cases h.symm.trans (sim.halt s e)
  | fail err => cases h.symm.trans (sim.fail s err e)
  | unknown => exact absurd e known

/-- Where the viewed machine always knows what happens, its runs include those of the machine. -/
lemma reflects (sim : Simulates f step step') (h : Reaches step s t)
    (known : ∀ v, Reaches step' (f s) v → step' v ≠ .unknown) : Reaches step' (f s) (f t) := by
  induction h with
  | refl => exact .refl
  | tail _ e ih => exact ih.trans (.one (sim.reflects_step e (known _ ih)))

end Simulates

/-- What holds at first and is preserved by every step holds in every state reached. -/
lemma Reaches.invariant (inv : σ → Prop) (keeps : ∀ t u, inv t → step t = .next u → inv u)
    (h : inv s) (r : Reaches step s t) : inv t := by
  induction r with
  | refl => exact h
  | tail _ e ih => exact keeps _ _ ih e

/-- The property holds in every state that the machine comes to. -/
def Always (P : σ → Prop) (step : σ → Outcome ε σ) (s : σ) : Prop := ∀ t, Reaches step s t → P t

namespace Always

variable {P : σ → Prop}

/-- It holds here and always from the next state on. -/
lemma head (hs : P s) (h : step s = .next t) (ht : Always P step t) : Always P step s := by
  intro u r
  cases Relation.ReflTransGen.cases_head r with
  | inl e => exact e ▸ hs
  | inr more =>
    obtain ⟨t', h', r'⟩ := more
    cases h.symm.trans h'
    exact ht u r'

/-- It holds here, and the machine goes no further. -/
lemma last (hs : P s) (h : ∀ t, step s ≠ .next t) : Always P step s := by
  intro u r
  cases Relation.ReflTransGen.cases_head r with
  | inl e => exact e ▸ hs
  | inr more =>
    obtain ⟨t, h', -⟩ := more
    exact absurd h' (h t)

end Always

section UpTo

variable (stop : σ → Prop) [DecidablePred stop]

/-- The machine that also halts where it is told to stop. -/
def upTo (step : σ → Outcome ε σ) (s : σ) : Outcome ε σ := if stop s then .halt else step s

variable {stop}

lemma upTo_of_not (h : ¬stop s) : upTo stop step s = step s := if_neg h

/-- A step of it is a step of the machine. -/
lemma step_of_upTo (h : upTo stop step s = .next t) : ¬stop s ∧ step s = .next t := by
  unfold upTo at h
  split at h
  · cases h
  · rename_i goes_on
    exact ⟨goes_on, h⟩

/-- What holds throughout every round, from one stop to the next, always holds: each round comes to
    a stop in a good state only, and good states begin the rounds after the first. -/
lemma Always.of_rounds {P good : σ → Prop}
    (round : ∀ s t, good s → step s = .next t →
      Always (fun u => P u ∧ (stop u → good u)) (upTo stop step) t)
    (first : Always (fun u => P u ∧ (stop u → good u)) (upTo stop step) s) : Always P step s := by
  intro u r
  -- Every state of the run lies in a round.
  have inv : ∃ t, Reaches (upTo stop step) t u ∧
      Always (fun u => P u ∧ (stop u → good u)) (upTo stop step) t := by
    induction r with
    | refl => exact ⟨s, .refl, first⟩
    | @tail v w _ e ih =>
      obtain ⟨t, r, always⟩ := ih
      by_cases stops : stop v
      · exact ⟨w, .refl, round v w ((always v r).2 stops) e⟩
      · exact ⟨t, r.trans (.one ((upTo_of_not stops).trans e)), always⟩
  obtain ⟨t, r, always⟩ := inv
  exact (always u r).1

/-- A run of it is a run of the machine. -/
lemma Reaches.of_upTo (h : Reaches (upTo stop step) s t) : Reaches step s t := by
  induction h with
  | refl => exact .refl
  | tail _ e ih => exact ih.trans (.one (step_of_upTo e).2)

/-- Where it fails, the machine does. -/
lemma fail_of_upTo {e : ε} (h : upTo stop step s = .fail e) : step s = .fail e := by
  unfold upTo at h
  split at h
  · cases h
  · exact h

/-- A failing run of it is one of the machine. -/
lemma Fails.of_upTo {e : ε} (h : Fails (upTo stop step) s e) : Fails step s e := by
  obtain ⟨t, r, f⟩ := h
  exact ⟨t, r.of_upTo, fail_of_upTo f⟩

/-- A diverging run of it is one of the machine. -/
lemma Diverges.of_upTo (d : Diverges (upTo stop step) s) : Diverges step s := by
  refine .of_invariant (fun t => Diverges (Lib.upTo stop step) t) (fun t dt => ?_) d
  obtain ⟨u, e⟩ := dt t .refl
  exact ⟨u, .head (step_of_upTo e).2 .refl, fun w r => dt w (.head e r)⟩

/-- A diverging run is never told to stop. -/
lemma Diverges.not_stop (d : Diverges (upTo stop step) s) (h : Reaches (upTo stop step) s t) :
    ¬stop t := by
  obtain ⟨u, e⟩ := d t h
  exact (step_of_upTo e).1

/-- Where both stop at the same states, the simulation remains. -/
lemma Simulates.upTo {f : σ → τ} {step' : τ → Outcome ε τ} (sim : Simulates f step step')
    {stop' : τ → Prop} [DecidablePred stop'] (same : ∀ s, stop' (f s) ↔ stop s) :
    Simulates f (upTo stop step) (upTo stop' step') := by
  constructor
  · intro s t h
    obtain ⟨goes_on, e⟩ := step_of_upTo h
    obtain ⟨s', e', hf⟩ := sim.next s t e
    exact ⟨s', by rw [upTo_of_not (mt (same s).mpr goes_on), e'], hf⟩
  · intro s h
    by_cases hs : stop s
    · exact if_pos hs
    · rw [upTo_of_not (mt (same s).mp hs)] at h
      rw [upTo_of_not hs, sim.halt s h]
  · intro s e h
    by_cases hs : stop s
    · rw [Lib.upTo, if_pos ((same s).mpr hs)] at h
      cases h
    · rw [upTo_of_not (mt (same s).mp hs)] at h
      rw [upTo_of_not hs, sim.fail s e h]

end UpTo

end MinCpuForth.Lib
