import MinCpuForth.Lib.Action
import MinCpuForth.Lib.Loop

/-!
# Two actions side by side

Relational pre- and postconditions for actions on a state: from states that the precondition
relates, both actions return and the postcondition relates what they leave, or both raise the same
exception and a second postcondition relates the states that they leave. Where the first action
raises an exception on which it may be lost, nothing is said of the second.
-/

namespace MinCpuForth.Lib

variable {ε σ τ α α' β β' : Type}

/-- Two results that a postcondition relates, or the same exception. -/
inductive CoupledEnds (lost : ε → Prop) (raised : σ → τ → Prop) (post : α → β → σ → τ → Prop) :
    EStateM.Result ε σ α → EStateM.Result ε τ β → Prop where
  | ok {a b s t} (ends : post a b s t) : CoupledEnds lost raised post (.ok a s) (.ok b t)
  | error {e s t} (ends : raised s t) : CoupledEnds lost raised post (.error e s) (.error e t)
  | lost {e s r} (ends : lost e) : CoupledEnds lost raised post (.error e s) r

/-- From related states, the actions end alike. -/
def Coupled (lost : ε → Prop) (raised : σ → τ → Prop) (pre : σ → τ → Prop) (x : EStateM ε σ α)
    (y : EStateM ε τ β) (post : α → β → σ → τ → Prop) : Prop :=
  ∀ s t, pre s t → CoupledEnds lost raised post (x s) (y t)

/-- Equal values, and related states. -/
abbrev Equally (R : σ → τ → Prop) (a b : α) (s : σ) (t : τ) : Prop := a = b ∧ R s t

section Ends

variable {lost : ε → Prop} {raised : σ → τ → Prop} {post : α → β → σ → τ → Prop} {s s' : σ} {t : τ}
  {x : EStateM ε σ α} {y : EStateM ε τ β}

/-- Where the first returns, the second does. -/
lemma CoupledEnds.returns {a : α} (h : CoupledEnds lost raised post (x s) (y t))
    (run : x s = .ok a s') : ∃ b t', y t = .ok b t' ∧ post a b s' t' := by
  rw [run] at h
  generalize y t = r at h
  cases h with
  | ok ends => exact ⟨_, _, rfl, ends⟩

/-- Where the first raises, the second raises the same. -/
lemma CoupledEnds.raises {e : ε} (h : CoupledEnds lost raised post (x s) (y t))
    (run : x s = .error e s') (kept : ¬lost e) : ∃ t', y t = .error e t' ∧ raised s' t' := by
  rw [run] at h
  generalize y t = r at h
  cases h with
  | error ends => exact ⟨_, rfl, ends⟩
  | lost ends => exact absurd ends kept

end Ends

namespace Coupled

variable {lost : ε → Prop} {raised pre pre' : σ → τ → Prop} {post post' : α → β → σ → τ → Prop}
  {last : α' → β' → σ → τ → Prop} {x : EStateM ε σ α} {y : EStateM ε τ β}
  {f : α → EStateM ε σ α'} {g : β → EStateM ε τ β'}

lemma pure {a : α} {b : β} (h : ∀ s t, pre s t → post a b s t) :
    Coupled lost raised pre (Pure.pure a) (Pure.pure b) post := by
  intro s t related
  exact .ok (h s t related)

lemma throw {e : ε} (h : ∀ s t, pre s t → raised s t) :
    Coupled lost raised pre (throw e) (throw e) post := by
  intro s t related
  exact .error (h s t related)

/-- A stronger precondition, and a weaker postcondition. -/
lemma mono (h : Coupled lost raised pre x y post) (stronger : ∀ s t, pre' s t → pre s t)
    (weaker : ∀ a b s t, post a b s t → post' a b s t) : Coupled lost raised pre' x y post' := by
  intro s t related
  have ends := h s t (stronger s t related)
  generalize x s = r, y t = r' at ends ⊢
  cases ends with
  | ok ends => exact .ok (weaker _ _ _ _ ends)
  | error ends => exact .error ends
  | lost ends => exact .lost ends

/-- One action after the other. -/
lemma bind (h : Coupled lost raised pre x y post)
    (h' : ∀ a b, Coupled lost raised (post a b) (f a) (g b) last) :
    Coupled lost raised pre (x >>= f) (y >>= g) last := by
  intro s t related
  have ends := h s t related
  simp only [Bind.bind, EStateM.bind]
  generalize x s = r, y t = r' at ends ⊢
  cases ends with
  | ok ends => exact h' _ _ _ _ ends
  | error ends => exact .error ends
  | lost ends => exact .lost ends

/-- One action after the other, where the first two return the same. -/
lemma andThen {R : σ → τ → Prop} {y : EStateM ε τ α} {g : α → EStateM ε τ β'}
    (h : Coupled lost raised pre x y (Equally R))
    (h' : ∀ a, Coupled lost raised R (f a) (g a) last) :
    Coupled lost raised pre (x >>= f) (y >>= g) last := by
  refine h.bind fun a b s t ends => ?_
  obtain ⟨rfl, related⟩ := ends
  exact h' a s t related

section Loop

variable {R : σ → τ → Prop} {stop : σ → Bool} {stop' : τ → Bool} {body : EStateM ε σ Unit}
  {body' : EStateM ε τ Unit} {exceeded : ε}

/-- Loops that stop in the same states, with bodies that are coupled where the loops go on. -/
lemma untilStop (h : Coupled lost R (fun s t => R s t ∧ stop s = false) body body' (Equally R))
    (same : ∀ s t, R s t → stop s = stop' t) (n : ℕ) :
    Coupled lost R R (untilStop stop body exceeded n) (untilStop stop' body' exceeded n)
      (Equally R) := by
  induction n with
  | zero =>
    intro s t related
    cases here : stop s with
    | true =>
      rw [untilStop_stopped here, untilStop_stopped ((same s t related).symm.trans here)]
      exact .ok ⟨rfl, related⟩
    | false =>
      rw [untilStop_zero here, untilStop_zero ((same s t related).symm.trans here)]
      exact .error related
  | succ n ih =>
    intro s t related
    cases here : stop s with
    | true =>
      rw [untilStop_stopped here, untilStop_stopped ((same s t related).symm.trans here)]
      exact .ok ⟨rfl, related⟩
    | false =>
      rw [untilStop_succ here, untilStop_succ ((same s t related).symm.trans here)]
      exact h.andThen (fun _ => ih) s t ⟨related, here⟩

end Loop

end Coupled

end MinCpuForth.Lib
