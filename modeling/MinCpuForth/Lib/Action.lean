import Mathlib.Init

/-!
# Actions on a state

How a sequence of actions runs, when each may raise an exception and an exception keeps the state
reached so far.
-/

namespace MinCpuForth.Lib

universe u

variable {ε σ α β : Type u} {x : EStateM ε σ α} {f : α → EStateM ε σ β} {s s' : σ}

/-- After an action that returns, the rest runs. -/
lemma bind_ok {a : α} (h : x s = .ok a s') : (x >>= f) s = f a s' := by
  simp only [bind, EStateM.bind, h]

/-- After an action that raises, nothing runs. -/
lemma bind_error {e : ε} (h : x s = .error e s') : (x >>= f) s = .error e s' := by
  simp only [bind, EStateM.bind, h]

@[simp] lemma pure_run {a : α} : (pure a : EStateM ε σ α) s = .ok a s := rfl

@[simp] lemma throw_run {e : ε} : (throw e : EStateM ε σ α) s = .error e s := rfl

/-- A sequence that returns ran its first action, and then the rest. -/
lemma bind_eq_ok {b : β} : (x >>= f) s = .ok b s' ↔ ∃ a t, x s = .ok a t ∧ f a t = .ok b s' := by
  simp only [bind, EStateM.bind]
  cases x s with
  | ok a t =>
    refine ⟨fun e => ⟨a, t, rfl, e⟩, ?_⟩
    rintro ⟨_, _, e, e'⟩
    cases e
    exact e'
  | error e t => simp

/-- A sequence that raises did so in its first action or in the rest. -/
lemma bind_eq_error {e : ε} : (x >>= f) s = .error e s' ↔
    x s = .error e s' ∨ ∃ a t, x s = .ok a t ∧ f a t = .error e s' := by
  simp only [bind, EStateM.bind]
  cases x s with
  | ok a t =>
    refine ⟨fun e => .inr ⟨a, t, rfl, e⟩, ?_⟩
    rintro (e | ⟨_, _, e, e'⟩)
    · cases e
    · cases e
      exact e'
  | error e t => simp

/-- Every exception of the action is one of those allowed. -/
def RaisesOnly (allowed : ε → Prop) (x : EStateM ε σ α) : Prop :=
  ∀ s e s', x s = .error e s' → allowed e

namespace RaisesOnly

variable {allowed : ε → Prop}

lemma pure (a : α) : RaisesOnly allowed (Pure.pure a : EStateM ε σ α) := by
  intro s e s' h
  cases h

lemma throw {e : ε} (ok : allowed e) : RaisesOnly allowed (throw e : EStateM ε σ α) := by
  intro s e s' h
  cases h
  exact ok

lemma bind (h : RaisesOnly allowed x) (h' : ∀ a, RaisesOnly allowed (f a)) :
    RaisesOnly allowed (x >>= f) := by
  intro s e s' run
  rcases bind_eq_error.mp run with run | ⟨a, t, -, run⟩
  · exact h s e s' run
  · exact h' a t e s' run

end RaisesOnly

/-- The action, when it returns, leaves the property as it was. -/
def Preserves (p : σ → Prop) (x : EStateM ε σ α) : Prop :=
  ∀ s a s', p s → x s = .ok a s' → p s'

namespace Preserves

variable {p : σ → Prop}

lemma pure (a : α) : Preserves p (Pure.pure a : EStateM ε σ α) := by
  intro s b s' h run
  cases run
  exact h

lemma throw (e : ε) : Preserves p (throw e : EStateM ε σ α) := by
  intro s a s' h run
  cases run

lemma bind (h : Preserves p x) (h' : ∀ a, Preserves p (f a)) : Preserves p (x >>= f) := by
  intro s b s' hs run
  obtain ⟨a, t, run, run'⟩ := bind_eq_ok.mp run
  exact h' a t b s' (h s a t hs run) run'

end Preserves

/-- The action only reads, and it answers the same in both states. -/
inductive SameReply (x : EStateM ε σ α) (s s' : σ) : Prop where
  | ok (a : α) (run : x s = .ok a s) (run' : x s' = .ok a s')
  | error (e : ε) (run : x s = .error e s) (run' : x s' = .error e s')

namespace SameReply

lemma pure (a : α) : SameReply (Pure.pure a : EStateM ε σ α) s s' := .ok a rfl rfl

lemma throw (e : ε) : SameReply (throw e : EStateM ε σ α) s s' := .error e rfl rfl

lemma bind (h : SameReply x s s') (h' : ∀ a, x s = .ok a s → SameReply (f a) s s') :
    SameReply (x >>= f) s s' := by
  cases h with
  | error e run run' => exact .error e (bind_error run) (bind_error run')
  | ok a run run' =>
    cases h' a run with
    | ok b rest rest' => exact .ok b ((bind_ok run).trans rest) ((bind_ok run').trans rest')
    | error e rest rest' => exact .error e ((bind_ok run).trans rest) ((bind_ok run').trans rest')

end SameReply

end MinCpuForth.Lib
