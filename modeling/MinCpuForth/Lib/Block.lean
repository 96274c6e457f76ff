import MinCpuForth.Lib.Machine

/-!
# Straight-line code

What a machine does that executes a block of instructions in order. Every instruction but the last
has to go on with the next; the last may jump.
-/

namespace MinCpuForth.Lib

universe u v w

/-- How a machine executes code that lies at its program counter. -/
structure Sequencer (ι : Type u) {ε : Type v} {σ : Type w} (step : σ → Outcome ε σ) where
  /-- Executes an instruction. -/
  run : ι → σ → Outcome ε σ
  /-- The machine goes on from the first state to the second with the next instruction. -/
  GoesOn : σ → σ → Prop
  decGoesOn : ∀ s t, Decidable (GoesOn s t)
  /-- The code lies at the program counter of the state. -/
  At : σ → List ι → Prop
  fetch : ∀ s i is, At s (i :: is) → step s = run i s
  tail : ∀ s t i is, At s (i :: is) → GoesOn s t → At t is

namespace Sequencer

variable {ι : Type u} {ε : Type v} {σ : Type w} {step : σ → Outcome ε σ} (q : Sequencer ι step)

instance (s t : σ) : Decidable (q.GoesOn s t) := q.decGoesOn s t

/-- Executes a block. -/
def block : List ι → σ → Outcome ε σ
  | [], s => .next s
  | i :: is, s =>
    match q.run i s with
    | .next t => if is.isEmpty then .next t else if q.GoesOn s t then block is t else .unknown
    | o => o

variable {s t : σ} {i : ι} {is : List ι}

/-- A nonempty block that continues is a nonempty run. -/
lemma progresses (at_s : q.At s (i :: is)) (h : q.block (i :: is) s = .next t) :
    Progresses step s t := by
  induction is generalizing i s with
  | nil =>
    have first := q.fetch s i [] at_s
    rw [block] at h
    cases e : q.run i s with
    | next u =>
      rw [e] at h first
      cases h
      exact .head first .refl
    | halt | unknown | fail => rw [e] at h; cases h
  | cons j is ih =>
    have first := q.fetch s i (j :: is) at_s
    rw [block] at h
    cases e : q.run i s with
    | next u =>
      rw [e] at h first
      dsimp only [List.isEmpty_cons] at h
      rw [if_neg (by decide)] at h
      split at h
      · rename_i on
        exact .head first (ih (q.tail s u i _ at_s on) h).reaches
      · cases h
    | halt | unknown | fail => rw [e] at h; cases h

/-- A block that continues is a run. -/
lemma reaches (at_s : q.At s is) (h : q.block is s = .next t) : Reaches step s t := by
  cases is with
  | nil =>
    cases h
    exact .refl
  | cons i is => exact (q.progresses at_s h).reaches

/-- A block that fails is a failing run. -/
lemma fails {e : ε} (at_s : q.At s is) (h : q.block is s = .fail e) : Fails step s e := by
  induction is generalizing s with
  | nil => cases h
  | cons i is ih =>
    have first := q.fetch s i is at_s
    rw [block] at h
    cases e' : q.run i s with
    | next u =>
      rw [e'] at h first
      dsimp only at h
      split at h
      · cases h
      · split at h
        · rename_i on
          exact Reaches.fails (.one first) (ih (q.tail s u i is at_s on) h)
        · cases h
    | halt | unknown => rw [e'] at h; cases h
    | fail err =>
      rw [e'] at h first
      cases h
      exact ⟨s, .refl, first⟩

/-- The states in which the instructions of a block are executed. -/
def visits : List ι → σ → List σ
  | [], _ => []
  | i :: is, s =>
    s :: match q.run i s with
      | .next t => visits is t
      | _ => []

/-- What holds wherever a block comes through, and always after it, always holds. -/
lemma always {P : σ → Prop} (at_s : q.At s is) (h : q.block is s = .next t)
    (through : ∀ u ∈ q.visits is s, P u) (after : Always P step t) : Always P step s := by
  induction is generalizing s with
  | nil =>
    cases h
    exact after
  | cons i is ih =>
    have first := q.fetch s i is at_s
    rw [block] at h
    rw [visits] at through
    cases e : q.run i s with
    | next u =>
      rw [e] at h first through
      refine .head (through s (.head _)) first ?_
      dsimp only at h
      split at h
      · cases h
        exact after
      · split at h
        · rename_i on
          exact ih (q.tail s u i is at_s on) h fun w mem => through w (.tail _ mem)
        · cases h
    | halt | unknown | fail => rw [e] at h; cases h

/-- What holds wherever a failing block comes through always holds. -/
lemma always_of_fail {P : σ → Prop} {err : ε} (at_s : q.At s is) (h : q.block is s = .fail err)
    (through : ∀ u ∈ q.visits is s, P u) : Always P step s := by
  induction is generalizing s with
  | nil => cases h
  | cons i is ih =>
    have first := q.fetch s i is at_s
    rw [block] at h
    rw [visits] at through
    cases e : q.run i s with
    | next u =>
      rw [e] at h first through
      refine .head (through s (.head _)) first ?_
      dsimp only at h
      split at h
      · cases h
      · split at h
        · rename_i on
          exact ih (q.tail s u i is at_s on) h fun w mem => through w (.tail _ mem)
        · cases h
    | halt | unknown => rw [e] at h; cases h
    | fail err' =>
      rw [e] at first
      exact .last (through s (.head _)) fun t e' => by cases first.symm.trans e'

/-- The same code on the machine that also halts at certain states, as long as it stays clear of
    these. -/
def upTo {stop : σ → Prop} [DecidablePred stop] (safe : σ → Prop) (avoids : ∀ s, safe s → ¬stop s)
    (keeps : ∀ s t, q.GoesOn s t → safe s → safe t) : Sequencer ι (Lib.upTo stop step) where
  run := q.run
  GoesOn := q.GoesOn
  decGoesOn := q.decGoesOn
  At s is := q.At s is ∧ safe s
  fetch s i is h := (upTo_of_not (avoids s h.2)).trans (q.fetch s i is h.1)
  tail s t i is h on := ⟨q.tail s t i is h.1 on, keeps s t on h.2⟩

/-- It executes blocks alike. -/
lemma upTo_block {stop : σ → Prop} [DecidablePred stop] {safe : σ → Prop}
    {avoids : ∀ s, safe s → ¬stop s} {keeps : ∀ s t, q.GoesOn s t → safe s → safe t}
    (is : List ι) (s : σ) : (q.upTo safe avoids keeps).block is s = q.block is s := by
  induction is generalizing s with
  | nil => rfl
  | cons i is ih =>
    rw [block, block]
    have e : (q.upTo safe avoids keeps).run i s = q.run i s := rfl
    rw [e]
    cases q.run i s with
    | next t =>
      dsimp only
      rw [ih]
      rfl
    | halt | unknown | fail => rfl

lemma upTo_visits {stop : σ → Prop} [DecidablePred stop] {safe : σ → Prop}
    {avoids : ∀ s, safe s → ¬stop s} {keeps : ∀ s t, q.GoesOn s t → safe s → safe t}
    (is : List ι) (s : σ) : (q.upTo safe avoids keeps).visits is s = q.visits is s := by
  induction is generalizing s with
  | nil => rfl
  | cons i is ih =>
    rw [visits, visits]
    have e : (q.upTo safe avoids keeps).run i s = q.run i s := rfl
    rw [e]
    cases q.run i s with
    | next t => exact congrArg (s :: ·) (ih t)
    | halt | unknown | fail => rfl

end Sequencer

end MinCpuForth.Lib
