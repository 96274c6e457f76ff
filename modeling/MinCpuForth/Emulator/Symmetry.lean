import MinCpuForth.Domain.Renaming
import MinCpuForth.Emulator.Run
import MinCpuForth.Lib.Coupling

/-!
# Two emulators side by side

Two emulators execute the same instruction, up to a renaming of the registers that it names. If what
the handlers are made of keeps a relation between the two, then so does the instruction, and what
matters is only how the relation fares when the instruction jumps or branches.
-/

namespace MinCpuForth.Emulator
open Python Domain Adapters Lib EmulatorService

/-- A relation between two emulators, kept by all that the handlers do except to `pc`, where the
    second emulator uses renamed registers for these names. -/
structure Symmetric (lost : PyError → Prop) (raised : EmulatorService → EmulatorService → Prop)
    (names : PyStr → Prop) (ρ : PyStr → PyStr) (R : EmulatorService → EmulatorService → Prop) :
    Prop where
  stopped : ∀ s t, R s t → raised s t
  read : ∀ r, names r → ∀ s t, R s t → t.registers (ρ r) = s.registers r
  write : ∀ r, names r → ∀ v,
    Coupled lost raised R (writeRegister r v) (writeRegister (ρ r) v) (Equally R)
  data : ∀ {α : Type} (op : EStateM PyError DataPath α),
    Coupled lost raised R (onData op) (onData op) (Equally R)
  input : Coupled lost raised R readInput readInput (Equally R)
  output : ∀ v, Coupled lost raised R (writeOutput v) (writeOutput v) (Equally R)
  halt : ∀ s t, R s t → R { s with halted := true } { t with halted := true }

namespace Symmetric

variable {lost : PyError → Prop} {names : PyStr → Prop} {ρ : PyStr → PyStr}
  {raised R Last : EmulatorService → EmulatorService → Prop} {i : InstructionDto}

/-- Reading a register. -/
lemma register (h : Symmetric lost raised names ρ R) {r : PyStr} (named : names r) :
    Coupled lost raised R (readRegister r) (readRegister (ρ r)) (Equally R) := by
  intro s t related
  exact .ok ⟨(h.read r named s t related).symm, related⟩

/-- Narrowing the `a` operand. -/
lemma a (h : Symmetric lost raised names ρ R) (named : ∀ r, i.Names r → names r) :
    Coupled lost raised R (requireA i) (requireA (i.rename ρ))
      fun r r' s t => (r' = ρ r ∧ names r) ∧ R s t := by
  obtain ⟨op, a, b, off⟩ := i
  cases a with
  | none => exact Coupled.throw h.stopped
  | some r =>
    apply Coupled.pure
    intro s t related
    exact ⟨⟨rfl, named r (.inl rfl)⟩, related⟩

/-- Narrowing the `b` operand. -/
lemma b (h : Symmetric lost raised names ρ R) (named : ∀ r, i.Names r → names r) :
    Coupled lost raised R (requireRegister i.b) (requireRegister (i.rename ρ).b)
      fun r r' s t => (r' = ρ r ∧ names r) ∧ R s t := by
  obtain ⟨op, a, b, off⟩ := i
  rcases b with _ | r | v
  · exact Coupled.throw h.stopped
  · apply Coupled.pure
    intro s t related
    exact ⟨⟨rfl, named r (.inr rfl)⟩, related⟩
  · exact Coupled.throw h.stopped

/-- The value of the `b` operand. -/
lemma operand (h : Symmetric lost raised names ρ R) (named : ∀ r, i.Names r → names r) :
    Coupled lost raised R (operandValue i.b) (operandValue (i.rename ρ).b) (Equally R) := by
  obtain ⟨op, a, b, off⟩ := i
  rcases b with _ | r | v
  · exact Coupled.throw h.stopped
  · exact h.register (named r (.inr rfl))
  · apply Coupled.pure
    intro s t related
    exact ⟨rfl, related⟩

/-- The branch offset. -/
lemma offset (h : Symmetric lost raised names ρ R) :
    Coupled lost raised R (requireOffset i.offset) (requireOffset (i.rename ρ).offset)
      (fun o o' s t => (o' = o ∧ i.offset = some o) ∧ R s t) := by
  obtain ⟨op, a, b, off⟩ := i
  cases off with
  | none => exact Coupled.throw h.stopped
  | some o =>
    apply Coupled.pure
    intro s t related
    exact ⟨⟨rfl, rfl⟩, related⟩

/-- After the `a` operand. -/
lemma withA {α : Type} {f g : PyStr → Action α} {post : α → α → _ → _ → Prop}
    (h : Symmetric lost raised names ρ R) (named : ∀ r, i.Names r → names r)
    (h' : ∀ r, names r → Coupled lost raised R (f r) (g (ρ r)) post) :
    Coupled lost raised R (requireA i >>= f) (requireA (i.rename ρ) >>= g) post := by
  refine (h.a named).bind fun r r' s t ends => ?_
  obtain ⟨⟨rfl, named⟩, related⟩ := ends
  exact h' r named s t related

/-- After the `b` operand. -/
lemma withB {α : Type} {f g : PyStr → Action α} {post : α → α → _ → _ → Prop}
    (h : Symmetric lost raised names ρ R) (named : ∀ r, i.Names r → names r)
    (h' : ∀ r, names r → Coupled lost raised R (f r) (g (ρ r)) post) :
    Coupled lost raised R (requireRegister i.b >>= f) (requireRegister (i.rename ρ).b >>= g)
      post := by
  refine (h.b named).bind fun r r' s t ends => ?_
  obtain ⟨⟨rfl, named⟩, related⟩ := ends
  exact h' r named s t related

section Handlers

variable (h : Symmetric lost raised names ρ R) (named : ∀ r, i.Names r → names r)
include h named

lemma exec_load : Coupled lost raised R (exec_load i) (exec_load (i.rename ρ)) (Equally R) := by
  apply h.withA named
  intro dst ok
  apply h.withB named
  intro addr ok'
  apply (h.register ok').andThen
  intro x
  apply (h.data _).andThen
  intro v
  exact h.write dst ok v

lemma exec_store : Coupled lost raised R (exec_store i) (exec_store (i.rename ρ)) (Equally R) := by
  apply h.withA named
  intro addr ok
  apply h.withB named
  intro value ok'
  apply (h.register ok).andThen
  intro x
  apply (h.register ok').andThen
  intro v
  exact h.data _

/-- The operations on two operands. -/
lemma exec_binary (op : ℤ → ℤ → ℤ) :
    Coupled lost raised R (exec_binary op i) (exec_binary op (i.rename ρ)) (Equally R) := by
  apply h.withA named
  intro dst ok
  apply (h.register ok).andThen
  intro x
  apply (h.operand named).andThen
  intro y
  exact h.write dst ok _

lemma exec_invert :
    Coupled lost raised R (exec_invert i) (exec_invert (i.rename ρ)) (Equally R) := by
  apply h.withA named
  intro dst ok
  apply (h.register ok).andThen
  intro x
  exact h.write dst ok _

/-- The pushes. -/
lemma exec_push (push : ℤ → EStateM PyError DataPath Unit) :
    Coupled lost raised R (do onData (push (← readRegister (← requireA i))))
      (do onData (push (← readRegister (← requireA (i.rename ρ))))) (Equally R) := by
  apply h.withA named
  intro r ok
  apply (h.register ok).andThen
  intro x
  exact h.data _

/-- The pops. -/
lemma exec_pop (pop : EStateM PyError DataPath ℤ) :
    Coupled lost raised R
      (do
        let dst ← requireA i
        writeRegister dst (← onData pop))
      (do
        let dst ← requireA (i.rename ρ)
        writeRegister dst (← onData pop)) (Equally R) := by
  apply h.withA named
  intro dst ok
  apply (h.data _).andThen
  intro v
  exact h.write dst ok v

lemma exec_in : Coupled lost raised R (exec_in i) (exec_in (i.rename ρ)) (Equally R) := by
  apply h.withA named
  intro dst ok
  apply h.input.andThen
  intro v
  exact h.write dst ok v

lemma exec_out : Coupled lost raised R (exec_out i) (exec_out (i.rename ρ)) (Equally R) := by
  apply h.withA named
  intro r ok
  apply (h.register ok).andThen
  intro x
  exact h.output x

lemma exec_jmp (jumps : ∀ v, Coupled lost raised R (jump v) (jump v) (Equally Last)) :
    Coupled lost raised R (exec_jmp i) (exec_jmp (i.rename ρ)) (Equally Last) := by
  apply h.withA named
  intro r ok
  apply (h.register ok).andThen
  intro v
  exact jumps v

/-- The branches. -/
lemma exec_branch (test : ℤ → Bool) (weaker : ∀ s t, R s t → Last s t)
    (branches : ∀ o, i.offset = some o →
      Coupled lost raised R (branch o) (branch o) (Equally Last)) :
    Coupled lost raised R (exec_branch test i) (exec_branch test (i.rename ρ)) (Equally Last) := by
  apply h.withA named
  intro r ok
  refine h.offset.bind fun o o' s t ends => ?_
  obtain ⟨⟨rfl, target⟩, related⟩ := ends
  refine (h.register ok).andThen (fun v => ?_) s t related
  cases test v with
  | true => exact branches _ target
  | false => exact Coupled.pure fun s t related => ⟨rfl, weaker s t related⟩

end Handlers

/-- Every instruction. -/
lemma execute (h : Symmetric lost raised names ρ R) (named : ∀ r, i.Names r → names r)
    (weaker : ∀ s t, R s t → Last s t)
    (jumps : i.opcode = .JMP → ∀ v, Coupled lost raised R (jump v) (jump v) (Equally Last))
    (branches : ∀ o, i.offset = some o →
      Coupled lost raised R (branch o) (branch o) (Equally Last)) :
    Coupled lost raised R (execute i) (execute (i.rename ρ)) (Equally Last) := by
  have weaken {x y : Action Unit} (kept : Coupled lost raised R x y (Equally R)) :
      Coupled lost raised R x y (Equally Last) :=
    kept.mono (fun _ _ related => related) fun _ _ s t ends => ⟨ends.1, weaker s t ends.2⟩
  obtain ⟨op, a, b, off⟩ := i
  cases op with
  | LOAD => exact weaken (h.exec_load named)
  | STORE => exact weaken (h.exec_store named)
  | ADD | SUB | AND | OR => exact weaken (h.exec_binary named _)
  | INVERT => exact weaken (h.exec_invert named)
  | JMP => exact h.exec_jmp named (jumps rfl)
  | JZ | JS => exact h.exec_branch named _ weaker branches
  | PUSH_D | PUSH_R => exact weaken (h.exec_push named _)
  | POP_D | POP_R => exact weaken (h.exec_pop named _)
  | IN => exact weaken (h.exec_in named)
  | OUT => exact weaken (h.exec_out named)
  | HALT =>
    intro s t related
    exact .ok ⟨rfl, weaker _ _ (h.halt s t related)⟩

end Symmetric

/-- Runs of emulators that take coupled steps and halt together. -/
lemma runLoop_coupled {lost : PyError → Prop} {R : EmulatorService → EmulatorService → Prop}
    (h : Coupled lost R (fun s t => R s t ∧ s.halted = false) step step (Equally R))
    (same : ∀ s t, R s t → s.halted = t.halted) (max_steps steps : ℤ) :
    Coupled lost R R (runLoop max_steps steps) (runLoop max_steps steps) (Equally R) := by
  rw [runLoop_eq]
  exact h.untilStop same _

end MinCpuForth.Emulator
