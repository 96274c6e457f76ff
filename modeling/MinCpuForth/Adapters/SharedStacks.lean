import MinCpuForth.Adapters.Stack
import MinCpuForth.Lib.BoundedStack
import Mathlib.Logic.Function.Basic

/-!
# Stacks that share a memory

A family of downward stacks bound to one memory, as `containers.py` wires the data stack and the
return stack. The abstract system is a family of bounded stacks that share nothing; the concrete
one refines it, whatever the order of the operations and of the other writes to the memory, as long
as the regions are disjoint and the other writes stay out of them.
-/

namespace MinCpuForth.Adapters.SharedStacks
open Python Domain Lib DownwardStackAdapter

variable {ι : Type} {base : ι → ℤ} {size : ι → ℕ} {n : ℕ}

/-- An operation on one of the stacks, or a direct write to the memory. -/
inductive Event (ι : Type) where
  | push (k : ι) (value : ℤ)
  | pop (k : ι)
  | peek (k : ι)
  | poke (address value : ℤ)

/-- What the caller sees of an event. -/
inductive Reply where
  | done
  | value (v : ℤ)
  | raised (e : PyError)
  deriving DecidableEq

/-- The stacks and the memory that they share. -/
structure Wired (base : ι → ℤ) (size : ι → ℕ) (n : ℕ) where
  memory : ListMemoryAdapter n
  stack : ∀ k, DownwardStackAdapter (base k) (size k)

/-- Freshly constructed stacks on a memory. -/
def wire (base : ι → ℤ) (size : ι → ℕ) (memory : ListMemoryAdapter n) : Wired base size n :=
  ⟨memory, fun k => init (base k) (size k)⟩

/-- The abstract system: a bounded stack for each index. -/
abbrev Spec (size : ι → ℕ) := ∀ k, BoundedStack ℤ (size k)

/-- Empty stacks. -/
def Spec.empty : Spec size := fun _ => BoundedStack.empty

/-- A direct write touches a cell of no stack. -/
def Outside (base : ι → ℤ) (size : ι → ℕ) (n : ℕ) : Event ι → Prop
  | .poke a _ => ∀ p, index? n a = some p → ∀ k, ¬(base k - size k ≤ p ∧ (p : ℤ) < base k)
  | _ => True

/-- The stack that an event operates on. -/
def Event.stack? : Event ι → Option ι
  | .push k _ | .pop k | .peek k => some k
  | .poke _ _ => none

/-- The regions of different stacks do not meet. -/
def DisjointRegions (base : ι → ℤ) (size : ι → ℕ) : Prop :=
  ∀ j k, j ≠ k → ∀ i, base j - size j ≤ i → i < base j → ¬(base k - size k ≤ i ∧ i < base k)

/-- Each stack holds the items of its abstract counterpart. -/
def Represents (w : Wired base size n) (a : Spec size) : Prop :=
  ∀ k, (w.stack k).contents w.memory = (a k).items

/-- The depth of a stack is the number of items of its counterpart. -/
lemma Represents.depth {w : Wired base size n} {a : Spec size} (rep : Represents w a) (k : ι) :
    (w.stack k).depth = (a k).items.length := by
  rw [← rep k, length_contents]

/-- Fresh stacks represent empty ones. -/
lemma represents_wire (m : ListMemoryAdapter n) : Represents (wire base size m) Spec.empty := by
  intro k
  simp [wire, Spec.empty]

variable [DecidableEq ι]

/-- Runs an operation on stack `k`. -/
def onStack (w : Wired base size n) (k : ι)
    (op : EStateM PyError (Bound (base k) (size k) n) Reply) : Reply × Wired base size n :=
  match op (w.stack k, w.memory) with
  | .ok r (s, m) => (r, ⟨m, Function.update w.stack k s⟩)
  | .error e (s, m) => (.raised e, ⟨m, Function.update w.stack k s⟩)

/-- One event. -/
def step (w : Wired base size n) : Event ι → Reply × Wired base size n
  | .push k v => onStack w k (do push v; return .done)
  | .pop k => onStack w k (return .value (← pop))
  | .peek k => onStack w k (return .value (← peek))
  | .poke a v =>
    match w.memory.write a v with
    | .ok m => (.done, { w with memory := m })
    | .error e => (.raised e, w)

/-- A sequence of events, with the replies in order. -/
def run (w : Wired base size n) : List (Event ι) → List Reply × Wired base size n
  | [] => ([], w)
  | e :: es =>
    let (r, w) := step w e
    let (rs, w) := run w es
    (r :: rs, w)

namespace Spec

/-- One event of the abstract system; `n` is the size of the memory that is poked. -/
def step (n : ℕ) (a : Spec size) : Event ι → Reply × Spec size
  | .push k v =>
    match (a k).push? v with
    | some s => (.done, Function.update a k s)
    | none => (.raised .stackOverflow, a)
  | .pop k =>
    match (a k).pop? with
    | some (v, s) => (.value v, Function.update a k s)
    | none => (.raised .stackUnderflow, a)
  | .peek k =>
    match (a k).peek? with
    | some v => (.value v, a)
    | none => (.raised .stackUnderflow, a)
  | .poke i _ => if (index? n i).isSome then (.done, a) else (.raised .indexError, a)

/-- A sequence of events of the abstract system. -/
def run (n : ℕ) (a : Spec size) : List (Event ι) → List Reply × Spec size
  | [] => ([], a)
  | e :: es =>
    let (r, a) := step n a e
    let (rs, a) := run n a es
    (r :: rs, a)

end Spec

/-- Replacing one stack by a new one, in a memory that differs inside its region only. -/
lemma Represents.update {w : Wired base size n} {a : Spec size} {k : ι}
    {s : DownwardStackAdapter (base k) (size k)} {m : ListMemoryAdapter n}
    {t : BoundedStack ℤ (size k)} (dj : DisjointRegions base size) (rep : Represents w a)
    (frame : ∀ i, ¬(base k - size k ≤ i ∧ i < base k) → m.cell i = w.memory.cell i)
    (e : s.contents m = t.items) :
    Represents ⟨m, Function.update w.stack k s⟩ (Function.update a k t) := by
  intro j
  by_cases h : j = k
  · subst h
    simpa using e
  · simp only [Function.update_of_ne h]
    rw [← rep j]
    exact contents_congr _ fun i lo hi => frame i (dj j k h i lo hi)

/-- What one event does, against the abstract event. -/
structure StepRefines (w : Wired base size n) (a : Spec size) (e : Event ι) : Prop where
  reply : (step w e).1 = (Spec.step n a e).1
  represents : Represents (step w e).2 (Spec.step n a e).2
  raised : ∀ err, (step w e).1 = .raised err → (step w e).2 = w
  frame : ∀ k, e.stack? = some k → ∀ i, ¬(base k - size k ≤ i ∧ i < base k) →
    (step w e).2.memory.cell i = w.memory.cell i

/-- A push refines the abstract push. -/
lemma push_refines {w : Wired base size n} {a : Spec size} {k : ι} {v : ℤ}
    (inside : DownwardStackAdapter.Inside (base k) (size k) n) (dj : DisjointRegions base size)
    (rep : Represents w a) : StepRefines w a (.push k v) := by
  have hd := rep.depth k
  by_cases full : (a k).items.length = size k
  · have ha : (a k).push? v = none := BoundedStack.push?_eq_none.mpr full
    have hw : step w (.push k v) = (.raised .stackOverflow, w) := by
      simp [step, onStack, bind, EStateM.bind, push_overflow (hd.trans full)]
    constructor
    · simp [hw, Spec.step, ha]
    · simpa [hw, Spec.step, ha] using rep
    · simp [hw]
    · simp [hw]
  · have room : (a k).items.length < size k := Nat.lt_of_le_of_ne (a k).length_le full
    have ha : (a k).push? v = some ⟨v :: (a k).items, room⟩ := by
      simp [BoundedStack.push?, room]
    obtain ⟨s, hp, hs⟩ := push_ok (v := v) (m := w.memory) inside (hd ▸ room)
    have hw : step w (.push k v) =
        (.done, ⟨w.memory.set ((w.stack k).pointer - 1) v, Function.update w.stack k s⟩) := by
      simp [step, onStack, bind, EStateM.bind, pure, EStateM.pure, hs]
    have lo := s.floor_le
    have hi := (w.stack k).le_base
    have frame : ∀ i, ¬(base k - size k ≤ i ∧ i < base k) →
        (w.memory.set ((w.stack k).pointer - 1) v).cell i = w.memory.cell i := by
      intro i out
      exact w.memory.cell_set_of_ne v (by omega)
    constructor
    · simp [hw, Spec.step, ha]
    · simp only [hw, Spec.step, ha]
      refine rep.update dj frame ?_
      rw [contents_push v inside hp, rep k]
    · simp [hw]
    · intro j e
      cases e
      simpa [hw] using frame

/-- A pop refines the abstract pop. -/
lemma pop_refines {w : Wired base size n} {a : Spec size} {k : ι}
    (inside : DownwardStackAdapter.Inside (base k) (size k) n) (dj : DisjointRegions base size)
    (rep : Represents w a) : StepRefines w a (.pop k) := by
  have hd := rep.depth k
  have hc := rep k
  cases items : (a k).items with
  | nil =>
    have ha : (a k).pop? = none := BoundedStack.pop?_eq_none.mpr items
    have hw : step w (.pop k) = (.raised .stackUnderflow, w) := by
      simp [step, onStack, bind, EStateM.bind, pop_underflow (hd.trans (by simp [items]))]
    constructor
    · simp [hw, Spec.step, ha]
    · simpa [hw, Spec.step, ha] using rep
    · simp [hw]
    · simp [hw]
  | cons v vs =>
    have pos : 0 < (w.stack k).depth := by simp [hd, items]
    obtain ⟨s, hp, hs⟩ := pop_ok (m := w.memory) inside pos
    rw [contents_pop w.memory hp, items] at hc
    obtain ⟨hv, hvs⟩ := List.cons.inj hc
    have hw : step w (.pop k) = (.value v, ⟨w.memory, Function.update w.stack k s⟩) := by
      simp [step, onStack, bind, EStateM.bind, pure, EStateM.pure, hs, hv]
    have ha : ∃ h, (a k).pop? = some (v, ⟨vs, h⟩) := by
      have le := (a k).length_le
      obtain ⟨t, ht⟩ : ∃ t, a k = t := ⟨_, rfl⟩
      rw [ht] at items le ⊢
      obtain ⟨its, h⟩ := t
      cases items
      exact ⟨Nat.le_of_succ_le h, rfl⟩
    obtain ⟨le, ha⟩ := ha
    constructor
    · simp [hw, Spec.step, ha]
    · simp only [hw, Spec.step, ha]
      exact rep.update dj (fun _ _ => rfl) hvs
    · simp [hw]
    · simp [hw]

/-- A peek refines the abstract peek. -/
lemma peek_refines {w : Wired base size n} {a : Spec size} {k : ι}
    (inside : DownwardStackAdapter.Inside (base k) (size k) n) (rep : Represents w a) :
    StepRefines w a (.peek k) := by
  have hd := rep.depth k
  have hc := rep k
  cases items : (a k).items with
  | nil =>
    have ha : (a k).peek? = none := BoundedStack.peek?_eq_none.mpr items
    have hw : step w (.peek k) = (.raised .stackUnderflow, w) := by
      simp [step, onStack, bind, EStateM.bind, peek_underflow (hd.trans (by simp [items]))]
    constructor
    · simp [hw, Spec.step, ha]
    · simpa [hw, Spec.step, ha] using rep
    · simp [hw]
    · simp [hw]
  | cons v vs =>
    have pos : 0 < (w.stack k).depth := by simp [hd, items]
    obtain ⟨s, hp, -⟩ := pop_ok (m := w.memory) inside pos
    rw [contents_pop w.memory hp, items] at hc
    obtain ⟨hv, -⟩ := List.cons.inj hc
    have ha : (a k).peek? = some v := by simp [BoundedStack.peek?, items]
    have hw : step w (.peek k) = (.value v, w) := by
      simp [step, onStack, bind, EStateM.bind, pure, EStateM.pure, peek_ok inside pos, hv]
    constructor
    · simp [hw, Spec.step, ha]
    · simpa [hw, Spec.step, ha] using rep
    · simp [hw]
    · simp [hw]

/-- A direct write outside the regions refines the abstract one. -/
lemma poke_refines {w : Wired base size n} {a : Spec size} {i v : ℤ}
    (out : Outside base size n (.poke i v)) (rep : Represents w a) :
    StepRefines w a (.poke i v) := by
  rcases ListMemoryAdapter.write_cases (m := w.memory) (a := i) (v := v) with
    ⟨e, hm⟩ | ⟨p, e, hm⟩
  · have hw : step w (.poke i v) = (.raised .indexError, w) := by simp [step, hm]
    constructor
    · simp [hw, Spec.step, e]
    · simpa [hw, Spec.step, e] using rep
    · simp [hw]
    · simp [Event.stack?]
  · have hw : step w (.poke i v) = (.done, { w with memory := w.memory.set p v }) := by
      simp [step, hm]
    constructor
    · simp [hw, Spec.step, e]
    · simp only [hw, Spec.step, e, Option.isSome_some, if_true]
      intro k
      rw [← rep k]
      refine contents_congr _ fun j lo hi => w.memory.cell_set_of_ne v ?_
      rintro rfl
      exact out p e k ⟨lo, hi⟩
    · simp [hw]
    · simp [Event.stack?]

/-- Every event refines its abstract counterpart. -/
lemma step_refines {w : Wired base size n} {a : Spec size} {e : Event ι}
    (inside : ∀ k, DownwardStackAdapter.Inside (base k) (size k) n) (dj : DisjointRegions base size)
    (out : Outside base size n e) (rep : Represents w a) : StepRefines w a e := by
  cases e with
  | push k v => exact push_refines (inside k) dj rep
  | pop k => exact pop_refines (inside k) dj rep
  | peek k => exact peek_refines (inside k) rep
  | poke i v => exact poke_refines out rep

/-- Every sequence of events refines its abstract counterpart. -/
lemma run_refines {w : Wired base size n} {a : Spec size} {es : List (Event ι)}
    (inside : ∀ k, DownwardStackAdapter.Inside (base k) (size k) n) (dj : DisjointRegions base size)
    (out : ∀ e ∈ es, Outside base size n e) (rep : Represents w a) :
    (run w es).1 = (Spec.run n a es).1 ∧ Represents (run w es).2 (Spec.run n a es).2 := by
  induction es generalizing w a with
  | nil => exact ⟨rfl, rep⟩
  | cons e es ih =>
    obtain ⟨oute, outes⟩ := List.forall_mem_cons.mp out
    have st := step_refines inside dj oute rep
    obtain ⟨hr, hrep⟩ := ih outes st.represents
    refine ⟨?_, hrep⟩
    simp only [run, Spec.run, st.reply, hr]

/-- Stacks on one memory, with disjoint regions inside it, behave as independent bounded stacks.
    After any sequence of operations and of direct writes outside the regions, the replies so far
    are those of the abstract system; each pointer is its base minus the number of values held; the
    next pop or peek raises exactly on an empty stack and the next push exactly on a full one; a
    raising event changes nothing; and an operation touches no cell outside its own region. -/
theorem shared_stacks_refine (m : ListMemoryAdapter n) (es : List (Event ι))
    (inside : ∀ k, DownwardStackAdapter.Inside (base k) (size k) n) (dj : DisjointRegions base size)
    (out : ∀ e ∈ es, Outside base size n e) :
    let w := (run (wire base size m) es).2
    let a : Spec size := (Spec.run n Spec.empty es).2
    (run (wire base size m) es).1 = (Spec.run n (Spec.empty : Spec size) es).1 ∧
      Represents w a ∧
      (∀ k, (w.stack k).pointer = base k - (a k).items.length) ∧
      (∀ k, (∃ err, (step w (.pop k)).1 = .raised err ∧ err.isStackError) ↔ (a k).items = []) ∧
      (∀ k, (∃ err, (step w (.peek k)).1 = .raised err ∧ err.isStackError) ↔ (a k).items = []) ∧
      (∀ k v, (∃ err, (step w (.push k v)).1 = .raised err ∧ err.isStackError) ↔
        (a k).items.length = size k) ∧
      ∀ e, Outside base size n e → StepRefines w a e := by
  intro w a
  obtain ⟨hr, rep⟩ := run_refines inside dj out (represents_wire m)
  have st : ∀ e, Outside base size n e → StepRefines w a e :=
    fun e oute => step_refines inside dj oute rep
  refine ⟨hr, rep, ?_, ?_, ?_, ?_, st⟩
  · intro k
    rw [(w.stack k).pointer_eq, Represents.depth rep k]
  · intro k
    rw [(st (.pop k) trivial).reply, ← BoundedStack.pop?_eq_none, Spec.step]
    cases (a k).pop? with
    | none => simp [PyError.isStackError]
    | some p => simp
  · intro k
    rw [(st (.peek k) trivial).reply, ← BoundedStack.peek?_eq_none, Spec.step]
    cases (a k).peek? with
    | none => simp [PyError.isStackError]
    | some v => simp
  · intro k v
    rw [(st (.push k v) trivial).reply, ← BoundedStack.push?_eq_none (v := v), Spec.step]
    cases (a k).push? v with
    | none => simp [PyError.isStackError]
    | some s => simp

/-- The two stacks of the machine, with a few operations that interleave. -/
theorem shared_stacks_refine_machine :
    let base : Bool → ℤ := fun k => if k then 4096 else 3072
    let size : Bool → ℕ := fun _ => 1024
    let es : List (Event Bool) := [.push true 7, .push false 1, .poke 2047 5, .pop true]
    (run (wire base size (ListMemoryAdapter.zeroed 4096)) es).1 =
      (Spec.run 4096 (Spec.empty : Spec size) es).1 :=
  (shared_stacks_refine (.zeroed 4096) _
    (by intro k i lo hi; cases k <;> simp at lo hi <;> omega)
    (by intro j k ne i lo hi; cases j <;> cases k <;> simp at ne lo hi ⊢ <;> omega)
    (by
      simp only [List.forall_mem_cons, Outside, true_and, List.not_mem_nil, false_imp_iff,
        implies_true, and_true]
      intro p hp k
      rcases index?_eq_some.mp hp with h | h <;> cases k <;> simp <;> omega)).1

end MinCpuForth.Adapters.SharedStacks
