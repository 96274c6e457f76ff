import MinCpuForth.Forth.Accesses
import MinCpuForth.Forth.Runs

/-!
# What a failing word leaves

Nothing is put back when a word fails. A primitive that runs out of operands has lost those that it
popped, and a colon word keeps whatever the words before the failing one have done.
-/

namespace MinCpuForth.Forth
open Python Domain Adapters DataPath Lib ForthService

/-- What a failing call of a primitive leaves of the contents. -/
def spent (c : Contents) : Primitive → Contents
  | .SWAP | .ROT | .NEG_ROT | .NIP | .STORE => { c with ds := [] }
  | .ADD | .SUB | .MUL | .DIV | .MOD | .EQ | .NE | .LT | .GT | .AND | .OR => { c with ds := [] }
  | .OVER => if 2 ≤ c.ds.length then c else { c with ds := [] }
  | .TUCK =>
    match c.ds with
    | a :: b :: ds => { c with ds := b :: a :: ds }
    | _ => { c with ds := [] }
  | .TO_R => { c with ds := c.ds.tail }
  | .R_FROM => { c with rs := c.rs.tail }
  | _ => c

/-- The calls that another exception than a `MachineError` can come out of. -/
def Escapes (p : DataPath) : Primitive → Prop
  | .LIT | .DOCOL => True
  | .DIV | .MOD => ∃ a ds, p.contents.ds = 0 :: a :: ds
  | .FETCH => ∃ a ds, p.contents.ds = a :: ds ∧ cellOf a = none
  | .STORE => ∃ a v ds, p.contents.ds = a :: v :: ds ∧ cellOf a = none
  | _ => False

/-- A failing call of the primitive on `p` leaves `q`: the contents are spent, the cells of the
    memory are as they were, but for the two that `TUCK` has written again. -/
structure Spends (prim : Primitive) (p q : DataPath) : Prop where
  contents : q.contents = spent p.contents prim
  cells : ∀ i, q.memory.cell i = p.memory.cell i ∨
    prim = .TUCK ∧ (i = p.data_stack.pointer ∨ i = p.data_stack.pointer + 1)
  unchanged : q = p ↔ spent p.contents prim = p.contents

section Steps

variable {p q : DataPath} {e : PyError} {v : ℤ} {α : Type}

/-- The memory is not written, and the depths tell the pointers. -/
lemma same_of_memory (memory : q.memory = p.memory) (contents : q.contents = p.contents) :
    q = p := by
  have data := p.length_ds
  have data' := q.length_ds
  have return_stack := p.length_rs
  have return_stack' := q.length_rs
  have place := p.data_stack.pointer_eq
  have place' := q.data_stack.pointer_eq
  have place_rs := p.return_stack.pointer_eq
  have place_rs' := q.return_stack.pointer_eq
  rw [contents] at data' return_stack'
  exact ext_cells (congrArg _ memory) (by omega) (by omega)

/-- A failing call that writes nothing. -/
lemma Spends.of_memory {prim : Primitive} (memory : q.memory = p.memory)
    (contents : q.contents = spent p.contents prim) : Spends prim p q where
  contents := contents
  cells i := .inl (congrFun (congrArg _ memory) i)
  unchanged := by
    constructor
    · rintro rfl
      exact contents.symm
    · intro same
      exact same_of_memory memory (contents.trans same)

/-- A value that is popped. -/
structure Popped (v : ℤ) (p q : DataPath) : Prop where
  contents : p.contents = { q.contents with ds := v :: q.contents.ds }
  memory : q.memory = p.memory
  pointer : q.data_stack.pointer = p.data_stack.pointer + 1
  back : pushData v q = .ok () p

/-- A value that is pushed. -/
structure Pushed (v : ℤ) (p q : DataPath) : Prop where
  contents : q.contents = { p.contents with ds := v :: p.contents.ds }
  pointer : q.data_stack.pointer = p.data_stack.pointer - 1
  cells : ∀ i, i ≠ q.data_stack.pointer → q.memory.cell i = p.memory.cell i

lemma popped_of_ok (h : popData p = .ok v q) : Popped v p q := by
  have contents := popData_contents h
  by_cases pos : p.data_stack.pointer < Layout.DATA_STACK_BASE
  · obtain ⟨s, at_s, run⟩ := p.popData_cells.1 pos
    rcases p.popData_cases with ⟨a, q', pop, -, -, back⟩ | ⟨-, pop⟩
    · cases h.symm.trans pop
      cases h.symm.trans run
      exact ⟨contents, rfl, at_s, back⟩
    · cases h.symm.trans pop
  · cases h.symm.trans (p.popData_cells.2 pos)

lemma pushed_of_ok (h : pushData v p = .ok () q) : Pushed v p q := by
  have contents := pushData_contents h
  by_cases room : Layout.DICTIONARY_TOP < p.data_stack.pointer
  · obtain ⟨s, at_s, run⟩ := (p.pushData_cells v).1 room
    cases h.symm.trans run
    refine ⟨contents, at_s, fun i other => ?_⟩
    rw [at_s] at other
    exact p.memory.cell_set_of_ne v other
  · cases h.symm.trans ((p.pushData_cells v).2 room)

/-- A pop that fails, or what fails after it. -/
lemma pop_error {rest : ℤ → EStateM PyError DataPath α} (h : (popData >>= rest) p = .error e q) :
    (e = .stackUnderflow ∧ p.contents.ds = [] ∧ q = p) ∨
      ∃ a p₁, Popped a p p₁ ∧ rest a p₁ = .error e q := by
  rcases p.popData_cases with ⟨a, p₁, pop, -⟩ | ⟨none, pop⟩
  · rw [bind_ok pop] at h
    exact .inr ⟨a, p₁, popped_of_ok pop, h⟩
  · cases (bind_error pop).symm.trans h
    exact .inl ⟨rfl, none, rfl⟩

/-- A push fails on a full stack only. -/
lemma push_error (h : pushData v p = .error e q) :
    e = .stackOverflow ∧ p.contents.ds.length = 1024 ∧ q = p := by
  rcases p.pushData_cases v with ⟨-, p₁, push, -⟩ | ⟨full, push⟩
  · cases push.symm.trans h
  · cases push.symm.trans h
    exact ⟨rfl, full, rfl⟩

/-- What fails after a push that there is room for. -/
lemma pushed_error {rest : Unit → EStateM PyError DataPath α}
    (h : (pushData v >>= rest) p = .error e q) (room : p.contents.ds.length < 1024) :
    ∃ p₁, pushData v p = .ok () p₁ ∧ Pushed v p p₁ ∧ rest () p₁ = .error e q := by
  rcases bind_eq_error.mp h with push | ⟨_, p₁, push, failed⟩
  · obtain ⟨-, full, -⟩ := push_error push
    omega
  · exact ⟨p₁, push, pushed_of_ok push, failed⟩

lemma Popped.ds (h : Popped v p q) : p.contents.ds = v :: q.contents.ds :=
  congrArg Contents.ds h.contents

lemma Popped.length (h : Popped v p q) : p.contents.ds.length = q.contents.ds.length + 1 :=
  congrArg List.length h.ds

lemma Pushed.length (h : Pushed v p q) : q.contents.ds.length = p.contents.ds.length + 1 :=
  congrArg (fun c => c.ds.length) h.contents

/-- Two pops, of which one fails, or what fails after them. -/
lemma two_pops_error {rest : ℤ → ℤ → EStateM PyError DataPath α}
    (h : (popData >>= fun a => popData >>= fun b => rest a b) p = .error e q) :
    (e = .stackUnderflow ∧ p.contents.ds.length < 2 ∧ q.memory = p.memory ∧
      q.contents = { p.contents with ds := [] }) ∨
    ∃ a b p₁ p₂, Popped a p p₁ ∧ Popped b p₁ p₂ ∧ rest a b p₂ = .error e q := by
  rcases pop_error h with ⟨rfl, none, rfl⟩ | ⟨a, p₁, popped, h⟩
  · refine .inl ⟨rfl, ?_, rfl, ?_⟩
    · rw [none]
      exact Nat.zero_lt_two
    · rw [← none]
  · rcases pop_error h with ⟨rfl, none, rfl⟩ | ⟨b, p₂, popped', h⟩
    · have one := popped.length
      rw [none] at one
      refine .inl ⟨rfl, ?_, popped.memory, ?_⟩
      · rw [one]
        exact Nat.one_lt_two
      · rw [popped.contents, ← none]
    · exact .inr ⟨a, b, p₁, p₂, popped, popped', h⟩

end Steps

/-! ## Primitives -/

section Primitives

variable {p q : DataPath} {e : PyError} {prim : Primitive}

/-- Emptying an empty stack. -/
lemma emptied {c : Contents} (none : c.ds = []) : { c with ds := [] } = c :=
  Contents.ext none.symm rfl rfl

/-- A word that takes two operands, and whose rest does not fail. -/
lemma two_operands {rest : ℤ → ℤ → EStateM PyError DataPath Unit}
    (h : (popData >>= fun a => popData >>= fun b => rest a b) p = .error e q)
    (safe : ∀ a b p₁, p.contents.ds = a :: b :: p₁.contents.ds →
      p₁.contents.ds.length + 2 ≤ 1024 → rest a b p₁ ≠ .error e q)
    (left : spent p.contents prim = { p.contents with ds := [] }) :
    e.isMachineError ∧ Spends prim p q := by
  rcases two_pops_error h with ⟨rfl, -, memory, contents⟩ | ⟨a, b, p₁, p₂, popped, popped', h⟩
  · exact ⟨rfl, .of_memory memory (contents.trans left.symm)⟩
  · have size := p.contents_le.1
    rw [popped.length, popped'.length] at size
    have shape : p.contents.ds = a :: b :: p₂.contents.ds := by rw [popped.ds, popped'.ds]
    exact absurd h (safe a b p₂ shape size)

lemma binop_error {func : ℤ → ℤ → Except PyError ℤ} (h : binop func p = .error e q)
    (total : ∀ b a ds, p.contents.ds = b :: a :: ds → ∃ v, func a b = .ok v)
    (left : spent p.contents prim = { p.contents with ds := [] }) :
    e.isMachineError ∧ Spends prim p q := by
  refine two_operands h ?_ left
  intro b a p₁ shape size failed
  obtain ⟨v, value⟩ := total b a _ shape
  rw [value] at failed
  obtain ⟨-, full, -⟩ := push_error failed
  omega

lemma unop_error {func : ℤ → ℤ} (h : unop func p = .error e q)
    (left : spent p.contents prim = p.contents) : e.isMachineError ∧ Spends prim p q := by
  rcases pop_error h with ⟨rfl, none, rfl⟩ | ⟨a, p₁, popped, failed⟩
  · exact ⟨rfl, .of_memory rfl left.symm⟩
  · have size := p.contents_le.1
    rw [popped.length] at size
    obtain ⟨-, full, -⟩ := push_error failed
    omega

lemma swap_error (h : swap p = .error e q) : e.isMachineError ∧ Spends .SWAP p q := by
  refine two_operands h ?_ rfl
  intro a b p₁ _ size failed
  obtain ⟨p₂, -, pushed, failed⟩ := pushed_error failed (by omega)
  have grown := pushed.length
  obtain ⟨-, full, -⟩ := push_error failed
  omega

lemma nip_error (h : nip p = .error e q) : e.isMachineError ∧ Spends .NIP p q := by
  refine two_operands h ?_ rfl
  intro a b p₁ _ size failed
  obtain ⟨-, full, -⟩ := push_error failed
  omega

/-- `TUCK` has put its operands back, in the other order, when it finds the stack full. -/
lemma tuck_error (h : tuck p = .error e q) : e.isMachineError ∧ Spends .TUCK p q := by
  rcases two_pops_error h with ⟨rfl, few, memory, contents⟩ | ⟨a, b, p₁, p₂, popped, popped', h⟩
  · refine ⟨rfl, .of_memory memory (contents.trans ?_)⟩
    rcases shape : p.contents.ds with _ | ⟨a, _ | ⟨b, ds⟩⟩
    · simp only [spent, shape]
    · simp only [spent, shape]
    · rw [shape, List.length_cons, List.length_cons] at few
      omega
  · have size := p.contents_le.1
    have depth := popped.length
    have depth' := popped'.length
    obtain ⟨p₃, push, pushed, h⟩ := pushed_error h (by omega)
    have depth₃ := pushed.length
    obtain ⟨p₄, push', pushed', h⟩ := pushed_error h (by omega)
    obtain ⟨rfl, -, rfl⟩ := push_error h
    have shape : p.contents.ds = a :: b :: p₂.contents.ds := by rw [popped.ds, popped'.ds]
    have left : spent p.contents .TUCK = { p.contents with ds := b :: a :: p₂.contents.ds } := by
      simp only [spent, shape]
    have contents : q.contents = { p.contents with ds := b :: a :: p₂.contents.ds } := by
      rw [pushed'.contents, pushed.contents, popped.contents, popped'.contents]
    refine ⟨rfl, contents.trans left.symm, fun i => ?_, ?_, ?_⟩
    · by_cases written : i = p.data_stack.pointer ∨ i = p.data_stack.pointer + 1
      · exact .inr ⟨rfl, written⟩
      · have at₁ := popped.pointer
        have at₂ := popped'.pointer
        have at₃ := pushed.pointer
        have at₄ := pushed'.pointer
        rw [pushed'.cells i (by omega), pushed.cells i (by omega), popped'.memory, popped.memory]
        exact .inl rfl
    · rintro rfl
      exact left.trans contents.symm
    · intro same
      -- The two operands are equal, so that pushing them undoes the pops.
      have equal := congrArg Contents.ds (left.symm.trans same)
      rw [shape] at equal
      obtain ⟨rfl, -⟩ := List.cons.inj equal
      cases push.symm.trans popped'.back
      cases push'.symm.trans popped.back
      rfl

/-- `OVER` has put its operands back when it finds the stack full. -/
lemma over_error (h : «over» p = .error e q) : e.isMachineError ∧ Spends .OVER p q := by
  rcases pop_error h with ⟨rfl, none, rfl⟩ | ⟨b, p₁, popped, h⟩
  · have few : ¬2 ≤ q.contents.ds.length := by
      rw [none]
      exact Nat.not_succ_le_zero 1
    exact ⟨rfl, .of_memory rfl ((if_neg few).trans (emptied none)).symm⟩
  · rcases p₁.peekData_cases with ⟨a, ds, shape, peek⟩ | ⟨none, peek⟩
    · rw [bind_ok peek, bind_ok popped.back] at h
      obtain ⟨rfl, full, rfl⟩ := push_error h
      have two : 2 ≤ q.contents.ds.length := by omega
      exact ⟨rfl, .of_memory rfl (if_pos two).symm⟩
    · cases (bind_error peek).symm.trans h
      have few : ¬2 ≤ p.contents.ds.length := by
        rw [popped.length, none]
        exact Nat.lt_irrefl 1
      refine ⟨rfl, .of_memory popped.memory ?_⟩
      simp only [spent, if_neg few]
      rw [popped.contents, ← none]

/-- The words that turn three operands. -/
lemma turn_error {rest : ℤ → ℤ → ℤ → EStateM PyError DataPath Unit}
    (turns : ∀ c b a, ∃ x y z, rest c b a = do pushData x; pushData y; pushData z)
    (h : (popData >>= fun c => popData >>= fun b => popData >>= fun a => rest c b a) p = .error e q)
    (left : spent p.contents prim = { p.contents with ds := [] }) :
    e.isMachineError ∧ Spends prim p q := by
  rcases two_pops_error h with ⟨rfl, -, memory, contents⟩ | ⟨c, b, p₁, p₂, popped, popped', h⟩
  · exact ⟨rfl, .of_memory memory (contents.trans left.symm)⟩
  · rcases pop_error h with ⟨rfl, none, rfl⟩ | ⟨a, p₃, popped₃, h⟩
    · refine ⟨rfl, .of_memory (popped'.memory.trans popped.memory) ?_⟩
      rw [left, popped.contents, popped'.contents, ← none]
    · have size := p.contents_le.1
      have depth := popped.length
      have depth' := popped'.length
      have depth₃ := popped₃.length
      obtain ⟨x, y, z, turned⟩ := turns c b a
      rw [turned] at h
      obtain ⟨p₄, -, pushed, h⟩ := pushed_error h (by omega)
      have grown := pushed.length
      obtain ⟨p₅, -, pushed', h⟩ := pushed_error h (by omega)
      have grown' := pushed'.length
      obtain ⟨-, full, -⟩ := push_error h
      omega

lemma fetch_error (h : fetch p = .error e q) (inside : ¬Escapes p .FETCH) :
    e.isMachineError ∧ Spends .FETCH p q := by
  rcases pop_error h with ⟨rfl, none, rfl⟩ | ⟨a, p₁, popped, h⟩
  · exact ⟨rfl, .of_memory rfl rfl⟩
  · have size := p.contents_le.1
    rw [popped.length] at size
    have read := p₁.read_cellOf (a := a)
    cases denotes : cellOf a with
    | none => exact absurd ⟨a, _, popped.ds, denotes⟩ inside
    | some i =>
      rw [denotes] at read
      rw [bind_ok read] at h
      obtain ⟨-, full, -⟩ := push_error h
      omega

lemma store_error (h : store p = .error e q) (inside : ¬Escapes p .STORE) :
    e.isMachineError ∧ Spends .STORE p q := by
  refine two_operands h ?_ rfl
  intro a v p₁ shape _ failed
  have write := p₁.write_cellOf v (a := a)
  cases denotes : cellOf a with
  | none => exact inside ⟨a, v, _, shape, denotes⟩
  | some i =>
    rw [denotes] at write
    cases write.symm.trans failed

lemma to_r_error (h : (do pushReturn (← popData)) p = .error e q) :
    e.isMachineError ∧ Spends .TO_R p q := by
  rcases pop_error h with ⟨rfl, none, rfl⟩ | ⟨a, p₁, popped, h⟩
  · refine ⟨rfl, .of_memory rfl ?_⟩
    rw [spent, none]
    exact (emptied none).symm
  · rcases p₁.pushReturn_cases a with ⟨-, p₂, push, -⟩ | ⟨-, push⟩
    · cases push.symm.trans h
    · cases push.symm.trans h
      refine ⟨rfl, .of_memory popped.memory ?_⟩
      rw [spent, popped.contents]
      rfl

lemma r_from_error (h : (do pushData (← popReturn)) p = .error e q) :
    e.isMachineError ∧ Spends .R_FROM p q := by
  by_cases pos : p.return_stack.pointer < Layout.RETURN_STACK_BASE
  · obtain ⟨s, -, run⟩ := p.popReturn_cells.1 pos
    rcases p.popReturn_cases with ⟨a, p₁, pop, rs, ds⟩ | ⟨-, pop⟩
    · cases run.symm.trans pop
      rw [bind_ok run] at h
      obtain ⟨rfl, -, rfl⟩ := push_error h
      refine ⟨rfl, .of_memory rfl ?_⟩
      rw [spent, rs]
      exact Contents.ext ds rfl rfl
    · cases run.symm.trans pop
  · cases (bind_error (p.popReturn_cells.2 pos)).symm.trans h
    refine ⟨rfl, .of_memory rfl ?_⟩
    rcases p.popReturn_cases with ⟨a, p₁, pop, -⟩ | ⟨none, -⟩
    · cases (p.popReturn_cells.2 pos).symm.trans pop
    · rw [spent, none]
      exact Contents.ext rfl none rfl

/-- A word that pushes what it has peeked at. -/
lemma peek_error {peek : EStateM PyError DataPath ℤ}
    (peeks : (∃ a, peek p = .ok a p) ∨ peek p = .error .stackUnderflow p)
    (h : (do pushData (← peek)) p = .error e q) (left : spent p.contents prim = p.contents) :
    e.isMachineError ∧ Spends prim p q := by
  rcases peeks with ⟨a, found⟩ | none
  · rw [bind_ok found] at h
    obtain ⟨rfl, -, rfl⟩ := push_error h
    exact ⟨rfl, .of_memory rfl left.symm⟩
  · cases (bind_error none).symm.trans h
    exact ⟨rfl, .of_memory rfl left.symm⟩

/-- A division by something else than 0. -/
lemma quotient_error {func : ℤ → ℤ → Except PyError ℤ} (h : binop func p = .error e q)
    (divides : ∀ a b, b ≠ 0 → ∃ v, func a b = .ok v)
    (nonzero : ¬∃ a ds, p.contents.ds = 0 :: a :: ds)
    (left : spent p.contents prim = { p.contents with ds := [] }) :
    e.isMachineError ∧ Spends prim p q := by
  refine binop_error h (fun b a ds shape => divides a b ?_) left
  rintro rfl
  exact nonzero ⟨a, ds, shape⟩

/-- What a failing word on the data path leaves, and which error it raises. -/
lemma body_error {op : EStateM PyError DataPath Unit} (body : prim.body = some op)
    (h : op p = .error e q) (inside : ¬Escapes p prim) : e.isMachineError ∧ Spends prim p q := by
  have total : ∀ {func : ℤ → ℤ → ℤ} (b a : ℤ) (ds : List ℤ), p.contents.ds = b :: a :: ds →
      ∃ v, (.ok (func a b) : Except PyError ℤ) = .ok v := fun b a _ _ => ⟨_, rfl⟩
  have divides : ∀ {func : ℤ → ℤ → ℤ} (a b : ℤ), b ≠ 0 →
      ∃ v, (if b = 0 then .error .zeroDivision else .ok (func a b) : Except PyError ℤ) = .ok v :=
    fun a b nonzero => ⟨_, if_neg nonzero⟩
  cases prim with
  | LIT | DOCOL | EXIT | BYE => cases body
  | NOOP =>
    cases body
    cases h
  | DUP =>
    cases body
    refine peek_error ?_ h rfl
    rcases p.peekData_cases with ⟨a, ds, -, found⟩ | ⟨-, none⟩
    · exact .inl ⟨a, found⟩
    · exact .inr none
  | DROP =>
    cases body
    rcases pop_error h with ⟨rfl, -, rfl⟩ | ⟨a, p₁, -, failed⟩
    · exact ⟨rfl, .of_memory rfl rfl⟩
    · cases failed
  | SWAP =>
    cases body
    exact swap_error h
  | OVER =>
    cases body
    exact over_error h
  | ROT =>
    cases body
    exact turn_error (fun c b a => ⟨b, c, a, rfl⟩) h rfl
  | NEG_ROT =>
    cases body
    exact turn_error (fun c b a => ⟨c, a, b, rfl⟩) h rfl
  | NIP =>
    cases body
    exact nip_error h
  | TUCK =>
    cases body
    exact tuck_error h
  | FETCH =>
    cases body
    exact fetch_error h inside
  | STORE =>
    cases body
    exact store_error h inside
  | TO_R =>
    cases body
    exact to_r_error h
  | R_FROM =>
    cases body
    exact r_from_error h
  | R_FETCH =>
    cases body
    refine peek_error ?_ h rfl
    rcases p.peekReturn_cases with ⟨a, rs, -, found⟩ | ⟨-, none⟩
    · exact .inl ⟨a, found⟩
    · exact .inr none
  | DIV | MOD =>
    cases body
    exact quotient_error h divides inside rfl
  | ADD | SUB | MUL | EQ | NE | LT | GT | AND | OR =>
    cases body
    exact binop_error h total rfl
  | NEGATE | ABS | ONE_PLUS | ONE_MINUS | ZERO_EQ | ZERO_LT | INVERT =>
    cases body
    exact unop_error h rfl

variable {s s' : ForthService}

/-- What a failing primitive leaves, and which error it raises. -/
lemma primitive_error (h : prim.call [] s = .error e s') (inside : ¬Escapes s.data prim) :
    e.isMachineError ∧ Spends prim s.data s'.data := by
  cases body : prim.body with
  | some op =>
    rw [call_body body, ForthService.onData] at h
    split at h
    · cases h
    · rename_i d failed
      cases h
      exact body_error body failed inside
  | none =>
    cases prim with
    | LIT | DOCOL => exact absurd trivial inside
    | BYE => cases h
    | EXIT =>
      rcases bind_eq_error.mp h with popped | ⟨a, t, -, written⟩
      · unfold ForthService.onData at popped
        rcases s.data.popReturn_cases with ⟨b, q, pop, -⟩ | ⟨-, pop⟩
        · rw [pop] at popped
          cases popped
        · rw [pop] at popped
          cases popped
          exact ⟨rfl, .of_memory rfl rfl⟩
      · cases written
    | _ => cases body

end Primitives

/-! ## Words -/

/-- Control comes to the word `name` in state `t`, in whatever depth of colon words; the words before
    it have completed. -/
inductive Arrives : ForthService → List PyStr → ForthService → PyStr → Prop where
  | here {s name words} : Arrives s (name :: words) s name
  | after {s s₁ t name name' words trace} :
    Runs s [name] trace (.ok () s₁) → Arrives s₁ words t name' → Arrives s (name :: words) t name'
  | inside {s t name name' captured code words} :
    s.dictionary.lookup name = some (.colon captured) →
    s.colon_defs.lookup captured = some code → Arrives s code t name' →
    Arrives s (name :: words) t name'

/-- The word itself raises the exception, and leaves state `s'`. -/
inductive Raises : ForthService → PyStr → PyError → ForthService → Prop where
  | unknown {s name} : s.dictionary.lookup name = none → Raises s name (.unknownWord name) s
  | primitive {s s' name p e} :
    s.dictionary.lookup name = some (.primitive p) → p.call [] s = .error e s' →
    Raises s name e s'
  | missing {s name captured} :
    s.dictionary.lookup name = some (.colon captured) → s.colon_defs.lookup captured = none →
    Raises s name .keyError s

/-- Every colon word of the dictionary has its body. -/
def HasBodies (s : ForthService) : Prop :=
  ∀ name captured, s.dictionary.lookup name = some (.colon captured) →
    ∃ code, s.colon_defs.lookup captured = some code

section Words

variable {s s' t : ForthService} {name : PyStr} {words code : List PyStr}
  {trace : List ForthService} {e : PyError}

lemma HasBodies.init {data : DataPath} {registers : PyStr → ℤ} :
    HasBodies (.init data registers) := by
  intro name captured found
  obtain ⟨p, primitive⟩ := minimal_primitive found
  cases primitive

lemma HasBodies.add_colon_def (h : HasBodies s) : HasBodies (s.add_colon_def name code) := by
  intro name' captured found
  show ∃ body, (s.colon_defs.setItem name code).lookup captured = some body
  rw [PyDict.lookup_setItem]
  split
  · exact ⟨code, rfl⟩
  · rename_i other
    have old : s.dictionary.lookup name' = some (.colon captured) := by
      have found : (s.dictionary.setItem name (.colon name)).lookup name' =
        some (.colon captured) := found
      rw [PyDict.lookup_setItem] at found
      split at found
      · cases found
        exact absurd rfl other
      · exact found
    exact h name' captured old

/-- No word is defined on the way to a word. -/
lemma Arrives.same (h : Arrives s words t name) : SameWords s t := by
  induction h with
  | here => exact .refl
  | after first _ ih => exact first.same.trans ih
  | inside _ _ _ ih => exact ih

/-- A run raises what the word raises that it comes to. -/
lemma Runs.arrives (h : Runs s words trace (.error e s')) :
    ∃ t name, Arrives s words t name ∧ Raises t name e s' := by
  generalize same : EStateM.Result.error e s' = r at h
  induction h with
  | nil => cases same
  | unknown absent =>
    cases same
    exact ⟨_, _, .here, .unknown absent⟩
  | primitive found called _ ih =>
    obtain ⟨t, name, arrives, raises⟩ := ih same
    exact ⟨t, name, .after (.primitive found called .nil) arrives, raises⟩
  | raises found called =>
    cases same
    exact ⟨_, _, .here, .primitive found called⟩
  | missing found absent =>
    cases same
    exact ⟨_, _, .here, .missing found absent⟩
  | colon found defined body _ _ ih =>
    obtain ⟨t, name, arrives, raises⟩ := ih same
    exact ⟨t, name, .after (.colon found defined body .nil) arrives, raises⟩
  | inside found defined _ ih =>
    obtain ⟨t, name, arrives, raises⟩ := ih same
    exact ⟨t, name, .inside found defined arrives, raises⟩

lemma Arrives.runs (h : Arrives s words t name) (raises : Raises t name e s') :
    ∃ trace, Runs s words trace (.error e s') := by
  induction h with
  | here =>
    cases raises with
    | unknown absent => exact ⟨_, .unknown absent⟩
    | primitive found called => exact ⟨_, .raises found called⟩
    | missing found absent => exact ⟨_, .missing found absent⟩
  | after first _ ih =>
    obtain ⟨trace, run⟩ := ih raises
    exact ⟨_, first.append run⟩
  | inside found defined _ ih =>
    obtain ⟨trace, run⟩ := ih raises
    exact ⟨_, .inside found defined run⟩

/-- Execution raises what the word raises that control comes to, and leaves what that word left. -/
lemma execute_error : (∃ fuel, execute_words (call fuel) words s = .error e s') ↔
    ∃ t name, Arrives s words t name ∧ Raises t name e s' := by
  have ends := @execute_iff s words (.error e s')
  refine ends.trans ⟨?_, ?_⟩
  · rintro ⟨trace, run⟩
    exact run.arrives
  · rintro ⟨t, name, arrives, raises⟩
    exact arrives.runs raises

/-- A word that is given its operands raises a `MachineError`. -/
lemma Raises.machineError (h : Raises t name e s') (bodies : HasBodies t)
    (inside : ∀ prim, t.dictionary.lookup name = some (.primitive prim) → ¬Escapes t.data prim) :
    e.isMachineError := by
  cases h with
  | unknown absent => rfl
  | primitive found called => exact (primitive_error called (inside _ found)).1
  | missing found absent =>
    obtain ⟨code, defined⟩ := bodies _ _ found
    cases absent.symm.trans defined

lemma HasBodies.moved (h : HasBodies s) (same : SameWords s t) : HasBodies t := by
  intro name captured found
  obtain ⟨code, defined⟩ := h name captured (same.symm.found found)
  exact ⟨code, same.defined defined⟩

end Words

/-- Nothing is put back when a word fails. A primitive that raises a `MachineError` leaves the
    contents spent, and all is as it was before just when spending them changes nothing. A colon word
    leaves what the words before the failing one and that word left. It raises a `MachineError`
    itself, as long as none of the calls on the way lets another exception escape. -/
theorem failures_leave :
    (∀ (s s' : ForthService) prim e, ¬Escapes s.data prim → prim.call [] s = .error e s' →
      e.isMachineError ∧ Spends prim s.data s'.data) ∧
    (∀ s words e s', (∃ fuel, execute_words (call fuel) words s = .error e s') ↔
      ∃ t name, Arrives s words t name ∧ Raises t name e s') ∧
    (∀ s words e s', HasBodies s →
      (∀ t name prim, Arrives s words t name →
        t.dictionary.lookup name = some (.primitive prim) → ¬Escapes t.data prim) →
      (∃ fuel, execute_words (call fuel) words s = .error e s') → e.isMachineError) ∧
    (∀ data registers, HasBodies (.init data registers)) ∧
    ∀ s name code, HasBodies s → HasBodies (s.add_colon_def name code) := by
  refine ⟨?_, fun s words e s' => execute_error, ?_, fun data registers => .init,
    fun s name code bodies => bodies.add_colon_def⟩
  · intro s s' prim e inside h
    exact primitive_error h inside
  · intro s words e s' bodies inside failed
    obtain ⟨t, name, arrives, raises⟩ := execute_error.mp failed
    exact raises.machineError (bodies.moved arrives.same) fun prim => inside t name prim arrives

/-- `+` with one operand. -/
lemma oneCell_add {s : ForthService} (data : s.data = oneCell) :
    ∃ s', Primitive.ADD.call [] s = .error .stackUnderflow s' ∧ s'.data.contents.ds = [] := by
  rcases oneCell.popData_cases with ⟨a, q, pop, shape, -⟩ | ⟨none, -⟩
  · obtain ⟨-, below⟩ := List.cons.inj (oneCell_ds.symm.trans shape)
    rcases q.popData_cases with ⟨b, q', -, shape', -⟩ | ⟨none, pop'⟩
    · cases below.trans shape'
    · have added : binop (fun a b => .ok (a + b)) oneCell = .error .stackUnderflow q :=
        (bind_ok pop).trans (bind_error pop')
      refine ⟨{ s with data := q }, ?_, none⟩
      show ForthService.onData _ s = _
      rw [ForthService.onData, data, added]
  · cases oneCell_ds.symm.trans none

/-- `+` with one operand, and an unknown word. -/
theorem failures_leave_unknown :
    let s := ForthService.init oneCell fun _ => 0
    (∃ s', Primitive.ADD.call [] s = .error .stackUnderflow s' ∧ Spends .ADD s.data s'.data) ∧
    (∃ fuel s', execute_words (call fuel) ["DUP", "NOPE"] s = .error (.unknownWord "NOPE") s' ∧
      s'.data.contents.ds = [0, 0]) ∧
    HasBodies (s.add_colon_def (py "W") ["NOPE"]) ∧
    ∀ e s', (∃ fuel, execute_words (call fuel) ["NOPE"] s = .error e s') → e.isMachineError := by
  intro s
  have absent : s.dictionary.lookup (py "NOPE") = none := by decide +kernel
  have dup : s.dictionary.lookup (py "DUP") = some (.primitive .DUP) := by decide +kernel
  have bodies : HasBodies s := failures_leave.2.2.2.1 oneCell fun _ => 0
  refine ⟨?_, ?_, failures_leave.2.2.2.2 s "W" ["NOPE"] bodies, fun e s' failed => ?_⟩
  · obtain ⟨s', failed, -⟩ := @oneCell_add s rfl
    exact ⟨s', failed, (failures_leave.1 s s' .ADD _ id failed).2⟩
  · obtain ⟨s', pushed, grown⟩ := @oneCell_dup s rfl 0
    obtain ⟨trace, first⟩ := Runs.of_execute (execute_single (r := .ok () s') dup pushed)
    have missing : s'.dictionary.lookup (py "NOPE") = none := by
      have same := first.same.dictionary
      exact same ▸ absent
    obtain ⟨fuel, failed⟩ := (failures_leave.2.1 s ["DUP", "NOPE"] _ s').mpr
      ⟨s', "NOPE", .after first .here, .unknown missing⟩
    exact ⟨fuel, s', failed, grown⟩
  · refine failures_leave.2.2.1 s ["NOPE"] e s' bodies ?_ failed
    intro t name prim arrives found
    cases arrives with
    | here => cases absent.symm.trans found
    | after first _ =>
      cases first with
      | primitive found' _ _ => cases absent.symm.trans found'
      | colon found' _ _ _ => cases absent.symm.trans found'
    | inside found' _ _ => cases absent.symm.trans found'

/-- `+` with one operand loses it. -/
theorem operand_lost :
    let s := ForthService.init oneCell fun _ => 0
    ∃ s', execute_words (call 1) ["+"] s = .error .stackUnderflow s' ∧
      s.data.contents.ds = [0] ∧ s'.data.contents.ds = [] := by
  intro s
  have plus : s.dictionary.lookup (py "+") = some (.primitive .ADD) := by decide +kernel
  obtain ⟨s', failed, lost⟩ := @oneCell_add s rfl
  have called : call 1 (.primitive .ADD) s = .error .stackUnderflow s' := by
    rw [call_primitive, failed]
    rfl
  exact ⟨s', execute_raises plus called, oneCell_ds, lost⟩

end MinCpuForth.Forth
