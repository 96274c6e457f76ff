import MinCpuForth.Adapters.StackCases
import MinCpuForth.Forth.Runs
import MinCpuForth.Forth.Vocabulary

/-!
# Where a program stops

`BYE` raises a flag that nothing looks at, and `EXIT` works on a return stack that the calls of colon
words do not use. After either of them the words that are left run on, those of the same body and
those of the bodies that called it. They leave the stacks and the memory alone only if each of them
happens to put back what it takes.
-/

namespace MinCpuForth.Forth
open Python Domain Adapters DataPath Lib ForthService Kernel

/-- The data paths that a primitive leaves exactly as they are. -/
def Idle (p : DataPath) : Primitive → Prop
  | .NOOP | .BYE => True
  | .SWAP => ∃ a ds, p.contents.ds = a :: a :: ds
  | .ROT | .NEG_ROT => ∃ a ds, p.contents.ds = a :: a :: a :: ds
  | .NEGATE | .ZERO_LT => ∃ ds, p.contents.ds = 0 :: ds
  | .ABS => ∃ a ds, p.contents.ds = a :: ds ∧ 0 ≤ a
  | .FETCH => ∃ a i ds, p.contents.ds = a :: ds ∧ cellOf a = some i ∧ p.memory.cell i = a
  | _ => False

section Primitives

variable {p : DataPath} {op : EStateM PyError DataPath Unit}

/-- Pushing back what was popped. -/
lemma unop_fixed {func : ℤ → ℤ} {a : ℤ} {ds : List ℤ} (h : p.contents.ds = a :: ds)
    (fixed : func a = a) : unop func p = .ok () p := by
  rcases p.popData_cases with ⟨b, q, pop, shape, -, back⟩ | ⟨none, -⟩
  · obtain ⟨rfl, -⟩ := List.cons.inj (h.symm.trans shape)
    refine (bind_ok pop).trans ?_
    rw [fixed]
    exact back
  · cases h.symm.trans none

lemma swap_fixed {a : ℤ} {ds : List ℤ} (h : p.contents.ds = a :: a :: ds) : swap p = .ok () p := by
  rcases p.popData_cases with ⟨b, q, pop, shape, -, back⟩ | ⟨none, -⟩
  · obtain ⟨rfl, below⟩ := List.cons.inj (h.symm.trans shape)
    rcases q.popData_cases with ⟨c, q', pop', shape', -, back'⟩ | ⟨none, -⟩
    · obtain ⟨rfl, -⟩ := List.cons.inj (below.trans shape')
      refine (bind_ok pop).trans ((bind_ok pop').trans ((bind_ok back').trans ?_))
      exact back
    · cases below.trans none
  · cases h.symm.trans none

/-- Three equal cells. -/
lemma pop_three {a : ℤ} {ds : List ℤ} (h : p.contents.ds = a :: a :: a :: ds) :
    ∃ q q' q'', popData p = .ok a q ∧ popData q = .ok a q' ∧ popData q' = .ok a q'' ∧
      pushData a q'' = .ok () q' ∧ pushData a q' = .ok () q ∧ pushData a q = .ok () p := by
  rcases p.popData_cases with ⟨b, q, pop, shape, -, back⟩ | ⟨none, -⟩
  · obtain ⟨rfl, below⟩ := List.cons.inj (h.symm.trans shape)
    rcases q.popData_cases with ⟨c, q', pop', shape', -, back'⟩ | ⟨none, -⟩
    · obtain ⟨rfl, below'⟩ := List.cons.inj (below.trans shape')
      rcases q'.popData_cases with ⟨d, q'', pop'', shape'', -, back''⟩ | ⟨none, -⟩
      · obtain ⟨rfl, -⟩ := List.cons.inj (below'.trans shape'')
        exact ⟨q, q', q'', pop, pop', pop'', back'', back', back⟩
      · cases below'.trans none
    · cases below.trans none
  · cases h.symm.trans none

lemma rot_fixed {a : ℤ} {ds : List ℤ} (h : p.contents.ds = a :: a :: a :: ds) :
    rot p = .ok () p ∧ neg_rot p = .ok () p := by
  obtain ⟨q, q', q'', pop, pop', pop'', back'', back', back⟩ := pop_three h
  have run : ∀ last : EStateM PyError DataPath Unit,
      last = (do pushData a; pushData a; pushData a) → last q'' = .ok () p := by
    rintro last rfl
    exact (bind_ok back'').trans ((bind_ok back').trans back)
  exact ⟨(bind_ok pop).trans ((bind_ok pop').trans ((bind_ok pop'').trans (run _ rfl))),
    (bind_ok pop).trans ((bind_ok pop').trans ((bind_ok pop'').trans (run _ rfl)))⟩

/-- Fetching a cell that holds its own address. -/
lemma fetch_fixed {a i : ℤ} {ds : List ℤ} (h : p.contents.ds = a :: ds) (denotes : cellOf a = some i)
    (self : p.memory.cell i = a) : fetch p = .ok () p := by
  obtain ⟨s, e, top, -⟩ := below_top h
  have found : target 1 p = .ok i := by
    have one : p.data_stack.pointer + (1 : ℕ) ≤ Layout.DATA_STACK_BASE := by
      have le := s.le_base
      omega
    rw [target, if_pos one, ← top, denotes]
  have fetched := fetch_target p
  rw [found] at fetched
  obtain ⟨q, run, fetched⟩ := fetched
  rw [run]
  refine congrArg _ (ext_cells ?_ fetched.data_pointer fetched.return_pointer)
  rw [fetched.cell, self, top]
  exact Function.update_eq_self _ _

/-- A word on the stacks that leaves the contents as they are. -/
lemma comment_fixed {w : StackWord} (h : (primitiveOf w).body = some op) (run : op p = .ok () p) :
    Idle p (primitiveOf w) := by
  have same := (follows h run).comment
  generalize shape : p.contents.ds = ds at same
  generalize p.contents.rs = rs at same
  have sizes := congrArg (Option.map fun c => (c.1.length, c.2.length)) same
  cases w with
  | SWAP =>
    rw [kernelStack_plain (by decide)] at same
    rcases ds with _ | ⟨b, _ | ⟨a, ds⟩⟩
    · cases same
    · cases same
    · cases same
      exact ⟨b, ds, shape⟩
  | ROT | NROT =>
    rw [kernelStack_plain (by decide)] at same
    rcases ds with _ | ⟨c, _ | ⟨b, _ | ⟨a, ds⟩⟩⟩
    · cases same
    · cases same
    · cases same
    · cases same
      exact ⟨c, ds, shape⟩
  | NEGATE =>
    rw [kernelStack_plain (by decide)] at same
    cases ds with
    | nil => cases same
    | cons a ds =>
      have zero : -a = a := (List.cons.inj (Prod.mk.inj (Option.some.inj same)).1).1
      obtain rfl : a = 0 := by omega
      exact ⟨ds, shape⟩
  | ABS =>
    rw [kernelStack_plain (by decide)] at same
    cases ds with
    | nil => cases same
    | cons a ds =>
      have nonneg : |a| = a := (List.cons.inj (Prod.mk.inj (Option.some.inj same)).1).1
      exact ⟨a, ds, shape, nonneg ▸ abs_nonneg a⟩
  | ZEROLT =>
    cases ds with
    | nil => cases same
    | cons a ds =>
      rw [kernelStack_flag (by decide)] at same
      have flag_eq : flag (a < 0) = -a := (List.cons.inj (Prod.mk.inj (Option.some.inj same)).1).1
      obtain rfl : a = 0 := by
        unfold flag at flag_eq
        split at flag_eq <;> omega
      exact ⟨ds, shape⟩
  | ZEROEQ =>
    cases ds with
    | nil => cases same
    | cons a ds =>
      rw [kernelStack_flag (by decide)] at same
      have flag_eq : flag (a = 0) = -a := (List.cons.inj (Prod.mk.inj (Option.some.inj same)).1).1
      unfold flag at flag_eq
      split at flag_eq <;> omega
  | ONEPLUS =>
    rw [kernelStack_plain (by decide)] at same
    cases ds with
    | nil => cases same
    | cons a ds =>
      have next : a + 1 = a := (List.cons.inj (Prod.mk.inj (Option.some.inj same)).1).1
      omega
  | ONEMINUS =>
    rw [kernelStack_plain (by decide)] at same
    cases ds with
    | nil => cases same
    | cons a ds =>
      have next : a - 1 = a := (List.cons.inj (Prod.mk.inj (Option.some.inj same)).1).1
      omega
  | BITINVERT =>
    rw [kernelStack_plain (by decide)] at same
    cases ds with
    | nil => cases same
    | cons a ds =>
      have flipped : Int.not a = a := (List.cons.inj (Prod.mk.inj (Option.some.inj same)).1).1
      cases a <;> cases flipped
  | FROMR | RFETCH =>
    -- The data stack grows.
    cases rs with
    | nil => cases same
    | cons a rs => simp [StackWord.comment, length_kernelStack] at sizes
  | _ =>
    -- One of the stacks grows or shrinks.
    rcases ds with _ | ⟨b, _ | ⟨a, ds⟩⟩ <;>
      simp [StackWord.comment, length_kernelStack] at sizes

/-- A word that leaves the data path as it is, is idle there. -/
lemma idle_of_fixed {prim : Primitive} (h : prim.body = some op) (run : op p = .ok () p) :
    Idle p prim := by
  have word : ∀ w, primitiveOf w = prim → Idle p prim := by
    rintro w rfl
    exact comment_fixed h run
  have quotient : ∀ func, op = binop func → False := by
    rintro func rfl
    obtain ⟨b, a, ds, v, shape, -, left⟩ := binop_contents run
    have sizes := congrArg List.length (shape.symm.trans (congrArg Contents.ds left))
    simp at sizes
  cases prim with
  | NOOP | BYE => trivial
  | LIT | DOCOL | EXIT => cases h
  | DIV =>
    cases h
    exact quotient _ rfl
  | MOD =>
    cases h
    exact quotient _ rfl
  | FETCH =>
    cases h
    have fetched := fetch_target p
    cases found : target 1 p with
    | ok i =>
      rw [found] at fetched
      obtain ⟨q, run', fetched⟩ := fetched
      cases run'.symm.trans run
      cases shape : p.contents.ds with
      | nil =>
        have place := p.data_stack.pointer_eq
        have depth := p.length_ds
        rw [shape, List.length_nil] at depth
        rw [target, if_neg (by omega)] at found
        cases found
      | cons a ds =>
        obtain ⟨s, e, top, -⟩ := below_top shape
        have one : p.data_stack.pointer + (1 : ℕ) ≤ Layout.DATA_STACK_BASE := by
          have le := s.le_base
          omega
        rw [target, if_pos one, ← top] at found
        cases denotes : cellOf a with
        | none =>
          rw [denotes] at found
          cases found
        | some j =>
          rw [denotes] at found
          cases found
          refine ⟨a, i, ds, shape, denotes, ?_⟩
          have self := congrFun fetched.cell p.data_stack.pointer
          rw [Function.update_self] at self
          exact self.symm.trans top.symm
    | error e =>
      rw [found] at fetched
      obtain ⟨q, run', -⟩ := fetched
      cases run'.symm.trans run
  | STORE =>
    cases h
    have stored := store_target p
    cases found : target 2 p with
    | ok i =>
      rw [found] at stored
      obtain ⟨q, run', stored⟩ := stored
      cases run'.symm.trans run
      have moved := stored.data_pointer
      omega
    | error e =>
      rw [found] at stored
      obtain ⟨q, run', -⟩ := stored
      cases run'.symm.trans run
  | DUP => exact word .DUP rfl
  | DROP => exact word .DROP rfl
  | SWAP => exact word .SWAP rfl
  | OVER => exact word .OVER rfl
  | ROT => exact word .ROT rfl
  | NEG_ROT => exact word .NROT rfl
  | NIP => exact word .NIP rfl
  | TUCK => exact word .TUCK rfl
  | ADD => exact word .PLUS rfl
  | SUB => exact word .MINUS rfl
  | MUL => exact word .MUL rfl
  | NEGATE => exact word .NEGATE rfl
  | ABS => exact word .ABS rfl
  | ONE_PLUS => exact word .ONEPLUS rfl
  | ONE_MINUS => exact word .ONEMINUS rfl
  | TO_R => exact word .TOR rfl
  | R_FROM => exact word .FROMR rfl
  | R_FETCH => exact word .RFETCH rfl
  | EQ => exact word .EQUALS rfl
  | NE => exact word .NOTEQUALS rfl
  | LT => exact word .LESSTHAN rfl
  | GT => exact word .GREATERTHAN rfl
  | ZERO_EQ => exact word .ZEROEQ rfl
  | ZERO_LT => exact word .ZEROLT rfl
  | AND => exact word .BITAND rfl
  | OR => exact word .BITOR rfl
  | INVERT => exact word .BITINVERT rfl

/-- A word that is idle leaves the data path as it is. -/
lemma Idle.fixed {prim : Primitive} (idle : Idle p prim) (h : prim.body = some op) :
    op p = .ok () p := by
  cases prim with
  | NOOP =>
    cases h
    rfl
  | SWAP =>
    cases h
    obtain ⟨a, ds, shape⟩ := idle
    exact swap_fixed shape
  | ROT =>
    cases h
    obtain ⟨a, ds, shape⟩ := idle
    exact (rot_fixed shape).1
  | NEG_ROT =>
    cases h
    obtain ⟨a, ds, shape⟩ := idle
    exact (rot_fixed shape).2
  | NEGATE =>
    cases h
    obtain ⟨ds, shape⟩ := idle
    exact unop_fixed shape rfl
  | ZERO_LT =>
    cases h
    obtain ⟨ds, shape⟩ := idle
    exact unop_fixed shape rfl
  | ABS =>
    cases h
    obtain ⟨a, ds, shape, nonneg⟩ := idle
    exact unop_fixed shape (abs_of_nonneg nonneg)
  | FETCH =>
    cases h
    obtain ⟨a, i, ds, shape, denotes, self⟩ := idle
    exact fetch_fixed shape denotes self
  | BYE => cases h
  | _ => cases idle

end Primitives

/-- A primitive completes and leaves the data path exactly as it is just when it is idle there. -/
lemma idle_iff {p : Primitive} {s : ForthService} :
    (∃ s', p.call [] s = .ok () s' ∧ s'.data = s.data) ↔ Idle s.data p := by
  cases body : p.body with
  | some op =>
    rw [call_body body, ForthService.onData]
    constructor
    · rintro ⟨s', run, same⟩
      split at run
      · rename_i d e
        cases run
        refine idle_of_fixed body (e.trans ?_)
        rw [show d = s.data from same]
      · cases run
    · intro idle
      rw [idle.fixed body]
      exact ⟨s, rfl, rfl⟩
  | none =>
    cases p with
    | BYE => exact iff_of_true ⟨{ s with halted := true }, rfl, rfl⟩ trivial
    | LIT | DOCOL =>
      refine iff_of_false ?_ id
      rintro ⟨s', run, -⟩
      cases run
    | EXIT =>
      refine iff_of_false ?_ id
      rintro ⟨s', run, same⟩
      obtain ⟨a, t, popped, written⟩ := bind_eq_ok.mp run
      cases written
      unfold ForthService.onData at popped
      rcases s.data.popReturn_cases with ⟨b, q, pop, shape, -⟩ | ⟨-, pop⟩
      · rw [pop] at popped
        cases popped
        have sizes := congrArg List.length shape
        rw [show q = s.data from same] at sizes
        simp at sizes
      · rw [pop] at popped
        cases popped
    | _ => cases body

/-! ## Words that are left to run -/

/-- A word that leaves the data path exactly as it is: an idle primitive, or a colon word over such
    words. -/
inductive Inert (s : ForthService) : PyStr → Prop where
  | primitive {name p} :
    s.dictionary.lookup name = some (.primitive p) → Idle s.data p → Inert s name
  | colon {name captured code} :
    s.dictionary.lookup name = some (.colon captured) →
    s.colon_defs.lookup captured = some code →
    (∀ word ∈ code, Inert s word) → Inert s name

/-- The words run to completion, and the data path is the same in every state on the way. -/
def Keeps (s : ForthService) (words : List PyStr) : Prop :=
  ∃ trace s', Runs s words trace (.ok () s') ∧ ∀ t ∈ trace, t.data = s.data

/-- Control comes to a call of the primitive in state `s'`; `rest` are the words that are left to run
    then, from the call on, in the body that it stands in and in those that called this one. -/
inductive ComesTo (p : Primitive) :
    ForthService → List PyStr → ForthService → List PyStr → Prop where
  | here {s name words} :
    s.dictionary.lookup name = some (.primitive p) → ComesTo p s (name :: words) s (name :: words)
  | after {s s₁ s' name words rest trace} :
    Runs s [name] trace (.ok () s₁) → ComesTo p s₁ words s' rest →
    ComesTo p s (name :: words) s' rest
  | inside {s s' name captured code words rest} :
    s.dictionary.lookup name = some (.colon captured) →
    s.colon_defs.lookup captured = some code → ComesTo p s code s' rest →
    ComesTo p s (name :: words) s' (rest ++ words)

section Stopping

variable {s s₁ s' : ForthService} {name : PyStr} {words rest : List PyStr}
  {trace : List ForthService}

/-- Inert words stay inert while the data path stays the same. -/
lemma Inert.moved (h : Inert s name) (same : SameWords s s₁) (data : s₁.data = s.data) :
    Inert s₁ name := by
  induction h with
  | primitive found idle => exact .primitive (same.found found) (data ▸ idle)
  | colon found defined _ ih => exact .colon (same.found found) (same.defined defined) ih

/-- Where the data path has stayed the same, only inert words have run. -/
lemma Runs.inert {r : EStateM.Result PyError ForthService Unit} (h : Runs s words trace r)
    (ok : r = .ok () s') (kept : ∀ t ∈ trace, t.data = s.data) :
    s'.data = s.data ∧ ∀ name ∈ words, Inert s name := by
  induction h generalizing s' with
  | nil =>
    cases ok
    exact ⟨rfl, List.forall_mem_nil _⟩
  | unknown => cases ok
  | @primitive s s₁ name p words trace r found called run ih =>
    obtain ⟨first, others⟩ := List.forall_mem_cons.mp kept
    have same := call_same p s
    rw [called] at same
    obtain ⟨last, inert⟩ := ih ok fun t mem => (others t mem).trans first.symm
    refine ⟨last.trans first, List.forall_mem_cons.mpr ⟨?_, fun word mem => ?_⟩⟩
    · exact .primitive found (idle_iff.mp ⟨s₁, called, first⟩)
    · exact (inert word mem).moved same.symm first.symm
  | raises => cases ok
  | missing => cases ok
  | @colon s s₁ name captured code words trace trace' r found defined run run' ih ih' =>
    obtain ⟨first, others⟩ := List.forall_mem_append.mp kept
    obtain ⟨data, body⟩ := ih rfl first
    have same := run.same
    obtain ⟨last, inert⟩ := ih' ok fun t mem => (others t mem).trans data.symm
    refine ⟨last.trans data, List.forall_mem_cons.mpr ⟨.colon found defined body, fun word mem => ?_⟩⟩
    exact (inert word mem).moved same.symm data.symm
  | inside => cases ok

/-- Words of which each one keeps the data path, one after the other. -/
lemma keeps_words {s₀ : ForthService} (same : SameWords s₀ s) (data : s.data = s₀.data)
    (each : ∀ name ∈ words, ∀ s, SameWords s₀ s → s.data = s₀.data → Keeps s [name]) :
    ∃ trace s', Runs s words trace (.ok () s') ∧ (∀ t ∈ trace, t.data = s₀.data) ∧
      s'.data = s₀.data := by
  induction words generalizing s with
  | nil => exact ⟨[], s, .nil, List.forall_mem_nil _, data⟩
  | cons name words ih =>
    obtain ⟨first, others⟩ := List.forall_mem_cons.mp each
    obtain ⟨trace, s₁, run, kept⟩ := first s same data
    have data₁ := (run.inert rfl kept).1.trans data
    obtain ⟨trace', s', run', kept', last⟩ := ih (same.trans run.same) data₁ others
    refine ⟨trace ++ trace', s', run.append run', ?_, last⟩
    exact List.forall_mem_append.mpr ⟨fun t mem => (kept t mem).trans data, kept'⟩

lemma Inert.keeps (h : Inert s name) :
    ∀ s₁, SameWords s s₁ → s₁.data = s.data → Keeps s₁ [name] := by
  induction h with
  | @primitive name p found idle =>
    intro s₁ same data
    obtain ⟨s', called, kept⟩ := idle_iff.mpr (data ▸ idle)
    exact ⟨[s'], s', .primitive (same.found found) called .nil,
      List.forall_mem_singleton.mpr kept⟩
  | @colon name captured code found defined _ ih =>
    intro s₁ same data
    obtain ⟨trace, s', run, kept, -⟩ := keeps_words same data ih
    refine ⟨trace, s', ?_, fun t mem => (kept t mem).trans data.symm⟩
    have whole : Runs s₁ [name] (trace ++ []) (.ok () s') :=
      .colon (same.found found) (same.defined defined) run .nil
    rw [List.append_nil] at whole
    exact whole

/-- The words that are left keep the data path just when each of them is inert. -/
lemma keeps_iff : Keeps s words ↔ ∀ name ∈ words, Inert s name := by
  constructor
  · rintro ⟨trace, s', run, kept⟩
    exact (run.inert rfl kept).2
  · intro inert
    obtain ⟨trace, s', run, kept, -⟩ := keeps_words .refl rfl fun name mem => (inert name mem).keeps
    exact ⟨trace, s', run, kept⟩

/-- Control has come to a call of the primitive. -/
lemma ComesTo.head {p : Primitive} (h : ComesTo p s words s₁ rest) :
    ∃ name words', rest = name :: words' ∧ s₁.dictionary.lookup name = some (.primitive p) := by
  induction h with
  | @here s name words found => exact ⟨name, words, rfl, found⟩
  | after _ _ ih => exact ih
  | @inside s s₁ name captured code words rest _ _ _ ih =>
    obtain ⟨name', words', rfl, found⟩ := ih
    exact ⟨name', words' ++ words, rfl, found⟩

/-- Once control has come to a call, the words that are left make up the rest of the run. -/
lemma ComesTo.runs {p : Primitive} (h : ComesTo p s words s₁ rest)
    (run : Runs s₁ rest trace (.ok () s')) : ∃ before, Runs s words (before ++ trace) (.ok () s') := by
  induction h generalizing trace s' with
  | here => exact ⟨[], run⟩
  | @after s s₁ s₂ name words rest trace' first _ ih =>
    obtain ⟨before, run⟩ := ih run
    refine ⟨trace' ++ before, ?_⟩
    rw [List.append_assoc]
    exact first.append run
  | @inside s s₁ name captured code words rest found defined _ ih =>
    rcases run.append_cases with ⟨trace₁, t, trace₂, run₁, run₂, rfl⟩ | ⟨e, t, raised, -⟩
    · obtain ⟨before, run⟩ := ih run₁
      refine ⟨before, ?_⟩
      rw [← List.append_assoc]
      exact .colon found defined run run₂
    · cases raised

/-- Control comes to the call of `BYE` or `EXIT` in state `s₁`, in whatever depth of colon words, and
    `rest` are the words that are left. After `BYE` they leave the stacks and the memory alone just
    when each of them is inert; the whole run then ends with what was there when `BYE` was called.
    `EXIT` never leaves them alone, nor do the words of its body with it. -/
theorem control_words_go_on :
    (ComesTo .BYE s words s₁ rest →
      (Keeps s₁ rest ↔ ∀ name ∈ rest, Inert s₁ name) ∧
      (Keeps s₁ rest → ∃ fuel s',
        execute_words (call fuel) words s = .ok (some ()) s' ∧ s'.data = s₁.data)) ∧
    (ComesTo .EXIT s words s₁ rest →
      ∀ own callers, rest = own ++ callers → own ≠ [] → ¬Keeps s₁ own) := by
  constructor
  · intro comes
    refine ⟨keeps_iff, ?_⟩
    rintro ⟨trace, s', run, kept⟩
    obtain ⟨before, whole⟩ := comes.runs run
    obtain ⟨fuel, executed⟩ := whole.execute
    exact ⟨fuel, s', executed, (run.inert rfl kept).1⟩
  · intro comes own callers split full keeps
    obtain ⟨name, words', shape, found⟩ := comes.head
    cases own with
    | nil => exact full rfl
    | cons name' own =>
      obtain ⟨rfl, -⟩ := List.cons.inj (shape.symm.trans split)
      cases keeps_iff.mp keeps name List.mem_cons_self with
      | primitive found' idle =>
        cases found.symm.trans found'
        exact idle
      | colon found' _ _ => cases found.symm.trans found'

end Stopping

/-- `STOP`, defined as `BYE BYE`, and called before a placeholder. -/
theorem control_words_go_on_stop :
    let s := (ForthService.init oneCell fun _ => 0).add_colon_def (py "STOP") ["BYE", "BYE"]
    ∃ fuel s', execute_words (call fuel) ["STOP", "IF"] s = .ok (some ()) s' ∧
      s'.data = oneCell := by
  intro s
  have bye : s.dictionary.lookup (py "BYE") = some (.primitive .BYE) := by decide +kernel
  have placeholder : s.dictionary.lookup (py "IF") = some (.primitive .NOOP) := by decide +kernel
  have stop : s.dictionary.lookup (py "STOP") = some (.colon "STOP") := by decide +kernel
  have code : s.colon_defs.lookup (py "STOP") = some [py "BYE", py "BYE"] := by decide +kernel
  have comes : ComesTo .BYE s ["STOP", "IF"] s ([py "BYE", py "BYE"] ++ [py "IF"]) :=
    .inside stop code (.here bye)
  refine (control_words_go_on.1 comes).2 ((control_words_go_on.1 comes).1.mpr ?_)
  intro name mem
  rcases List.mem_append.mp mem with mem | mem
  · have same : name = py "BYE" := by simpa using mem
    rw [same]
    exact .primitive bye trivial
  · rw [List.mem_singleton.mp mem]
    exact .primitive placeholder trivial

/-- After `BYE`, a `DUP` still pushes; `EXIT` takes from a return stack that nothing was pushed on. -/
theorem bye_does_not_stop :
    let s := ForthService.init oneCell fun _ => 0
    (∃ s', execute_words (call 1) ["BYE"] s = .ok (some ()) s' ∧ s'.data.contents.ds = [0]) ∧
    (∃ s', execute_words (call 1) ["BYE", "DUP"] s = .ok (some ()) s' ∧
      s'.data.contents.ds = [0, 0]) ∧
    execute_words (call 1) ["EXIT"] s = .error .stackUnderflow s := by
  intro s
  have bye : s.dictionary.lookup (py "BYE") = some (.primitive .BYE) := by decide +kernel
  have dup : s.dictionary.lookup (py "DUP") = some (.primitive .DUP) := by decide +kernel
  have exit : s.dictionary.lookup (py "EXIT") = some (.primitive .EXIT) := by decide +kernel
  have stopped : call 1 (.primitive .BYE) s = .ok (some ()) { s with halted := true } := rfl
  refine ⟨⟨_, execute_completes bye stopped, oneCell_ds⟩, ?_, ?_⟩
  · have data : ({ s with halted := true } : ForthService).data = oneCell := rfl
    obtain ⟨s', pushed, grown⟩ := oneCell_dup data 0
    exact ⟨s', (execute_completes bye stopped).trans (execute_completes dup pushed), grown⟩
  · rcases oneCell.popReturn_cases with ⟨a, q, -, shape, -⟩ | ⟨-, pop⟩
    · cases oneCell_rs.symm.trans shape
    · have raised : call 1 (.primitive .EXIT) s = .error .stackUnderflow s := by
        rw [call_primitive]
        have popped : ForthService.onData popReturn s = .error .stackUnderflow s := by
          rw [ForthService.onData, show s.data = oneCell from rfl, pop]
          rfl
        exact congrArg within (bind_error popped)
      exact execute_raises exit raised

end MinCpuForth.Forth
