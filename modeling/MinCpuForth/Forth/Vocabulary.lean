import MinCpuForth.Adapters.StackCases
import MinCpuForth.Forth.Accesses
import MinCpuForth.Kernel.WordRuns

/-!
# Two implementations of one vocabulary

A word of the interpreter and the routine of the same name do the same to the stacks and to the
memory, up to the flags: true is 1 for the interpreter and -1 in the kernel. So the two agree on a
comparison only where it is false.
-/

namespace MinCpuForth.Forth
open Python Domain Adapters DataPath Emulator Kernel Lib Layout Routines

section Operations

/-! What an operation that succeeds tells about the contents. -/

variable {p q : DataPath} {a v : ℤ}

/-- An operation on two cells. -/
lemma binop_contents {func : ℤ → ℤ → Except PyError ℤ} (h : binop func p = .ok () q) :
    ∃ b a s v, p.contents.ds = b :: a :: s ∧ func a b = .ok v ∧
      q.contents = { p.contents with ds := v :: s } := by
  obtain ⟨b, p₁, pop, h⟩ := bind_eq_ok.mp h
  obtain ⟨a, p₂, pop', h⟩ := bind_eq_ok.mp h
  have c := popData_contents pop
  have c' := popData_contents pop'
  cases e : func a b with
  | error err =>
    rw [e] at h
    cases h
  | ok v =>
    rw [e] at h
    refine ⟨b, a, p₂.contents.ds, v, ?_, e, ?_⟩
    · rw [c, c']
    · rw [pushData_contents h, c, c']

/-- An operation on one cell. -/
lemma unop_contents {func : ℤ → ℤ} (h : unop func p = .ok () q) :
    ∃ a s, p.contents.ds = a :: s ∧ q.contents = { p.contents with ds := func a :: s } := by
  obtain ⟨a, p₁, pop, h⟩ := bind_eq_ok.mp h
  have c := popData_contents pop
  refine ⟨a, p₁.contents.ds, ?_, ?_⟩
  · rw [c]
  · rw [pushData_contents h, c]

end Operations

/-- The names of the words that leave a flag. -/
def COMPARISONS : List PyStr := ["=", "<>", "<", ">", "0=", "0<"]

/-- What the kernel leaves on the data stack where the interpreter leaves `ds`. -/
def kernelStack (name : PyStr) (ds : List ℤ) : List ℤ :=
  if name ∈ COMPARISONS then ds.modifyHead (- ·) else ds

/-- The comparison of that name is true of the operands on the data stack. -/
def Holds (name : PyStr) (ds : List ℤ) : Prop :=
  (∃ b a s, ds = b :: a :: s ∧ (name = py "=" ∧ a = b ∨ name = py "<>" ∧ a ≠ b ∨
    name = py "<" ∧ a < b ∨ name = py ">" ∧ a > b)) ∨
  ∃ a s, ds = a :: s ∧ (name = py "0=" ∧ a = 0 ∨ name = py "0<" ∧ a < 0)

/-- The primitive behind a word on the stacks. -/
def primitiveOf : StackWord → Primitive
  | .DUP => .DUP | .DROP => .DROP | .SWAP => .SWAP | .OVER => .OVER | .ROT => .ROT
  | .NROT => .NEG_ROT | .NIP => .NIP | .TUCK => .TUCK | .PLUS => .ADD | .MINUS => .SUB
  | .MUL => .MUL | .NEGATE => .NEGATE | .ABS => .ABS | .ONEPLUS => .ONE_PLUS
  | .ONEMINUS => .ONE_MINUS | .TOR => .TO_R | .FROMR => .R_FROM | .RFETCH => .R_FETCH
  | .EQUALS => .EQ | .NOTEQUALS => .NE | .LESSTHAN => .LT | .GREATERTHAN => .GT
  | .ZEROEQ => .ZERO_EQ | .ZEROLT => .ZERO_LT | .BITAND => .AND | .BITOR => .OR
  | .BITINVERT => .INVERT

/-- The word changes the contents as the stack comment of the kernel's word says, flags aside. -/
structure Follows (w : StackWord) (c c' : Contents) : Prop where
  comment : w.comment c.ds c.rs = some (kernelStack w.name c'.ds, c'.rs)
  mem : c'.mem = c.mem

/-- Flags of both sides. -/
lemma flag_eq (p : Prop) [Decidable p] : flag p = -int p := by
  unfold flag int
  split <;> rfl

section Words

variable {w : StackWord} {p q : DataPath}

/-- Whether a word leaves a flag. -/
lemma name_mem (w : StackWord) : w.name ∈ COMPARISONS ↔
    w ∈ [.EQUALS, .NOTEQUALS, .LESSTHAN, .GREATERTHAN, .ZEROEQ, .ZEROLT] := by
  cases w <;> decide

/-- Where there are no flags, both leave the same. -/
lemma kernelStack_plain (h : w ∉ [.EQUALS, .NOTEQUALS, .LESSTHAN, .GREATERTHAN, .ZEROEQ, .ZEROLT])
    (ds : List ℤ) : kernelStack w.name ds = ds :=
  if_neg (mt (name_mem w).mp h)

lemma kernelStack_flag (h : w ∈ [.EQUALS, .NOTEQUALS, .LESSTHAN, .GREATERTHAN, .ZEROEQ, .ZEROLT])
    (x : ℤ) (s : List ℤ) : kernelStack w.name (x :: s) = -x :: s :=
  if_pos ((name_mem w).mpr h)

/-- Only a comparison can be true. -/
lemma Holds.comparison {name : PyStr} {ds : List ℤ} (h : Holds name ds) : name ∈ COMPARISONS := by
  rcases h with ⟨b, a, s, -, h⟩ | ⟨a, s, -, h⟩
  · rcases h with ⟨rfl, -⟩ | ⟨rfl, -⟩ | ⟨rfl, -⟩ | ⟨rfl, -⟩ <;> decide
  · rcases h with ⟨rfl, -⟩ | ⟨rfl, -⟩ <;> decide

/-- The flags of both sides are the same where they are false. -/
lemma kernelStack_int (h : w ∈ [.EQUALS, .NOTEQUALS, .LESSTHAN, .GREATERTHAN, .ZEROEQ, .ZEROLT])
    (r : Prop) [Decidable r] (s : List ℤ) :
    kernelStack w.name (int r :: s) = int r :: s ↔ ¬r := by
  rw [kernelStack_flag h, List.cons.injEq, int]
  split <;> simpa

/-- Comparisons of two cells. -/
lemma binop_flags {r : ℤ → ℤ → Prop} [∀ a b, Decidable (r a b)]
    (h : w ∈ [.EQUALS, .NOTEQUALS, .LESSTHAN, .GREATERTHAN, .ZEROEQ, .ZEROLT])
    (run : binop (fun a b => .ok (int (r a b))) p = .ok () q)
    (holds : ∀ b a s, Holds w.name (b :: a :: s) ↔ r a b) :
    kernelStack w.name q.contents.ds = q.contents.ds ↔ ¬Holds w.name p.contents.ds := by
  obtain ⟨b, a, s, v, ds, e, c⟩ := binop_contents run
  cases e
  rw [c, ds, kernelStack_int h, holds]

/-- Comparisons with 0. -/
lemma unop_flags {r : ℤ → Prop} [∀ a, Decidable (r a)]
    (h : w ∈ [.EQUALS, .NOTEQUALS, .LESSTHAN, .GREATERTHAN, .ZEROEQ, .ZEROLT])
    (run : unop (fun a => int (r a)) p = .ok () q)
    (holds : ∀ a s, Holds w.name (a :: s) ↔ r a) :
    kernelStack w.name q.contents.ds = q.contents.ds ↔ ¬Holds w.name p.contents.ds := by
  obtain ⟨a, s, ds, c⟩ := unop_contents run
  rw [c, ds, kernelStack_int h, holds]

/-- The kernel leaves what a word of the interpreter leaves, unless it is a comparison that is
    true. -/
lemma kernelStack_agrees {op : EStateM PyError DataPath Unit}
    (h : (primitiveOf w).body = some op) (run : op p = .ok () q) :
    kernelStack w.name q.contents.ds = q.contents.ds ↔ ¬Holds w.name p.contents.ds := by
  cases w with
  | EQUALS | NOTEQUALS | LESSTHAN | GREATERTHAN =>
    cases h
    exact binop_flags (by decide) run (by simp +decide [Holds])
  | ZEROEQ | ZEROLT =>
    cases h
    exact unop_flags (by decide) run (by simp +decide [Holds])
  | _ =>
    -- no comparison
    rw [kernelStack_plain (by decide)]
    exact iff_of_true rfl fun holds => absurd ((name_mem _).mp holds.comparison) (by decide)

/-- Words that pop two cells. -/
lemma Follows.of_binop {func : ℤ → ℤ → Except PyError ℤ}
    (comment : ∀ b a s r v, func a b = .ok v →
      w.comment (b :: a :: s) r = some (kernelStack w.name (v :: s), r))
    (h : binop func p = .ok () q) : Follows w p.contents q.contents := by
  obtain ⟨b, a, s, v, ds, value, c⟩ := binop_contents h
  rw [c]
  exact ⟨by rw [ds, comment b a s _ v value], rfl⟩

/-- Words that pop one. -/
lemma Follows.of_unop {func : ℤ → ℤ}
    (comment : ∀ a s r, w.comment (a :: s) r = some (kernelStack w.name (func a :: s), r))
    (h : unop func p = .ok () q) : Follows w p.contents q.contents := by
  obtain ⟨a, s, ds, c⟩ := unop_contents h
  rw [c]
  exact ⟨by rw [ds, comment], rfl⟩

/-- What the words of the interpreter do. -/
lemma follows {op : EStateM PyError DataPath Unit} (h : (primitiveOf w).body = some op)
    (run : op p = .ok () q) : Follows w p.contents q.contents := by
  cases w with
  | PLUS | MINUS | MUL | BITAND | BITOR =>
    cases h
    refine .of_binop (fun b a s r v e => ?_) run
    cases e
    rw [kernelStack_plain (by decide)]
    rfl
  | EQUALS | NOTEQUALS | LESSTHAN | GREATERTHAN =>
    cases h
    refine .of_binop (fun b a s r v e => ?_) run
    cases e
    rw [kernelStack_flag (by decide), ← flag_eq]
    rfl
  | NEGATE | ABS | ONEPLUS | ONEMINUS | BITINVERT =>
    cases h
    refine .of_unop (fun a s r => ?_) run
    rw [kernelStack_plain (by decide)]
    rfl
  | ZEROEQ | ZEROLT =>
    cases h
    refine .of_unop (fun a s r => ?_) run
    rw [kernelStack_flag (by decide), ← flag_eq]
    rfl
  | DUP =>
    cases h
    obtain ⟨a, p₁, peek, push⟩ := bind_eq_ok.mp run
    obtain ⟨same, s, ds⟩ := peekData_contents peek
    have c := pushData_contents push
    rw [same] at c
    constructor
    · rw [kernelStack_plain (by decide), c, ds]
      rfl
    · rw [c]
  | DROP =>
    cases h
    obtain ⟨a, p₁, pop, last⟩ := bind_eq_ok.mp run
    have c := popData_contents pop
    cases last
    constructor
    · rw [kernelStack_plain (by decide), c]
      rfl
    · rw [c]
  | SWAP =>
    cases h
    obtain ⟨b, p₁, pop, run⟩ := bind_eq_ok.mp run
    obtain ⟨a, p₂, pop', run⟩ := bind_eq_ok.mp run
    obtain ⟨⟨⟩, p₃, push, push'⟩ := bind_eq_ok.mp run
    have c := popData_contents pop
    have c' := popData_contents pop'
    have d := pushData_contents push
    have d' := pushData_contents push'
    constructor
    · rw [kernelStack_plain (by decide), d', d, c, c']
      rfl
    · rw [d', d, c, c']
  | OVER =>
    cases h
    obtain ⟨b, p₁, pop, run⟩ := bind_eq_ok.mp run
    obtain ⟨a, p₂, peek, run⟩ := bind_eq_ok.mp run
    obtain ⟨⟨⟩, p₃, push, push'⟩ := bind_eq_ok.mp run
    have c := popData_contents pop
    obtain ⟨same, s, ds⟩ := peekData_contents peek
    have d := pushData_contents push
    have d' := pushData_contents push'
    constructor
    · rw [kernelStack_plain (by decide), d', d, same, c, ds]
      rfl
    · rw [d', d, same, c]
  | ROT | NROT =>
    cases h
    obtain ⟨c, p₁, pop₁, run⟩ := bind_eq_ok.mp run
    obtain ⟨b, p₂, pop₂, run⟩ := bind_eq_ok.mp run
    obtain ⟨a, p₃, pop₃, run⟩ := bind_eq_ok.mp run
    obtain ⟨⟨⟩, p₄, push₁, run⟩ := bind_eq_ok.mp run
    obtain ⟨⟨⟩, p₅, push₂, push₃⟩ := bind_eq_ok.mp run
    have c₁ := popData_contents pop₁
    have c₂ := popData_contents pop₂
    have c₃ := popData_contents pop₃
    have d₁ := pushData_contents push₁
    have d₂ := pushData_contents push₂
    have d₃ := pushData_contents push₃
    constructor
    · rw [kernelStack_plain (by decide), d₃, d₂, d₁, c₁, c₂, c₃]
      rfl
    · rw [d₃, d₂, d₁, c₁, c₂, c₃]
  | NIP =>
    cases h
    obtain ⟨b, p₁, pop, run⟩ := bind_eq_ok.mp run
    obtain ⟨a, p₂, pop', push⟩ := bind_eq_ok.mp run
    have c := popData_contents pop
    have c' := popData_contents pop'
    have d := pushData_contents push
    constructor
    · rw [kernelStack_plain (by decide), d, c, c']
      rfl
    · rw [d, c, c']
  | TUCK =>
    cases h
    obtain ⟨b, p₁, pop, run⟩ := bind_eq_ok.mp run
    obtain ⟨a, p₂, pop', run⟩ := bind_eq_ok.mp run
    obtain ⟨⟨⟩, p₃, push₁, run⟩ := bind_eq_ok.mp run
    obtain ⟨⟨⟩, p₄, push₂, push₃⟩ := bind_eq_ok.mp run
    have c := popData_contents pop
    have c' := popData_contents pop'
    have d₁ := pushData_contents push₁
    have d₂ := pushData_contents push₂
    have d₃ := pushData_contents push₃
    constructor
    · rw [kernelStack_plain (by decide), d₃, d₂, d₁, c, c']
      rfl
    · rw [d₃, d₂, d₁, c, c']
  | TOR =>
    cases h
    obtain ⟨a, p₁, pop, push⟩ := bind_eq_ok.mp run
    have c := popData_contents pop
    have d := pushReturn_contents push
    constructor
    · rw [kernelStack_plain (by decide), d, c]
      rfl
    · rw [d, c]
  | FROMR =>
    cases h
    obtain ⟨a, p₁, pop, push⟩ := bind_eq_ok.mp run
    have c := popReturn_contents pop
    have d := pushData_contents push
    constructor
    · rw [kernelStack_plain (by decide), d, c]
      rfl
    · rw [d, c]
  | RFETCH =>
    cases h
    obtain ⟨a, p₁, peek, push⟩ := bind_eq_ok.mp run
    obtain ⟨same, s, rs⟩ := peekReturn_contents peek
    have d := pushData_contents push
    rw [same] at d
    constructor
    · rw [kernelStack_plain (by decide), d, rs]
      rfl
    · rw [d]

end Words

/-- The words that both have. -/
lemma shared : ∀ item ∈ build_minimal_dictionary, item.1 ∈ CODE_WORDS.map CodeWordDto.name →
    item.1 ∉ [py "LIT", py "EXIT", py "BYE"] →
    (∃ w ∈ StackWord.all, item = (w.name, .primitive (primitiveOf w))) ∨
      item = (py "@", .primitive .FETCH) ∨ item = (py "!", .primitive .STORE) := by
  decide

/-- What the name of a word that both have stands for. -/
lemma shared_lookup {name : PyStr} {word : Word}
    (found : build_minimal_dictionary.lookup name = some word)
    (mem : name ∈ CODE_WORDS.map CodeWordDto.name)
    (other : name ∉ [py "LIT", py "EXIT", py "BYE"]) :
    (∃ w : StackWord, name = w.name ∧ word = .primitive (primitiveOf w)) ∨
      (name = py "@" ∧ word = .primitive .FETCH) ∨
      (name = py "!" ∧ word = .primitive .STORE) := by
  obtain ⟨before, after, split, -⟩ := List.lookup_eq_some_iff.mp found
  have entry : (name, word) ∈ build_minimal_dictionary := by
    rw [split]
    exact List.mem_append_right _ (.head _)
  rcases shared (name, word) entry mem other with ⟨w, -, e⟩ | e | e
  · exact .inl ⟨w, Prod.mk.inj e⟩
  · exact .inr (.inl (Prod.mk.inj e))
  · exact .inr (.inr (Prod.mk.inj e))

/-- Where the words that access the memory have their routines. -/
lemma access_labels : ∀ k ∈ CODE_WORDS,
    (k.name = py "@" → k.routine_label ∈ [py "FETCH", py "CFETCH"]) ∧
      (k.name = py "!" → k.routine_label ∈ [py "STOREW", py "CSTOREW"]) := by
  decide

/-- Calling a word of the interpreter that works on the data path. -/
lemma call_ok {p : Primitive} {op : EStateM PyError DataPath Unit} (h : p.body = some op)
    {fuel : ℕ} {f f' : ForthService} (run : ForthService.call fuel (.primitive p) f = .ok (some ()) f') :
    op f.data = .ok () f'.data := by
  cases fuel with
  | zero => cases run
  | succ fuel =>
    obtain ⟨⟨⟩, f₁, called, last⟩ := bind_eq_ok.mp run
    cases last
    rw [call_body h, ForthService.onData] at called
    split at called
    · rename_i a d e
      cases called
      exact e
    · cases called

/-- The topmost cell of the data stack. -/
lemma top_of_contents {s : EmulatorService} {b : ℤ} {rest : List ℤ}
    (h : s.data.contents.ds = b :: rest) : top s = b := by
  have shape : (List.range s.data.data_stack.depth).map
      (fun i : ℕ => s.data.memory.cell (s.data.data_stack.pointer + i)) = b :: rest := h
  cases depth : s.data.data_stack.depth with
  | zero =>
    rw [depth] at shape
    cases shape
  | succ n =>
    rw [depth, List.range_succ_eq_map, List.map_cons] at shape
    simpa [top] using (List.cons.inj shape).1

lemma length_kernelStack (name : PyStr) (ds : List ℤ) :
    (kernelStack name ds).length = ds.length := by
  unfold kernelStack
  split
  · exact List.length_modifyHead
  · rfl

/-- An operation on two cells succeeds if they are there. -/
lemma binop_runs (func : ℤ → ℤ → ℤ) {p : DataPath} {a b : ℤ} {rest : List ℤ}
    (ds : p.contents.ds = b :: a :: rest) :
    ∃ q, binop (fun a b => .ok (func a b)) p = .ok () q ∧
      q.contents = { p.contents with ds := func a b :: rest } := by
  have refines : Refines (binop fun a b => .ok (func a b)) (do
      let b ← Contents.popData
      let a ← Contents.popData
      Contents.pushData (func a b)) :=
    popData_refines.bind fun b => popData_refines.bind fun a => pushData_refines (func a b)
  have room : rest.length < 1024 := by
    have le := (contents_le p).1
    rw [ds, List.length_cons, List.length_cons] at le
    omega
  refine refines.ok ?_
  have pop : Contents.popData p.contents = .ok b { p.contents with ds := a :: rest } := by
    rw [Contents.popData, ds]
  refine (bind_ok pop).trans ?_
  exact if_pos room

/-- An operation on one cell succeeds if it is there. -/
lemma unop_runs (func : ℤ → ℤ) {p : DataPath} {a : ℤ} {rest : List ℤ}
    (ds : p.contents.ds = a :: rest) :
    ∃ q, unop func p = .ok () q ∧ q.contents = { p.contents with ds := func a :: rest } := by
  have refines : Refines (unop func) (do
      let a ← Contents.popData
      Contents.pushData (func a)) :=
    popData_refines.bind fun a => pushData_refines (func a)
  have room : rest.length < 1024 := by
    have le := (contents_le p).1
    rw [ds, List.length_cons] at le
    exact le
  refine refines.ok ?_
  have pop : Contents.popData p.contents = .ok a { p.contents with ds := rest } := by
    rw [Contents.popData, ds]
  exact (bind_ok pop).trans (if_pos room)

/-- Calling a primitive that works on the data path. -/
lemma call_of_ok {p : Primitive} {op : EStateM PyError DataPath Unit} (h : p.body = some op)
    {f : ForthService} {q : DataPath} (run : op f.data = .ok () q) :
    ForthService.call 1 (.primitive p) f = .ok (some ()) { f with data := q } := by
  have called : p.call [] f = .ok () { f with data := q } := by
    rw [call_body h, ForthService.onData, run]
  exact bind_ok called

/-- Routines come to rest at `NEXT`. -/
lemma routine_stops {s : EmulatorService} (back : kernelLabels.lookup (py "NEXT") = some s.pc) :
    routine s = .halt := by
  rw [lookup_NEXT] at back
  exact if_pos (Option.some.inj back).symm

section Agreement

variable {k : CodeWordDto} {s : EmulatorService} {f f' : ForthService} {fuel : ℕ}

/-- The multiplier that is counted down from below zero. -/
lemma multiplies_never (mem : k ∈ CODE_WORDS) (same : k.name = py "*")
    (h : Enters k.routine_label s) {b a : ℤ} {rest : List ℤ}
    (ds : s.data.contents.ds = b :: a :: rest) (negative : b < 0) :
    ∀ t, Reaches routine s t → kernelLabels.lookup (py "NEXT") ≠ some t.pc := by
  have meets := stackWord_meets (w := .MUL) mem same h
  have endless : StackWord.MUL.verdict (b :: a :: rest) s.data.contents.rs 0 = .diverges :=
    if_pos ⟨rfl, negative⟩
  rw [ds, endless] at meets
  intro t r back
  rw [lookup_NEXT] at back
  exact (routine_views.diverges meets).not_stop r (Option.some.inj back).symm

/-- The routine comes back with the contents that the interpreter's word leaves, its flags apart. -/
def RoutineAgrees (name : PyStr) (s : EmulatorService) (f' : ForthService) : Prop :=
  ∃ t, Reaches routine s t ∧ kernelLabels.lookup (py "NEXT") = some t.pc ∧
    t.data.contents = { f'.data.contents with ds := kernelStack name f'.data.contents.ds }

/-- The words on the stacks. -/
lemma stack_agrees {w : StackWord} (mem : k ∈ CODE_WORDS) (same : k.name = w.name)
    (h : Enters k.routine_label s) (data : f.data = s.data)
    (run : ForthService.call fuel (.primitive (primitiveOf w)) f = .ok (some ()) f')
    (factor : w.name = py "*" → 0 ≤ top s) : RoutineAgrees w.name s f' := by
  cases body : (primitiveOf w).body with
  | none => cases w <;> cases body
  | some op =>
    obtain ⟨comment, unchanged⟩ := follows body (call_ok body run)
    have meets := stackWord_meets mem same h
    rw [data] at comment unchanged
    have fit : (kernelStack w.name f'.data.contents.ds).length ≤ 1024 ∧
        0 + f'.data.contents.rs.length ≤ 1024 := by
      obtain ⟨ds_le, rs_le⟩ := contents_le f'.data
      rw [length_kernelStack]
      omega
    have finite : ¬w.Endless s.data.contents.ds := by
      rintro ⟨rfl, negative⟩
      split at negative
      · rename_i b a rest ds
        have nonneg := factor rfl
        rw [top_of_contents ds] at nonneg
        omega
      · exact negative
    rw [StackWord.verdict, comment] at meets
    simp only [if_neg finite, if_pos fit] at meets
    obtain ⟨t, r, back⟩ := meets.reaches
    obtain ⟨pc, contents⟩ := h.back back
    exact ⟨t, r, pc, contents.trans (Contents.ext rfl rfl unchanged.symm)⟩

/-- `@`. -/
lemma fetch_agrees (mem : k ∈ CODE_WORDS) (same : k.name = py "@") (h : Enters k.routine_label s)
    (data : f.data = s.data)
    (run : ForthService.call fuel (.primitive .FETCH) f = .ok (some ()) f') :
    RoutineAgrees "@" s f' := by
  have kernel := fetch_words ((access_labels k mem).1 same) h
  have forth := fetch_target s.data
  have ran := call_ok rfl run
  rw [data] at ran
  cases denotes : target 1 s.data with
  | error err =>
    rw [denotes] at forth
    obtain ⟨q, fails, -⟩ := forth
    cases fails.symm.trans ran
  | ok i =>
    rw [denotes] at forth kernel
    obtain ⟨q, ok, fetched⟩ := forth
    obtain ⟨t, r, returns, fetched'⟩ := kernel
    cases ok.symm.trans ran
    refine ⟨t, r, returns.pc, ?_⟩
    rw [fetched'.unique fetched, kernelStack, if_neg (by decide)]

/-- `!`. -/
lemma store_agrees (mem : k ∈ CODE_WORDS) (same : k.name = py "!") (h : Enters k.routine_label s)
    (data : f.data = s.data)
    (run : ForthService.call fuel (.primitive .STORE) f = .ok (some ()) f') :
    RoutineAgrees "!" s f' := by
  have kernel := store_words ((access_labels k mem).2 same) h
  have forth := store_target s.data
  have ran := call_ok rfl run
  rw [data] at ran
  cases denotes : target 2 s.data with
  | error err =>
    rw [denotes] at forth
    obtain ⟨q, fails, -⟩ := forth
    cases fails.symm.trans ran
  | ok i =>
    rw [denotes] at forth kernel
    obtain ⟨q, ok, stored⟩ := forth
    obtain ⟨t, r, returns, stored'⟩ := kernel
    cases ok.symm.trans ran
    refine ⟨t, r, returns.pc, ?_⟩
    rw [stored'.unique stored, kernelStack, if_neg (by decide)]

/-- For every word that both have and every contents on which the interpreter's word succeeds, the
    kernel's routine comes back with the same contents; the flag of a comparison is -1 where the
    interpreter's is 1, and the top factor of a multiplication must not be negative. -/
lemma routine_agrees {name : PyStr} {word : Word}
    (found : build_minimal_dictionary.lookup name = some word) (mem : k ∈ CODE_WORDS)
    (same : k.name = name) (other : name ∉ [py "LIT", py "EXIT", py "BYE"])
    (h : Enters k.routine_label s) (data : f.data = s.data)
    (run : ForthService.call fuel word f = .ok (some ()) f')
    (factor : name = py "*" → 0 ≤ top s) : RoutineAgrees name s f' := by
  rcases shared_lookup found (List.mem_map.mpr ⟨k, mem, same⟩) other with
    ⟨w, rfl, rfl⟩ | ⟨rfl, rfl⟩ | ⟨rfl, rfl⟩
  · exact stack_agrees mem same h data run factor
  · exact fetch_agrees mem same h data run
  · exact store_agrees mem same h data run

/-- The flags are all that differs. -/
lemma kernelStack_iff {name : PyStr} {word : Word}
    (found : build_minimal_dictionary.lookup name = some word)
    (mem : name ∈ CODE_WORDS.map CodeWordDto.name)
    (other : name ∉ [py "LIT", py "EXIT", py "BYE"])
    (run : ForthService.call fuel word f = .ok (some ()) f') :
    kernelStack name f'.data.contents.ds = f'.data.contents.ds ↔
      ¬Holds name f.data.contents.ds := by
  have plain : ∀ {name : PyStr} {ds ds' : List ℤ}, name ∉ COMPARISONS →
      (kernelStack name ds' = ds' ↔ ¬Holds name ds) := by
    intro name ds ds' h
    exact iff_of_true (if_neg h) fun holds => h holds.comparison
  rcases shared_lookup found mem other with ⟨w, rfl, rfl⟩ | ⟨rfl, rfl⟩ | ⟨rfl, rfl⟩
  · cases body : (primitiveOf w).body with
    | none => cases w <;> cases body
    | some op => exact kernelStack_agrees body (call_ok body run)
  · exact plain (by decide)
  · exact plain (by decide)

/-- A multiplication that comes back had a multiplier that is not negative. -/
lemma factor_nonneg {word : Word} (found : build_minimal_dictionary.lookup (py "*") = some word)
    (mem : k ∈ CODE_WORDS) (same : k.name = py "*") (h : Enters k.routine_label s)
    (data : f.data = s.data) (run : ForthService.call fuel word f = .ok (some ()) f')
    {t : EmulatorService} (r : Reaches routine s t)
    (back : kernelLabels.lookup (py "NEXT") = some t.pc) : 0 ≤ top s := by
  have e : build_minimal_dictionary.lookup (py "*") = some (.primitive .MUL) := by decide
  cases found.symm.trans e
  obtain ⟨b, a, rest, v, ds, -, -⟩ := binop_contents (call_ok rfl run)
  rw [data] at ds
  rw [top_of_contents ds]
  by_contra negative
  exact multiplies_never mem same h ds (Int.not_le.mp negative) t r back

/-- For every word that both have and every contents on which the interpreter's word succeeds, the
    kernel's routine comes back with the same contents if and only if the word is no comparison that
    is true of its operands and no multiplication by a negative number. -/
theorem vocabularies_agree {name : PyStr} {word : Word}
    (found : build_minimal_dictionary.lookup name = some word) (mem : k ∈ CODE_WORDS)
    (same : k.name = name) (other : name ∉ [py "LIT", py "EXIT", py "BYE"])
    (h : Enters k.routine_label s) (data : f.data = s.data)
    (run : ForthService.call fuel word f = .ok (some ()) f') :
    (∃ t, Reaches routine s t ∧ kernelLabels.lookup (py "NEXT") = some t.pc ∧
      t.data.contents = f'.data.contents) ↔
    ¬Holds name s.data.contents.ds ∧ (name = py "*" → 0 ≤ top s) := by
  have flags := kernelStack_iff found (List.mem_map.mpr ⟨k, mem, same⟩) other run
  rw [data] at flags
  rw [← flags]
  constructor
  · rintro ⟨t, r, back, contents⟩
    have factor : name = py "*" → 0 ≤ top s := by
      rintro rfl
      exact factor_nonneg found mem same h data run r back
    obtain ⟨t', r', back', contents'⟩ := routine_agrees found mem same other h data run factor
    obtain rfl := r.unique r' (routine_stops back) (routine_stops back')
    refine ⟨?_, factor⟩
    exact (congrArg Contents.ds (contents.symm.trans contents')).symm
  · rintro ⟨equal, factor⟩
    obtain ⟨t, r, back, contents⟩ := routine_agrees found mem same other h data run factor
    rw [equal] at contents
    exact ⟨t, r, back, contents⟩

/-- Two data stacks. -/
lemma poised_one (pc : ℤ) (memory : MachineMemory) (input : List ℤ) (low high) :
    (poised pc memory ⟨3071, low, high⟩ input).data.contents.ds = [memory.cell 3071] := rfl

lemma poised_two (pc : ℤ) (memory : MachineMemory) (input : List ℤ) (low high) :
    (poised pc memory ⟨3070, low, high⟩ input).data.contents.ds =
      [memory.cell 3070, memory.cell 3071] := rfl

/-- `0=` of 5 leaves the same contents on both sides. -/
theorem vocabularies_agree_five :
    let s := poised 176 (storing [(3071, 5)]) ⟨3071, by decide, by decide⟩ []
    ∃ t f', Reaches routine s t ∧ kernelLabels.lookup (py "NEXT") = some t.pc ∧
      ForthService.call 1 (.primitive .ZERO_EQ) (.init s.data s.registers) = .ok (some ()) f' ∧
      t.data.contents = f'.data.contents ∧ f'.data.contents.ds = [0] := by
  intro s
  have enters : Enters "ZEROEQ" s := poised_enters 30 rfl (.head _)
  have cell : (storing [(3071, 5)]).cell 3071 = 5 := by
    rw [cell_storing (by decide)]
    rfl
  have ds : s.data.contents.ds = [5] := by
    rw [poised_one, cell]
  clear_value s
  obtain ⟨q, run, contents⟩ := unop_runs (fun a => int (a = 0)) ds
  have mem : ZEROEQ_primitive.word ∈ CODE_WORDS :=
    List.mem_map_of_mem (List.mem_of_getElem? (i := 29) rfl)
  have called := call_of_ok (p := .ZERO_EQ) (f := .init s.data s.registers) rfl run
  have false_here : ¬Holds (py "0=") s.data.contents.ds := by
    rw [ds]
    simp [Holds]
  have agrees := @vocabularies_agree _ s (.init s.data s.registers) _ 1 "0="
    (.primitive .ZERO_EQ) (by decide) mem rfl (by decide +kernel) enters rfl called
  obtain ⟨t, r, back, same⟩ := agrees.mpr ⟨false_here, fun e => absurd e (by decide)⟩
  exact ⟨t, _, r, back, called, same, congrArg Contents.ds contents⟩

/-- For 0, the two sides of `0=` leave different flags. -/
theorem zero_equals_differs : ∃ (s : EmulatorService) (f f' : ForthService),
    build_minimal_dictionary.lookup (py "0=") = some (.primitive .ZERO_EQ) ∧
    Enters "ZEROEQ" s ∧ f.data = s.data ∧
    ForthService.call 1 (.primitive .ZERO_EQ) f = .ok (some ()) f' ∧
    ∀ t, Reaches routine s t → kernelLabels.lookup (py "NEXT") = some t.pc →
      t.data.contents ≠ f'.data.contents := by
  let s := poised 176 (storing [(3071, 0)]) ⟨3071, by decide, by decide⟩ []
  have enters : Enters "ZEROEQ" s := poised_enters 30 rfl (.head _)
  have cell : (storing [(3071, 0)]).cell 3071 = 0 := by
    rw [cell_storing (by decide)]
    rfl
  have ds : s.data.contents.ds = [0] := by
    rw [poised_one, cell]
  have rs : s.data.contents.rs = [] := rfl
  clear_value s
  obtain ⟨q, run, contents⟩ := unop_runs (fun a => int (a = 0)) ds
  refine ⟨s, .init s.data s.registers, _, by decide, enters, rfl, call_of_ok rfl run, ?_⟩
  intro t r pc
  have mem : ZEROEQ_primitive.word ∈ CODE_WORDS :=
    List.mem_map_of_mem (List.mem_of_getElem? (i := 29) rfl)
  have meets := stackWord_meets (w := .ZEROEQ) mem rfl enters
  rw [ds, rs, show StackWord.ZEROEQ.verdict [0] [] 0 = .ok [-1] [] by decide] at meets
  obtain ⟨t', r', back⟩ := meets.reaches
  obtain ⟨pc', same⟩ := enters.back back
  obtain rfl := r.unique r' (routine_stops pc) (routine_stops pc')
  rw [same, contents]
  intro e
  exact absurd (congrArg Contents.ds e) (by decide : ([-1] : List ℤ) ≠ [1])

end Agreement

section Multiplication

variable {s : EmulatorService} {a b : ℤ} {rest : List ℤ}

/-- The interpreter multiplies any two numbers. The kernel's routine multiplies them if the top one
    is not negative, and never comes back otherwise. -/
theorem multiplies (h : Enters "MUL" s) (ds : s.data.contents.ds = b :: a :: rest)
    {f : ForthService} (data : f.data = s.data) :
    (∃ f', ForthService.call 1 (.primitive .MUL) f = .ok (some ()) f' ∧
      f'.data.contents = { s.data.contents with ds := a * b :: rest }) ∧
    (0 ≤ b → ∃ t, Reaches routine s t ∧ kernelLabels.lookup (py "NEXT") = some t.pc ∧
      t.data.contents = { s.data.contents with ds := a * b :: rest }) ∧
    (b < 0 → ∀ t, Reaches routine s t → kernelLabels.lookup (py "NEXT") ≠ some t.pc) := by
  have mem : MUL_primitive.word ∈ CODE_WORDS :=
    List.mem_map_of_mem (List.mem_of_getElem? (i := 13) rfl)
  have meets := stackWord_meets (w := .MUL) mem rfl h
  have le := (contents_le s.data)
  rw [ds, List.length_cons, List.length_cons] at le
  rw [ds] at meets
  refine ⟨?_, fun nonneg => ?_, fun negative => ?_⟩
  · rw [← data] at ds ⊢
    obtain ⟨q, run, contents⟩ := binop_runs (· * ·) ds
    exact ⟨_, call_of_ok rfl run, contents⟩
  · have finite : ¬StackWord.MUL.Endless (b :: a :: rest) := fun e => Int.not_lt.mpr nonneg e.2
    have fit : (a * b :: rest).length ≤ 1024 ∧ 0 + s.data.contents.rs.length ≤ 1024 := by
      rw [List.length_cons]
      omega
    have ok : StackWord.MUL.verdict (b :: a :: rest) s.data.contents.rs 0 =
        .ok (a * b :: rest) s.data.contents.rs :=
      (if_neg finite).trans (if_pos fit)
    rw [ok] at meets
    obtain ⟨t, r, back⟩ := meets.reaches
    exact ⟨t, r, h.back back⟩
  · exact multiplies_never mem rfl h ds negative

/-- Two times three. -/
theorem multiplies_two :
    let s := poised 70 (storing [(3070, 2), (3071, 3)]) ⟨3070, by decide, by decide⟩ []
    ∃ t, Reaches routine s t ∧ t.data.contents.ds = [6] := by
  intro s
  have enters : Enters "MUL" s := poised_enters 14 rfl (.head _)
  have cell := @cell_storing [(3070, 2), (3071, 3)] (by decide)
  have ds : s.data.contents.ds = [2, 3] := by
    rw [poised_two, cell]
    decide
  clear_value s
  obtain ⟨-, runs, -⟩ := multiplies enters ds (f := .init s.data s.registers) rfl
  obtain ⟨t, r, -, contents⟩ := runs (by decide)
  exact ⟨t, r, by rw [contents]; rfl⟩

/-- One times minus one. -/
theorem multiplies_by_minus_one :
    let s := poised 70 (storing [(3070, -1), (3071, 1)]) ⟨3070, by decide, by decide⟩ []
    Enters "MUL" s ∧ s.data.contents.ds = [-1, 1] ∧
      ∀ t, Reaches routine s t → kernelLabels.lookup (py "NEXT") ≠ some t.pc := by
  intro s
  have enters : Enters "MUL" s := poised_enters 14 rfl (.head _)
  have cell := @cell_storing [(3070, -1), (3071, 1)] (by decide)
  have ds : s.data.contents.ds = [-1, 1] := by
    rw [poised_two, cell]
    decide
  clear_value s
  have mem : MUL_primitive.word ∈ CODE_WORDS :=
    List.mem_map_of_mem (List.mem_of_getElem? (i := 13) rfl)
  exact ⟨enters, ds, multiplies_never mem rfl enters ds (by decide)⟩

end Multiplication

end MinCpuForth.Forth
