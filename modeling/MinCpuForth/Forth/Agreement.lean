import MinCpuForth.Forth.Redefinition
import MinCpuForth.Forth.Vocabulary
import MinCpuForth.Kernel.StackEffects

/-!
# Two implementations of one program

Colon words and a program over the words that both sides have and that leave no flags. The
interpreter calls the words of the program, the kernel builder compiles them into threads for the
emulator, and both come to the same stacks or to the same exception. Two things set them apart: the
kernel takes a cell of the return stack for every colon word that it is inside, and it counts down
to zero in `*`.
-/

namespace MinCpuForth.Forth
open Python Domain Adapters DataPath Lib ForthService Kernel Emulator Layout

section Words

/-! What a word does, by its stack comment, errors included. -/

/-- Stacks of 1024 cells each, as the stack comment leaves them. -/
def commented (c : Contents) : Option (List ℤ × List ℤ) → Except PyError Contents
  | none => .error .stackUnderflow
  | some (ds, rs) =>
    if ds.length ≤ 1024 ∧ rs.length ≤ 1024 then .ok { c with ds := ds, rs := rs }
    else .error .stackOverflow

/-- A result, but for what an exception leaves. -/
def outcomeOf {σ : Type} : EStateM.Result PyError σ Unit → Except PyError σ
  | .ok _ c => .ok c
  | .error e _ => .error e

/-- The word does to the contents what its stack comment says. -/
def Comments (w : StackWord) (op : EStateM PyError DataPath Unit) : Prop :=
  ∀ p, match commented p.contents (w.comment p.contents.ds p.contents.rs) with
    | .ok c => ∃ q, op p = .ok () q ∧ q.contents = c
    | .error e => ∃ q, op p = .error e q

variable {w : StackWord} {op : EStateM PyError DataPath Unit} {abs : EStateM PyError Contents Unit}

/-- A word that refines an action on contents that does so. -/
lemma Comments.of_refines (h : Refines op abs)
    (agree : ∀ c, c.ds.length ≤ 1024 → c.rs.length ≤ 1024 →
      outcomeOf (abs c) = commented c (w.comment c.ds c.rs)) : Comments w op := by
  intro p
  obtain ⟨ds_le, rs_le⟩ := contents_le p
  have same := agree p.contents ds_le rs_le
  cases e : abs p.contents with
  | ok a c =>
    rw [← same, e]
    exact h.ok e
  | error err c =>
    rw [← same, e]
    exact h.error e

/-- Words on two cells. -/
lemma Comments.of_binop (func : ℤ → ℤ → ℤ)
    (one : ∀ s r, w.comment [] r = none ∧ (∀ a, w.comment [a] r = none) ∧
      ∀ a b, w.comment (b :: a :: s) r = some (func a b :: s, r)) :
    Comments w (binop fun a b => .ok (func a b)) := by
  have refines : Refines (binop fun a b => .ok (func a b)) (do
      let b ← Contents.popData
      let a ← Contents.popData
      Contents.pushData (func a b)) :=
    popData_refines.bind fun b => popData_refines.bind fun a => pushData_refines (func a b)
  apply Comments.of_refines refines
  rintro ⟨ds, rs, mem⟩ ds_le rs_le
  obtain ⟨none, single, -⟩ := one [] rs
  rcases ds with _ | ⟨b, _ | ⟨a, s⟩⟩
  · show _ = commented _ (w.comment [] rs)
    rw [none]
    rfl
  · show _ = commented _ (w.comment [b] rs)
    rw [single]
    rfl
  · have room : s.length < 1024 := by
      simp only [List.length_cons] at ds_le
      omega
    have fit : (func a b :: s).length ≤ 1024 ∧ rs.length ≤ 1024 := ⟨room, rs_le⟩
    show outcomeOf (Contents.pushData (func a b) ⟨s, rs, mem⟩) =
      commented _ (w.comment (b :: a :: s) rs)
    rw [(one s rs).2.2, commented, if_pos fit, Contents.pushData, if_pos room]
    rfl

/-- Words on one cell. -/
lemma Comments.of_unop (func : ℤ → ℤ)
    (one : ∀ s r, w.comment [] r = none ∧ ∀ a, w.comment (a :: s) r = some (func a :: s, r)) :
    Comments w (unop func) := by
  have refines : Refines (unop func) (do
      let a ← Contents.popData
      Contents.pushData (func a)) :=
    popData_refines.bind fun a => pushData_refines (func a)
  apply Comments.of_refines refines
  rintro ⟨_ | ⟨a, s⟩, rs, mem⟩ ds_le rs_le
  · show _ = commented _ (w.comment [] rs)
    rw [(one [] rs).1]
    rfl
  · have room : s.length < 1024 := ds_le
    have fit : (func a :: s).length ≤ 1024 ∧ rs.length ≤ 1024 := ⟨room, rs_le⟩
    show outcomeOf (Contents.pushData (func a) ⟨s, rs, mem⟩) =
      commented _ (w.comment (a :: s) rs)
    rw [(one s rs).2, commented, if_pos fit, Contents.pushData, if_pos room]
    rfl

attribute [local simp] bind EStateM.bind pure EStateM.pure outcomeOf commented StackWord.comment
  Contents.pushData Contents.popData Contents.peekData Contents.pushReturn Contents.popReturn
  Contents.peekReturn

/-! The words that move cells about; the cases are the depths of the stack. -/

lemma DUP_comments : Comments .DUP (do pushData (← peekData)) := by
  refine .of_refines (peekData_refines.bind pushData_refines) ?_
  rintro ⟨_ | ⟨a, s⟩, rs, mem⟩ ds_le rs_le <;> simp only [List.length_cons] at ds_le rs_le
  · rfl
  · by_cases room : s.length + 1 < 1024
    · have fit : s.length + 1 + 1 ≤ 1024 := room
      simp [room, fit, rs_le]
    · simp (disch := omega) [if_neg]

lemma DROP_comments : Comments .DROP drop := by
  refine .of_refines (popData_refines.bind fun _ => .pure ()) ?_
  rintro ⟨_ | ⟨a, s⟩, rs, mem⟩ ds_le rs_le <;> simp only [List.length_cons] at ds_le rs_le
  · rfl
  · simp (disch := omega) [if_pos, rs_le]

lemma SWAP_comments : Comments .SWAP swap := by
  refine .of_refines (popData_refines.bind fun a => popData_refines.bind fun b =>
    (pushData_refines a).bind fun _ => pushData_refines b) ?_
  rintro ⟨_ | ⟨b, _ | ⟨a, s⟩⟩, rs, mem⟩ ds_le rs_le <;> simp only [List.length_cons] at ds_le rs_le
  · rfl
  · rfl
  · simp (disch := omega) [if_pos]

lemma OVER_comments : Comments .OVER «over» := by
  refine .of_refines (popData_refines.bind fun b => peekData_refines.bind fun a =>
    (pushData_refines b).bind fun _ => pushData_refines a) ?_
  rintro ⟨_ | ⟨b, _ | ⟨a, s⟩⟩, rs, mem⟩ ds_le rs_le <;> simp only [List.length_cons] at ds_le rs_le
  · rfl
  · rfl
  · by_cases room : s.length + 2 < 1024
    · simp (disch := omega) [if_pos]
    · simp (disch := omega) [if_pos, if_neg]

lemma ROT_comments : Comments .ROT rot := by
  refine .of_refines (popData_refines.bind fun c => popData_refines.bind fun b =>
    popData_refines.bind fun a => (pushData_refines b).bind fun _ =>
    (pushData_refines c).bind fun _ => pushData_refines a) ?_
  rintro ⟨_ | ⟨c, _ | ⟨b, _ | ⟨a, s⟩⟩⟩, rs, mem⟩ ds_le rs_le <;>
    simp only [List.length_cons] at ds_le rs_le
  · rfl
  · rfl
  · rfl
  · simp (disch := omega) [if_pos]

lemma NROT_comments : Comments .NROT neg_rot := by
  refine .of_refines (popData_refines.bind fun c => popData_refines.bind fun b =>
    popData_refines.bind fun a => (pushData_refines c).bind fun _ =>
    (pushData_refines a).bind fun _ => pushData_refines b) ?_
  rintro ⟨_ | ⟨c, _ | ⟨b, _ | ⟨a, s⟩⟩⟩, rs, mem⟩ ds_le rs_le <;>
    simp only [List.length_cons] at ds_le rs_le
  · rfl
  · rfl
  · rfl
  · simp (disch := omega) [if_pos]

lemma NIP_comments : Comments .NIP nip := by
  refine .of_refines (popData_refines.bind fun a => popData_refines.bind fun _ =>
    pushData_refines a) ?_
  rintro ⟨_ | ⟨b, _ | ⟨a, s⟩⟩, rs, mem⟩ ds_le rs_le <;> simp only [List.length_cons] at ds_le rs_le
  · rfl
  · rfl
  · simp (disch := omega) [if_pos]

lemma TUCK_comments : Comments .TUCK tuck := by
  refine .of_refines (popData_refines.bind fun a => popData_refines.bind fun b =>
    (pushData_refines a).bind fun _ => (pushData_refines b).bind fun _ => pushData_refines a) ?_
  rintro ⟨_ | ⟨b, _ | ⟨a, s⟩⟩, rs, mem⟩ ds_le rs_le <;> simp only [List.length_cons] at ds_le rs_le
  · rfl
  · rfl
  · by_cases room : s.length + 2 < 1024
    · simp (disch := omega) [if_pos]
    · simp (disch := omega) [if_pos, if_neg]

lemma TOR_comments : Comments .TOR (do pushReturn (← popData)) := by
  refine .of_refines (popData_refines.bind pushReturn_refines) ?_
  rintro ⟨_ | ⟨a, s⟩, rs, mem⟩ ds_le rs_le <;> simp only [List.length_cons] at ds_le rs_le
  · rfl
  · by_cases room : rs.length < 1024
    · simp (disch := omega) [if_pos]
    · simp (disch := omega) [if_neg]

lemma FROMR_comments : Comments .FROMR (do pushData (← popReturn)) := by
  refine .of_refines (popReturn_refines.bind pushData_refines) ?_
  rintro ⟨ds, _ | ⟨a, r⟩, mem⟩ ds_le rs_le <;> simp only [List.length_cons] at ds_le rs_le
  · rfl
  · by_cases room : ds.length < 1024
    · simp (disch := omega) [if_pos]
    · simp (disch := omega) [if_neg]

lemma RFETCH_comments : Comments .RFETCH (do pushData (← peekReturn)) := by
  refine .of_refines (peekReturn_refines.bind pushData_refines) ?_
  rintro ⟨ds, _ | ⟨a, r⟩, mem⟩ ds_le rs_le <;> simp only [List.length_cons] at ds_le rs_le
  · rfl
  · by_cases room : ds.length < 1024
    · simp (disch := omega) [if_pos]
    · simp (disch := omega) [if_neg]

/-- Every word of the interpreter that leaves no flag does what the stack comment of the kernel's
    word says. -/
lemma word_comments (plain : w.name ∉ COMPARISONS) (h : (primitiveOf w).body = some op) :
    Comments w op := by
  cases w with
  | EQUALS | NOTEQUALS | LESSTHAN | GREATERTHAN | ZEROEQ | ZEROLT =>
    exact absurd ((name_mem _).mpr (by decide)) plain
  | PLUS | MINUS | MUL | BITAND | BITOR =>
    cases h
    exact .of_binop _ fun s r => ⟨rfl, fun _ => rfl, fun _ _ => rfl⟩
  | NEGATE | ABS | ONEPLUS | ONEMINUS | BITINVERT =>
    cases h
    exact .of_unop _ fun s r => ⟨rfl, fun _ => rfl⟩
  | DUP => cases h; exact DUP_comments
  | DROP => cases h; exact DROP_comments
  | SWAP => cases h; exact SWAP_comments
  | OVER => cases h; exact OVER_comments
  | ROT => cases h; exact ROT_comments
  | NROT => cases h; exact NROT_comments
  | NIP => cases h; exact NIP_comments
  | TUCK => cases h; exact TUCK_comments
  | TOR => cases h; exact TOR_comments
  | FROMR => cases h; exact FROMR_comments
  | RFETCH => cases h; exact RFETCH_comments

end Words

/-! ## Words and programs -/

section Programs

/-- What the interpreter comes to where the reference semantics comes to the verdict; `full` tells
    that the kernel's return stack may not suffice. -/
def Answers (full : Prop) (base : List ℤ) (mem : ℤ → ℤ) :
    Verdict → EStateM.Result PyError ForthService Unit → Prop
  | .ok ds rs, r => ∃ f, r = .ok () f ∧ f.data.contents = ⟨ds, rs ++ base, mem⟩
  | .fault e, r => (∃ f, r = .error e f) ∨ e = .stackOverflow ∧ full
  | .diverges, _ => True

/-- The action of the interpreter does what the reference semantics says, on any stacks on which the
    depth of the own return stack afterwards is known. -/
def Agrees (leaves : ℕ → Option ℕ) (reach : ℕ → ℕ)
    (reference : List ℤ → List ℤ → ℕ → Option Verdict) (act : Action Unit) : Prop :=
  ∀ (f : ForthService) own base below depth, f.data.contents.rs = own ++ base →
    leaves own.length = some depth → base.length ≤ below →
    ∃ v, reference f.data.contents.ds own below = some v ∧
      Answers (1024 < below + reach own.length) base f.data.contents.mem v (act f) ∧
      ∀ ds rs, v = .ok ds rs → rs.length = depth

variable {name : PyStr} {names : List PyStr} {w : StackWord} {env : Env}

lemma Answers.mono {full full' : Prop} {base : List ℤ} {mem : ℤ → ℤ} {v : Verdict}
    {r : EStateM.Result PyError ForthService Unit} (imp : full → full')
    (h : Answers full base mem v r) : Answers full' base mem v r := by
  cases v with
  | ok ds rs => exact h
  | fault e => exact h.imp_right fun ⟨overflow, short⟩ => ⟨overflow, imp short⟩
  | diverges => trivial

/-- The interpreter's callable of a word on the stacks. -/
lemma found_word (w : StackWord) :
    build_minimal_dictionary.lookup w.name = some (.primitive (primitiveOf w)) := by
  cases w <;> decide +kernel

/-- Words on the stacks. -/
lemma stackWord_agrees (plain : w.name ∉ COMPARISONS) :
    Agrees w.returnDepth (fun depth => (w.returnDepth depth).getD depth)
      (fun ds rs below => some (w.verdict ds rs below)) ((primitiveOf w).call []) := by
  intro f own base below depth split leaves le
  refine ⟨_, rfl, ?_, fun ds rs e => StackWord.comment_depth leaves (StackWord.verdict_ok e).1⟩
  cases body : (primitiveOf w).body with
  | none => cases w <;> cases body
  | some op =>
    have comments := word_comments plain body f.data
    rw [split, StackWord.comment_append leaves] at comments
    simp only [call_body body, leaves, Option.getD_some, StackWord.verdict]
    cases comment : w.comment f.data.contents.ds own with
    | none =>
      rw [comment] at comments
      obtain ⟨q, run⟩ := comments
      refine .inl ⟨{ f with data := q }, ?_⟩
      rw [ForthService.onData, run]
    | some left =>
      obtain ⟨ds', rs'⟩ := left
      have leaves' := StackWord.comment_depth leaves comment
      simp only [comment, Option.map_some, commented, List.length_append] at comments
      simp only
      by_cases endless : w.Endless f.data.contents.ds
      · rw [if_pos endless]
        trivial
      · rw [if_neg endless]
        by_cases fit : ds'.length ≤ 1024 ∧ below + rs'.length ≤ 1024
        · rw [if_pos fit]
          rw [if_pos ⟨fit.1, by omega⟩] at comments
          obtain ⟨q, run, contents⟩ := comments
          refine ⟨{ f with data := q }, ?_, contents⟩
          rw [ForthService.onData, run]
        · rw [if_neg fit]
          by_cases short : below + rs'.length ≤ 1024
          · rw [if_neg fun h => fit ⟨h.1, short⟩] at comments
            obtain ⟨q, run⟩ := comments
            refine .inl ⟨{ f with data := q }, ?_⟩
            rw [ForthService.onData, run]
          · exact .inr ⟨rfl, by omega⟩

/-- Words one after the other. -/
lemma names_agree {act : PyStr → Action Unit}
    (each : ∀ name ∈ names,
      Agrees (wordDepth env name) (wordReach env name) (Kernel.call env name) (act name)) :
    Agrees (itemsDepth env (names.map .word))
      (itemsReach (wordReach env) (wordDepth env) (names.map .word))
      (runItems (Kernel.call env) (names.map .word)) (names.forM act) := by
  intro f own base below depth split leaves le
  induction names generalizing f own with
  | nil =>
    obtain rfl := Option.some.inj leaves
    refine ⟨.ok f.data.contents.ds own, rfl, ⟨f, rfl, ?_⟩, ?_⟩
    · exact Contents.ext rfl split rfl
    · intro ds rs e
      cases e
      rfl
  | cons name names ih =>
    obtain ⟨first, others⟩ := List.forall_mem_cons.mp each
    obtain ⟨depth₁, one, rest⟩ := Option.bind_eq_some_iff.mp leaves
    obtain ⟨v, reference, answers, left⟩ := first f own base below depth₁ split one le
    have shape : (name :: names).forM act f = (act name >>= fun _ => names.forM act) f := rfl
    have reach :
        itemsReach (wordReach env) (wordDepth env) (.word name :: names.map .word) own.length =
          max (wordReach env name own.length)
            (itemsReach (wordReach env) (wordDepth env) (names.map .word) depth₁) := by
      rw [itemsReach, one]
    rw [List.map_cons, runItems, reference, shape, reach]
    cases v with
    | ok ds rs =>
      obtain ⟨f', run, contents⟩ := answers
      obtain rfl := left ds rs rfl
      rw [bind_ok run]
      have ds' : f'.data.contents.ds = ds := by rw [contents]
      have rs' : f'.data.contents.rs = rs ++ base := by rw [contents]
      have mem' : f'.data.contents.mem = f.data.contents.mem := by rw [contents]
      obtain ⟨v', reference', answers', left'⟩ := ih others f' rs rs' rest
      rw [ds'] at reference'
      rw [mem'] at answers'
      exact ⟨v', reference', answers'.mono fun short => by omega, left'⟩
    | fault e =>
      refine ⟨.fault e, rfl, ?_, fun ds rs e => by cases e⟩
      rcases answers with ⟨f', run⟩ | ⟨overflow, short⟩
      · exact .inl ⟨f', bind_error run⟩
      · exact .inr ⟨overflow, by omega⟩
    | diverges => exact ⟨.diverges, rfl, trivial, fun ds rs e => by cases e⟩

/-- The names of the CODE words denote the words on the stacks. -/
lemma code_agrees {words : List CodeWordDto} (plain : name ∉ COMPARISONS) :
    Agrees (wordDepth (words.map .code) name) (wordReach (words.map .code) name)
      (Kernel.call (words.map .code) name) (bound [] name) := by
  induction words with
  | nil =>
    intro f own base below depth split leaves le
    cases leaves
  | cons k words ih =>
    intro f own base below depth split leaves le
    by_cases same : k.name = name
    · have depths : ∀ depth, wordDepth (.code k :: words.map .code) name depth =
          (StackWord.ofName? name).bind (·.returnDepth depth) := fun depth => if_pos same
      have reaches : wordReach (.code k :: words.map .code) name own.length =
          (wordDepth (.code k :: words.map .code) name own.length).getD own.length := if_pos same
      have calls : ∀ ds rs below, Kernel.call (.code k :: words.map .code) name ds rs below =
          (StackWord.ofName? name).map (·.verdict ds rs below) := fun ds rs below => if_pos same
      rw [List.map_cons, depths] at leaves
      rw [List.map_cons, reaches, depths, calls]
      obtain ⟨w, known, leaves'⟩ := Option.bind_eq_some_iff.mp leaves
      obtain rfl := StackWord.name_of_ofName? known
      have act : bound [] w.name = (primitiveOf w).call [] := by rw [bound, found_word]
      rw [act, known]
      exact stackWord_agrees plain f own base below depth split leaves' le
    · have reaches : wordReach (.code k :: words.map .code) name =
          wordReach (words.map .code) name := funext fun depth => if_neg same
      have calls : Kernel.call (.code k :: words.map .code) name =
          Kernel.call (words.map .code) name :=
        funext fun ds => funext fun rs => funext fun below => if_neg same
      rw [List.map_cons, wordDepth, if_neg same] at leaves
      rw [List.map_cons, reaches, calls]
      exact ih f own base below depth split leaves le

/-- A colon word whose body agrees. -/
lemma colon_agrees {k : ColonWordDto} {act : PyStr → Action Unit}
    (balanced : Balanced env (k.words.map .word))
    (body : Agrees (itemsDepth env (k.words.map .word))
      (itemsReach (wordReach env) (wordDepth env) (k.words.map .word))
      (runItems (Kernel.call env) (k.words.map .word)) (k.words.forM act)) :
    Agrees (wordDepth (.colon k :: env) k.name) (wordReach (.colon k :: env) k.name)
      (Kernel.call (.colon k :: env) k.name) (k.words.forM act) := by
  intro f own base below depth split leaves le
  rw [wordDepth, if_pos rfl] at leaves
  obtain rfl := Option.some.inj leaves
  rw [wordReach, if_pos rfl, Kernel.call, if_pos rfl]
  by_cases room : below + own.length < 1024
  · have le' : (own ++ base).length ≤ below + own.length + 1 := by
      rw [List.length_append]
      omega
    obtain ⟨v, reference, answers, left⟩ :=
      body f [] (own ++ base) (below + own.length + 1) 0 split balanced le'
    rw [if_pos room, reference]
    refine ⟨v.leave own, rfl, ?_, fun ds rs e => ?_⟩
    · cases v with
      | ok ds rs =>
        obtain rfl := List.eq_nil_of_length_eq_zero (left ds rs rfl)
        exact answers
      | fault e =>
        refine answers.mono fun short => ?_
        simp only [List.length_nil] at short
        omega
      | diverges => trivial
    · cases v <;> cases e
      rfl
  · rw [if_neg room]
    exact ⟨_, rfl, .inr ⟨rfl, by omega⟩, fun ds rs e => by cases e⟩

/-- Every name does in the interpreter what the reference semantics says, where the names in a body
    stand for the words before it. -/
lemma bound_agrees {words : List CodeWordDto} {colon_words : List ColonWordDto}
    (sound : Sound (colon_words.map .colon ++ words.map .code))
    (bodies : ∀ k ∈ colon_words, ∀ name ∈ k.words, name ∉ COMPARISONS)
    (plain : name ∉ COMPARISONS) :
    let env : Env := colon_words.map .colon ++ words.map .code
    Agrees (wordDepth env name) (wordReach env name) (Kernel.call env name)
      (bound colon_words name) := by
  induction colon_words generalizing name with
  | nil => exact code_agrees plain
  | cons k colon_words ih =>
    obtain ⟨-, balanced, sound⟩ := sound
    obtain ⟨body, bodies⟩ := List.forall_mem_cons.mp bodies
    by_cases same : name = k.name
    · subst same
      have act : bound (k :: colon_words) k.name = k.words.forM (bound colon_words) := if_pos rfl
      rw [act]
      exact colon_agrees balanced (names_agree fun name mem => ih sound bodies (body name mem))
    · have act : bound (k :: colon_words) name = bound colon_words name := if_neg same
      have other : k.name ≠ name := fun e => same e.symm
      have agrees := ih sound bodies plain
      intro env f own base below depth split leaves le
      rw [act]
      have leaves' := agrees f own base below depth split
      simp only [env, List.map_cons, List.cons_append, wordDepth, wordReach, Kernel.call,
        if_neg other] at leaves ⊢
      exact leaves' leaves le

lemma define_data (s : ForthService) (words : List ColonWordDto) :
    (define s words).data = s.data := by
  induction words generalizing s with
  | nil => rfl
  | cons w words ih => exact ih _

/-- The names of a program, run by the interpreter that has the colon words. -/
lemma program_agrees {colon_words : List ColonWordDto} (data : DataPath) (registers : PyStr → ℤ)
    (sound : Sound (envOf colon_words)) (balanced : Balanced (envOf colon_words) (names.map .word))
    (keeps : KeepsNames colon_words)
    (bodies : ∀ k ∈ colon_words, ∀ name ∈ k.words, name ∉ COMPARISONS)
    (plain : ∀ name ∈ names, name ∉ COMPARISONS) :
    ∃ fuel r v,
      execute_words (call fuel) names (define (.init data registers) colon_words) = within r ∧
      runItems (Kernel.call (envOf colon_words)) (names.map .word) data.contents.ds []
        data.contents.rs.length = some v ∧
      Answers (1024 < data.contents.rs.length +
        itemsReach (wordReach (envOf colon_words)) (wordDepth (envOf colon_words))
          (names.map .word) 0)
        data.contents.rs data.contents.mem v r ∧
      ∀ ds rs, v = .ok ds rs → rs = [] := by
  have env : envOf colon_words =
      colon_words.reverse.map .colon ++ CODE_WORDS.reverse.map .code := by
    rw [envOf, KernelBuilder.specs, List.reverse_append, List.map_reverse, List.map_reverse]
  rw [env] at sound balanced ⊢
  let f := define (.init data registers) colon_words
  have runs : ∃ trace, Runs f names trace (names.forM (bound colon_words.reverse) f) :=
    runs_names keeps
  obtain ⟨fuel, run⟩ := execute_iff.mpr runs
  have each : ∀ name ∈ names, _ := fun name mem => bound_agrees sound
    (fun k mem' => bodies k (List.mem_reverse.mp mem')) (plain name mem)
  have init : f.data = data := define_data ..
  obtain ⟨v, reference, answers, left⟩ := names_agree each f [] data.contents.rs
    data.contents.rs.length 0 (by rw [init]; rfl) balanced (Nat.le_refl _)
  rw [init] at reference answers
  exact ⟨fuel, _, v, run, reference, answers, fun ds rs e =>
    List.eq_nil_of_length_eq_zero (left ds rs e)⟩

/-- The emulator's run ends as the interpreter's result: with the same stacks, or with the same
    exception. -/
def EndsAs (s : EmulatorService) : EStateM.Result PyError ForthService Unit → Prop
  | .ok _ f => ∃ s', Halts EmulatorService.advance s s' ∧ (view s').ds = f.data.contents.ds ∧
      (view s').rs = f.data.contents.rs
  | .error e _ => Fails EmulatorService.advance s e

/-- A program of names over colon words, none of which takes over a name that is in use, run by the
    interpreter and compiled for the emulator on the same stacks. The interpreter always comes to a
    result. The emulator ends with the same stacks or the same exception, unless the reference
    semantics says that a multiplication runs forever, or that the return stack overflows, which the
    cells that it takes for the colon words that are entered may cause. -/
theorem programs_agree [UnicodeData] {colon_words : List ColonWordDto}
    (sound : Sound (envOf colon_words)) (balanced : Balanced (envOf colon_words) (names.map .word))
    (keeps : KeepsNames colon_words)
    (bodies : ∀ k ∈ colon_words, ∀ name ∈ k.words, name ∉ COMPARISONS)
    (plain : ∀ name ∈ names, name ∉ COMPARISONS)
    {m m' : MachineMemory} {image : KernelImageDto}
    (run : KernelBuilder.buildFresh colon_words (bootThread (names.map .word)) m = .ok image m')
    (top : m'.cell DP_ADDR ≤ DICTIONARY_TOP) (s : EmulatorService)
    (same : ∀ i, 0 ≤ i → i < DICTIONARY_TOP → s.data.memory.cell i = m'.cell i)
    (registers : PyStr → ℤ) :
    ∃ fuel r,
      execute_words (call fuel) names (define (.init s.data registers) colon_words) = within r ∧
      let reference := runItems (Kernel.call (envOf colon_words)) (names.map .word)
        s.data.contents.ds [] s.data.contents.rs.length
      (EndsAs (boot s image) r ∨
        reference = some .diverges ∧ Diverges EmulatorService.advance (boot s image) ∨
        reference = some (.fault .stackOverflow) ∧
          Fails EmulatorService.advance (boot s image) .stackOverflow ∧
          1024 < s.data.contents.rs.length + itemsReach (wordReach (envOf colon_words))
            (wordDepth (envOf colon_words)) (names.map .word) 0) := by
  obtain ⟨fuel, r, v, result, reference, answers, empty⟩ :=
    program_agrees s.data registers sound balanced keeps bodies plain
  obtain ⟨d, word_cfas, cells, installed, hb, rfl, holds, there, fits⟩ := built run top same
  obtain ⟨v', reference', ends⟩ := boot_runs s installed sound balanced hb holds there fits
  obtain rfl := Option.some.inj (reference.symm.trans reference')
  refine ⟨fuel, r, result, ?_⟩
  intro verdict
  cases v with
  | ok ds rs =>
    obtain rfl := empty ds rs rfl
    obtain ⟨f, rfl, contents⟩ := answers
    obtain ⟨s', halts, ds', rs'⟩ := ends
    refine .inl ⟨s', halts, ?_, ?_⟩
    · rw [ds', contents]
    · rw [rs', contents]
      rfl
  | fault e =>
    rcases answers with ⟨f, rfl⟩ | ⟨rfl, short⟩
    · exact .inl ends
    · exact .inr (.inr ⟨reference, ends, short⟩)
  | diverges => exact .inr (.inl ⟨reference, ends⟩)

section Instances

attribute [local instance] UnicodeData.ascii

/-- `TWICE` on a stack of one cell. -/
theorem programs_agree_twice :
    let words : List ColonWordDto := [⟨"TWICE", ["DUP", "+"], false⟩]
    ∃ image m' fuel r,
      KernelBuilder.buildFresh words (bootThread [.word "TWICE"]) (.zeroed MEMORY_SIZE.toNat) =
        .ok image m' ∧
      let data : DataPath := ⟨m', ⟨3071, by decide, by decide⟩, .init _ _⟩
      execute_words (call fuel) ["TWICE"] (define (.init data fun _ => 0) words) = within r ∧
      EndsAs (boot { idle m' with data := data } image) r := by
  intro words
  have env : envOf words = .colon ⟨"TWICE", ["DUP", "+"], false⟩ :: envOf [] := by
    simp [words, envOf, KernelBuilder.specs]
  have sound : Sound (envOf words) := by
    rw [env]
    exact ⟨by decide +kernel, by decide +kernel, sound_code_words⟩
  have resolvable : Resolvable words (bootThread [.word "TWICE"]) :=
    ⟨by decide +kernel, by decide +kernel⟩
  have keeps : KeepsNames words := ⟨by decide +kernel, trivial⟩
  obtain ⟨image, m', run, dp⟩ := builds 318 resolvable (by decide +kernel) (by decide)
  have lay := Layout.values
  obtain ⟨fuel, r, result, ends⟩ := @programs_agree ["TWICE"] _ words sound (by decide +kernel)
    keeps (by decide +kernel) (by decide +kernel) _ m' image run (by omega)
    { idle m' with data := ⟨m', ⟨3071, by decide, by decide⟩, .init _ _⟩ } (fun _ _ _ => rfl)
    fun _ => 0
  refine ⟨image, m', fuel, r, run, result, ?_⟩
  have reference : runItems (Kernel.call (envOf words)) [.word "TWICE"] [m'.cell 3071] [] 0 =
      some (.ok [m'.cell 3071 + m'.cell 3071] []) := rfl
  rcases ends with ends | ⟨diverges, -⟩ | ⟨overflows, -⟩
  · exact ends
  · cases reference.symm.trans diverges
  · cases reference.symm.trans overflows

end Instances

end Programs

end MinCpuForth.Forth
