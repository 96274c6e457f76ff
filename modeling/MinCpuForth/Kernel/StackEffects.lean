import MinCpuForth.Kernel.ThreadedCode

/-!
# Stack effects

A static check of a program's stacks. It knows of every word how many cells of the data stack it
takes and leaves, follows the heights of both stacks through the bodies of the colon words, and
computes the greatest heights that occur. A program that passes runs out of operands on no machine,
leaves the cells below its own alone and does the same on whatever lies there; one that does not
pass runs out of operands on every machine that has no more cells.
-/

namespace MinCpuForth.Kernel
open Python Domain Layout Adapters Emulator Lib

/-- How many cells of the data stack a word takes, and how many it leaves. -/
def StackWord.arity : StackWord → ℕ × ℕ
  | .DUP => (1, 2) | .DROP => (1, 0) | .SWAP => (2, 2) | .OVER => (2, 3)
  | .ROT => (3, 3) | .NROT => (3, 3) | .NIP => (2, 1) | .TUCK => (2, 3)
  | .PLUS | .MINUS | .MUL | .BITAND | .BITOR => (2, 1)
  | .EQUALS | .NOTEQUALS | .LESSTHAN | .GREATERTHAN => (2, 1)
  | .NEGATE | .ABS | .ONEPLUS | .ONEMINUS | .ZEROEQ | .ZEROLT | .BITINVERT => (1, 1)
  | .TOR => (1, 0) | .FROMR => (0, 1) | .RFETCH => (0, 1)

/-- What a check tells of the data stack: the greatest height, and the height that is left; `none`
    if the stack runs out of operands. -/
structure Heights where
  peak : ℕ
  left : Option ℕ
  deriving DecidableEq, Repr

/-- The check of a word on the stacks, from a height on. -/
def StackWord.heights (w : StackWord) (height : ℕ) : Heights :=
  if w.arity.1 ≤ height then
    let left := height - w.arity.1 + w.arity.2
    ⟨max height left, some left⟩
  else ⟨height, none⟩

/-- The check of some items, given that of the words. -/
def itemsHeights (heights : PyStr → ℕ → Heights) : List Item → ℕ → Heights
  | [], height => ⟨height, some height⟩
  | .lit _ :: items, height =>
    let rest := itemsHeights heights items (height + 1)
    ⟨max (height + 1) rest.peak, rest.left⟩
  | .word name :: items, height =>
    let first := heights name height
    match first.left with
    | some left =>
      let rest := itemsHeights heights items left
      ⟨max first.peak rest.peak, rest.left⟩
    | none => first

/-- The check of the word of that name. -/
def wordHeights : Env → PyStr → ℕ → Heights
  | [], _, height => ⟨height, none⟩
  | .code w :: env, name, height =>
    if w.name = name then
      match StackWord.ofName? name with
      | some w => w.heights height
      | none => ⟨height, none⟩
    else wordHeights env name height
  | .colon w :: env, name, height =>
    if w.name = name then itemsHeights (wordHeights env) (w.words.map .word) height
    else wordHeights env name height

/-- The greatest depth of the own return stack while the items run, given what each word needs and
    leaves. -/
def itemsReach (reach : PyStr → ℕ → ℕ) (leaves : PyStr → ℕ → Option ℕ) : List Item → ℕ → ℕ
  | [], depth => depth
  | .lit _ :: items, depth => itemsReach reach leaves items depth
  | .word name :: items, depth =>
    match leaves name depth with
    | some depth' => max (reach name depth) (itemsReach reach leaves items depth')
    | none => reach name depth

/-- The greatest depth of the own return stack while the word of that name runs, with a cell for
    every colon word that is entered. -/
def wordReach : Env → PyStr → ℕ → ℕ
  | [], _, depth => depth
  | .code w :: env, name, depth =>
    if w.name = name then (wordDepth (.code w :: env) name depth).getD depth
    else wordReach env name depth
  | .colon w :: env, name, depth =>
    if w.name = name then
      depth + 1 + itemsReach (wordReach env) (wordDepth env) (w.words.map .word) 0
    else wordReach env name depth

/-- The word of that name multiplies, itself or in the words of its body. -/
def multiplies : Env → PyStr → Bool
  | [], _ => false
  | .code w :: env, name =>
    if w.name = name then StackWord.ofName? name = some .MUL else multiplies env name
  | .colon w :: env, name =>
    if w.name = name then w.words.any (multiplies env) else multiplies env name

/-- Some item multiplies. -/
def Item.multiplies (f : PyStr → Bool) : Item → Bool
  | .lit _ => false
  | .word name => f name

/-- The verdict with cells below the data stack put back. -/
def Verdict.onto (rest : List ℤ) : Verdict → Verdict
  | .ok ds rs => .ok (ds ++ rest) rs
  | other => other

/-- The verdict is as the check has foretold. -/
def Verdict.Foretold (endless : Bool) (left : Option ℕ) (depth : ℕ) : Verdict → Prop
  | .ok ds rs => left = some ds.length ∧ rs.length = depth
  | .fault e => e = .stackUnderflow ∧ left = none
  | .diverges => endless = true

namespace StackWord

variable {w : StackWord} {args rest own : List ℤ} {depth : ℕ}

/-- A stack comment does not look below the cells that the word takes. -/
lemma comment_onto (leaves : w.returnDepth own.length = some depth)
    (enough : w.arity.1 ≤ args.length) :
    ∃ outs rs, outs.length = args.length - w.arity.1 + w.arity.2 ∧
      ∀ rest, w.comment (args ++ rest) own = some (outs ++ rest, rs) := by
  refine ⟨((w.comment args own).getD ([], [])).1, ((w.comment args own).getD ([], [])).2, ?_⟩
  cases w with
  | FROMR | RFETCH =>
    cases own with
    | nil => cases leaves
    | cons a own => exact ⟨rfl, fun rest => rfl⟩
  | _ =>
    rcases args with _ | ⟨a, _ | ⟨b, _ | ⟨c, s⟩⟩⟩
    all_goals first
      | exact ⟨rfl, fun rest => rfl⟩
      | exact absurd enough (by simp [arity])

/-- With fewer cells, it has nothing to say. -/
lemma comment_short (short : ¬w.arity.1 ≤ args.length) : w.comment args own = none := by
  cases w with
  | FROMR | RFETCH => exact absurd (Nat.zero_le _) short
  | _ =>
    rcases args with _ | ⟨a, _ | ⟨b, _ | ⟨c, s⟩⟩⟩
    all_goals first
      | rfl
      | exact absurd (by simp [arity]) short

/-- Whether the multiplication ends is settled by the cells that it takes. -/
lemma endless_onto (enough : w.arity.1 ≤ args.length) (rest : List ℤ) :
    w.Endless (args ++ rest) ↔ w.Endless args := by
  apply and_congr_right
  rintro rfl
  rcases args with _ | ⟨b, _ | ⟨a, s⟩⟩
  · exact absurd enough (by simp [arity])
  · exact absurd enough (by simp [arity])
  · exact Iff.rfl

end StackWord

/-- On any cells, the reference semantics comes to a verdict that the check has foretold; with more
    cells below, and room on both stacks, the verdict is the same. -/
def Checks (endless : Bool) (heights : ℕ → Heights) (leaves : ℕ → Option ℕ) (reach : ℕ → ℕ)
    (reference : List ℤ → List ℤ → ℕ → Option Verdict) : Prop :=
  ∀ args own depth, leaves own.length = some depth →
    ∃ v : Verdict, v.Foretold endless (heights args.length).left depth ∧
      ∀ rest below, ((heights args.length).left = none → rest = []) →
        rest.length + (heights args.length).peak ≤ 1024 → below + reach own.length ≤ 1024 →
        reference (args ++ rest) own below = some (v.onto rest)

section Checks

variable {env : Env} {name : PyStr} {items : List Item}

lemma Verdict.Foretold.mono {endless endless' : Bool} {left : Option ℕ} {depth : ℕ} {v : Verdict}
    (imp : endless = true → endless' = true) (h : v.Foretold endless left depth) :
    v.Foretold endless' left depth := by
  cases v with
  | ok ds rs => exact h
  | fault e => exact h
  | diverges => exact imp h

/-- Words on the stacks. -/
lemma StackWord.checks (w : StackWord) :
    Checks (w = .MUL) w.heights w.returnDepth (fun depth => (w.returnDepth depth).getD depth)
      (fun ds rs below => some (w.verdict ds rs below)) := by
  intro args own depth leaves
  simp only [leaves, Option.getD_some, Option.some.injEq]
  by_cases enough : w.arity.1 ≤ args.length
  · obtain ⟨outs, rs, len, comment⟩ := comment_onto leaves enough
    have alone := comment []
    rw [List.append_nil, List.append_nil] at alone
    rw [heights, if_pos enough]
    by_cases endless : w.Endless args
    · refine ⟨.diverges, decide_eq_true endless.1, fun rest below _ _ _ => ?_⟩
      rw [verdict, comment]
      exact if_pos ((endless_onto enough rest).mpr endless)
    · have left := comment_depth leaves alone
      refine ⟨.ok outs rs, ⟨congrArg some len.symm, left⟩, fun rest below _ room room' => ?_⟩
      have fit : (outs ++ rest).length ≤ 1024 ∧ below + rs.length ≤ 1024 := by
        simp only [List.length_append]
        simp only at room
        omega
      rw [verdict, comment]
      simp only
      rw [if_neg (mt (endless_onto enough rest).mp endless), if_pos fit]
      rfl
  · rw [heights, if_neg enough]
    refine ⟨.fault .stackUnderflow, ⟨rfl, rfl⟩, fun rest below alone _ _ => ?_⟩
    rw [alone rfl, List.append_nil, verdict, comment_short enough]
    rfl

/-- Items one after the other. -/
lemma items_check (each : ∀ name, .word name ∈ items → Checks (multiplies env name)
      (wordHeights env name) (wordDepth env name) (wordReach env name) (call env name)) :
    Checks (items.any (Item.multiplies (multiplies env))) (itemsHeights (wordHeights env) items)
      (itemsDepth env items) (itemsReach (wordReach env) (wordDepth env) items)
      (runItems (call env) items) := by
  intro args own depth leaves
  induction items generalizing args own with
  | nil =>
    obtain rfl := Option.some.inj leaves
    exact ⟨.ok args own, ⟨rfl, rfl⟩, fun rest below _ _ _ => rfl⟩
  | cons item items ih =>
    have others := fun name mem => each name (List.mem_cons_of_mem _ mem)
    cases item with
    | lit n =>
      obtain ⟨v, foretold, run⟩ := ih others (n :: args) own leaves
      refine ⟨v, foretold, fun rest below alone room room' => ?_⟩
      simp only [itemsHeights] at room
      have low : (args ++ rest).length < 1024 := by
        rw [List.length_append]
        omega
      rw [runItems, if_pos low]
      refine run rest below alone ?_ room'
      show rest.length + (itemsHeights (wordHeights env) items (args.length + 1)).peak ≤ 1024
      omega
    | word name =>
      obtain ⟨depth₁, one, leaves⟩ := Option.bind_eq_some_iff.mp leaves
      obtain ⟨v, foretold, run⟩ := each name (.head _) args own depth₁ one
      have reach : itemsReach (wordReach env) (wordDepth env) (.word name :: items) own.length =
          max (wordReach env name own.length)
            (itemsReach (wordReach env) (wordDepth env) items depth₁) := by
        rw [itemsReach, one]
      rw [reach]
      have here : multiplies env name = true →
          (Item.word name :: items).any (Item.multiplies (multiplies env)) = true := by
        intro mul
        rw [List.any_cons, Item.multiplies, mul, Bool.true_or]
      have there : items.any (Item.multiplies (multiplies env)) = true →
          (Item.word name :: items).any (Item.multiplies (multiplies env)) = true := by
        intro mul
        rw [List.any_cons, mul, Bool.or_true]
      have heights : itemsHeights (wordHeights env) (.word name :: items) args.length =
          match (wordHeights env name args.length).left with
          | some left =>
            ⟨max (wordHeights env name args.length).peak
              (itemsHeights (wordHeights env) items left).peak,
              (itemsHeights (wordHeights env) items left).left⟩
          | none => wordHeights env name args.length := rfl
      rw [heights]
      cases v with
      | ok outs rs =>
        obtain ⟨left, rfl⟩ := foretold
        obtain ⟨v', foretold', run'⟩ := ih others outs rs leaves
        rw [left] at run ⊢
        refine ⟨v', foretold'.mono there, fun rest below alone room room' => ?_⟩
        simp only at room
        rw [runItems, run rest below (fun e => by cases e) (by omega) (by omega)]
        exact run' rest below alone (by omega) (by omega)
      | fault e =>
        obtain ⟨rfl, left⟩ := foretold
        rw [left] at run ⊢
        refine ⟨.fault .stackUnderflow, ⟨rfl, left⟩, fun rest below alone room room' => ?_⟩
        rw [runItems, run rest below (fun _ => alone left) room (by omega)]
        rfl
      | diverges =>
        refine ⟨.diverges, here foretold, fun rest below alone room room' => ?_⟩
        cases left : (wordHeights env name args.length).left with
        | none =>
          rw [left] at run alone room
          rw [runItems, run rest below (fun _ => alone left) room (by omega)]
          rfl
        | some height =>
          rw [left] at run alone room
          simp only at room
          rw [runItems, run rest below (fun e => by cases e) (by omega) (by omega)]
          rfl

/-- A colon word whose body is checked. -/
lemma colon_checks {w : ColonWordDto} (balanced : Balanced env (w.words.map .word))
    (body : Checks ((w.words.map .word).any (Item.multiplies (multiplies env)))
      (itemsHeights (wordHeights env) (w.words.map .word)) (itemsDepth env (w.words.map .word))
      (itemsReach (wordReach env) (wordDepth env) (w.words.map .word))
      (runItems (call env) (w.words.map .word))) :
    Checks (multiplies (.colon w :: env) w.name) (wordHeights (.colon w :: env) w.name)
      (wordDepth (.colon w :: env) w.name) (wordReach (.colon w :: env) w.name)
      (call (.colon w :: env) w.name) := by
  intro args own depth leaves
  rw [wordDepth, if_pos rfl] at leaves
  obtain rfl := Option.some.inj leaves
  have mul : multiplies (.colon w :: env) w.name =
      (w.words.map .word).any (Item.multiplies (multiplies env)) := by
    rw [multiplies, if_pos rfl, List.any_map]
    rfl
  rw [mul, wordHeights, if_pos rfl, wordReach, if_pos rfl]
  obtain ⟨v, foretold, run⟩ := body args [] 0 balanced
  refine ⟨v.leave own, ?_, fun rest below alone room room' => ?_⟩
  · cases v with
    | ok ds rs => exact ⟨foretold.1, rfl⟩
    | fault e => exact foretold
    | diverges => exact foretold
  · have low : below + own.length < 1024 := by omega
    have inner : below + own.length + 1 +
        itemsReach (wordReach env) (wordDepth env) (w.words.map .word) 0 ≤ 1024 := by omega
    rw [call, if_pos rfl, if_pos low, run rest _ alone room inner]
    cases v <;> rfl

/-- A name that does not denote the newest word. -/
lemma Checks.older {word : WordSpecDto} (other : word.name ≠ name)
    (h : Checks (multiplies env name) (wordHeights env name) (wordDepth env name)
      (wordReach env name) (call env name)) :
    Checks (multiplies (word :: env) name) (wordHeights (word :: env) name)
      (wordDepth (word :: env) name) (wordReach (word :: env) name) (call (word :: env) name) := by
  cases word with
  | code k | colon k =>
    have other' : k.name ≠ name := other
    intro args own depth leaves
    rw [wordDepth, if_neg other'] at leaves
    rw [multiplies, if_neg other', wordHeights, if_neg other', wordReach, if_neg other']
    obtain ⟨v, foretold, run⟩ := h args own depth leaves
    refine ⟨v, foretold, fun rest below alone room room' => ?_⟩
    rw [call, if_neg other']
    exact run rest below alone room room'

/-- Every name is checked. -/
lemma Sound.checks (sound : Sound env) (name : PyStr) : Checks (multiplies env name)
    (wordHeights env name) (wordDepth env name) (wordReach env name) (call env name) := by
  induction env generalizing name with
  | nil =>
    intro args own depth leaves
    cases leaves
  | cons word env ih =>
    cases word with
    | code k =>
      by_cases same : k.name = name
      · intro args own depth leaves
        have leaves' := leaves
        rw [wordDepth, if_pos same] at leaves'
        obtain ⟨w, known, leaves'⟩ := Option.bind_eq_some_iff.mp leaves'
        have mul : multiplies (.code k :: env) name = decide (w = .MUL) := by
          rw [multiplies, if_pos same, known]
          simp only [Option.some.injEq]
        have reach : wordReach (.code k :: env) name own.length =
            (w.returnDepth own.length).getD own.length := by
          rw [wordReach, if_pos same, leaves, leaves']
        have calls : ∀ ds rs below, call (.code k :: env) name ds rs below =
            some (w.verdict ds rs below) := by
          intro ds rs below
          rw [call, if_pos same, known]
          rfl
        obtain ⟨v, foretold, run⟩ := w.checks args own depth leaves'
        refine ⟨v, ?_, fun rest below alone room room' => ?_⟩
        · rw [mul, wordHeights, if_pos same, known]
          exact foretold
        · rw [wordHeights, if_pos same, known] at alone room
          rw [reach] at room'
          rw [calls]
          exact run rest below alone room room'
      · exact (ih sound.2 name).older same
    | colon w =>
      obtain ⟨-, balanced, sound⟩ := sound
      by_cases same : w.name = name
      · subst same
        exact colon_checks balanced (items_check fun name _ => ih sound name)
      · exact (ih sound name).older same

end Checks

/-- For every build of sound colon words and a balanced boot thread, and all operands, the check
    foretells one verdict for all machines. If the program passes, it comes back with as many cells
    as the check says, whatever lies below the operands, and leaves that alone; if it does not pass,
    the machines that have no more cells run out of operands. This needs room for the greatest
    heights that the check computes, and only a program that multiplies may run forever instead. -/
theorem checked_programs_run [UnicodeData] {colon_words : List ColonWordDto} {items : List Item}
    (sound : Sound (envOf colon_words)) (balanced : Balanced (envOf colon_words) items)
    {m m' : MachineMemory} {image : KernelImageDto}
    (run : KernelBuilder.buildFresh colon_words (bootThread items) m = .ok image m')
    (top : m'.cell DP_ADDR ≤ DICTIONARY_TOP) (args : List ℤ) :
    let env := envOf colon_words
    let heights := itemsHeights (wordHeights env) items args.length
    ∃ v : Verdict, v.Foretold (items.any (Item.multiplies (multiplies env))) heights.left 0 ∧
      ∀ (s : EmulatorService) rest,
        (∀ i, 0 ≤ i → i < DICTIONARY_TOP → s.data.memory.cell i = m'.cell i) →
        s.data.contents.ds = args ++ rest → (heights.left = none → rest = []) →
        rest.length + heights.peak ≤ 1024 →
        s.data.contents.rs.length + itemsReach (wordReach env) (wordDepth env) items 0 ≤ 1024 →
        Ends (boot s image) s.data.contents.rs (v.onto rest) := by
  intro env heights
  obtain ⟨v, foretold, verdict⟩ := items_check (fun name _ => sound.checks name) args [] 0 balanced
  refine ⟨v, foretold, fun s rest same ds alone room room' => ?_⟩
  obtain ⟨d, word_cfas, cells, installed, hb, rfl, holds, there, fits⟩ := built run top same
  obtain ⟨v', reference, ends⟩ := boot_runs s installed sound balanced hb holds there fits
  rw [ds] at reference
  obtain rfl := Option.some.inj ((verdict rest _ alone room room').symm.trans reference)
  exact ends

section Instances

attribute [local instance] UnicodeData.ascii

/-- `7 TWICE` leaves one cell. -/
theorem checked_programs_run_twice : ∃ image m' s' n,
    KernelBuilder.buildFresh [⟨"TWICE", ["DUP", "+"], false⟩]
      (bootThread [.lit 7, .word "TWICE"]) (.zeroed MEMORY_SIZE.toNat) = .ok image m' ∧
    Halts EmulatorService.advance (boot (idle m') image) s' ∧ (view s').ds = [n] := by
  have env : envOf [⟨"TWICE", ["DUP", "+"], false⟩] =
      .colon ⟨"TWICE", ["DUP", "+"], false⟩ :: envOf [] := by
    simp [envOf, KernelBuilder.specs]
  have sound : Sound (envOf [⟨"TWICE", ["DUP", "+"], false⟩]) := by
    rw [env]
    exact ⟨by decide +kernel, by decide +kernel, sound_code_words⟩
  have resolvable : Resolvable [⟨"TWICE", ["DUP", "+"], false⟩]
      (bootThread [.lit 7, .word "TWICE"]) := ⟨by decide +kernel, by decide +kernel⟩
  obtain ⟨image, m', run, dp⟩ := builds 320 resolvable (by decide +kernel) (by decide)
  have lay := Layout.values
  obtain ⟨v, foretold, ends⟩ := @checked_programs_run _ _ [.lit 7, .word "TWICE"] sound
    (by decide +kernel) _ m' image run (by omega) []
  have heights : itemsHeights (wordHeights (envOf [⟨"TWICE", ["DUP", "+"], false⟩]))
      [.lit 7, .word "TWICE"] 0 = ⟨2, some 1⟩ := by decide +kernel
  have finite : [Item.lit 7, .word "TWICE"].any (Item.multiplies
      (multiplies (envOf [⟨"TWICE", ["DUP", "+"], false⟩]))) = false := by decide +kernel
  have reach : itemsReach (wordReach (envOf [⟨"TWICE", ["DUP", "+"], false⟩]))
      (wordDepth (envOf [⟨"TWICE", ["DUP", "+"], false⟩])) [.lit 7, .word "TWICE"] 0 = 1 := by
    decide +kernel
  rw [List.length_nil, heights, finite] at foretold
  rw [List.length_nil, heights, reach] at ends
  have ended := ends (idle m') [] (fun _ _ _ => rfl) rfl (fun e => by cases e) (by decide)
    (show 0 + 1 ≤ 1024 by decide)
  cases v with
  | ok ds rs =>
    obtain ⟨s', halts, top, -⟩ := ended
    obtain ⟨n, rfl⟩ := List.length_eq_one_iff.mp (Option.some.inj foretold.1).symm
    exact ⟨image, m', s', n, run, halts, top⟩
  | fault e => cases foretold.2
  | diverges => cases foretold

end Instances

end MinCpuForth.Kernel
