import MinCpuForth.Adapters.StackCases
import MinCpuForth.Forth.Service

/-!
# Runs of words

What executing a list of words comes to, whatever the bound on the nesting of calls: a run that
completes, or one that raises an exception.
-/

namespace MinCpuForth.Forth
open Python Domain Adapters Lib ForthService

/-- Executing words from a state on comes to a result; the trace has the state after each call of a
    primitive. -/
inductive Runs : ForthService → List PyStr → List ForthService →
    EStateM.Result PyError ForthService Unit → Prop where
  | nil {s} : Runs s [] [] (.ok () s)
  | unknown {s name words} :
    s.dictionary.lookup name = none →
    Runs s (name :: words) [] (.error (.unknownWord name) s)
  | primitive {s s₁ name p words trace r} :
    s.dictionary.lookup name = some (.primitive p) → p.call [] s = .ok () s₁ →
    Runs s₁ words trace r →
    Runs s (name :: words) (s₁ :: trace) r
  | raises {s s₁ name p words e} :
    s.dictionary.lookup name = some (.primitive p) → p.call [] s = .error e s₁ →
    Runs s (name :: words) [s₁] (.error e s₁)
  | missing {s name captured words} :
    s.dictionary.lookup name = some (.colon captured) → s.colon_defs.lookup captured = none →
    Runs s (name :: words) [] (.error .keyError s)
  | colon {s s₁ name captured code words trace trace' r} :
    s.dictionary.lookup name = some (.colon captured) →
    s.colon_defs.lookup captured = some code →
    Runs s code trace (.ok () s₁) → Runs s₁ words trace' r →
    Runs s (name :: words) (trace ++ trace') r
  | inside {s s₁ name captured code words trace e} :
    s.dictionary.lookup name = some (.colon captured) →
    s.colon_defs.lookup captured = some code →
    Runs s code trace (.error e s₁) →
    Runs s (name :: words) trace (.error e s₁)

/-- A result as the interpreter gives it when the nesting stays within the bound. -/
def within : EStateM.Result PyError ForthService Unit →
    EStateM.Result PyError ForthService (Option Unit)
  | .ok () s => .ok (some ()) s
  | .error e s => .error e s

section Equations

variable {fuel : ℕ} {s s₁ : ForthService} {name captured : PyStr} {words code : List PyStr}
  {w : Word} {r : EStateM.Result PyError ForthService Unit}

lemma within_injective : Function.Injective within := by
  rintro (⟨⟨⟩, s⟩ | ⟨e, s⟩) (⟨⟨⟩, s'⟩ | ⟨e', s'⟩) h
  · cases h
    rfl
  · cases h
  · cases h
  · cases h
    rfl

/-- Calling a primitive. -/
lemma call_primitive (fuel : ℕ) (p : Primitive) (s : ForthService) :
    call (fuel + 1) (.primitive p) s = within (p.call [] s) := by
  show (p.call [] >>= fun _ => pure (some ())) s = _
  cases e : p.call [] s with
  | ok a s₁ => exact bind_ok e
  | error e' s₁ => exact bind_error e

/-- Calling a colon word. -/
lemma call_colon (defined : s.colon_defs.lookup captured = some code) :
    call (fuel + 1) (.colon captured) s = execute_words (call fuel) code s := by
  have got : (get : Action ForthService) s = .ok s s := rfl
  refine (bind_ok got).trans ?_
  rw [defined]

lemma call_missing (missing : s.colon_defs.lookup captured = none) :
    call (fuel + 1) (.colon captured) s = .error .keyError s := by
  have got : (get : Action ForthService) s = .ok s s := rfl
  refine (bind_ok got).trans ?_
  rw [missing]
  rfl

/-- A word that is not in the dictionary. -/
lemma execute_unknown {call : Word → Action (Option Unit)} (absent : s.dictionary.lookup name = none) :
    execute_words call (name :: words) s = .error (.unknownWord name) s := by
  have got : (get : Action ForthService) s = .ok s s := rfl
  refine (bind_ok got).trans ?_
  rw [absent]
  rfl

/-- A word that completes, and those after it. -/
lemma execute_completes {call : Word → Action (Option Unit)}
    (found : s.dictionary.lookup name = some w) (called : call w s = .ok (some ()) s₁) :
    execute_words call (name :: words) s = execute_words call words s₁ := by
  have got : (get : Action ForthService) s = .ok s s := rfl
  refine (bind_ok got).trans ?_
  rw [found]
  exact bind_ok called

/-- A word that raises an exception. -/
lemma execute_raises {call : Word → Action (Option Unit)} {e : PyError}
    (found : s.dictionary.lookup name = some w) (called : call w s = .error e s₁) :
    execute_words call (name :: words) s = .error e s₁ := by
  have got : (get : Action ForthService) s = .ok s s := rfl
  refine (bind_ok got).trans ?_
  rw [found]
  exact bind_error called

/-- A word that nests too deep. -/
lemma execute_exceeds {call : Word → Action (Option Unit)}
    (found : s.dictionary.lookup name = some w) (called : call w s = .ok none s₁) :
    execute_words call (name :: words) s = .ok none s₁ := by
  have got : (get : Action ForthService) s = .ok s s := rfl
  refine (bind_ok got).trans ?_
  rw [found]
  exact bind_ok called

end Equations

/-! ## The bound on the nesting -/

section Bound

variable {fuel fuel' : ℕ} {s : ForthService} {words : List PyStr} {w : Word}
  {r : EStateM.Result PyError ForthService Unit}

/-- Lists of words come to the same results if single words do. -/
lemma execute_words_mono {call call' : Word → Action (Option Unit)}
    (agree : ∀ w s r, call w s = within r → call' w s = within r)
    (h : execute_words call words s = within r) : execute_words call' words s = within r := by
  induction words generalizing s with
  | nil => exact h
  | cons name words ih =>
    cases found : s.dictionary.lookup name with
    | none =>
      rw [execute_unknown found] at h ⊢
      exact h
    | some w =>
      cases called : call w s with
      | ok a s₁ =>
        cases a with
        | none =>
          rw [execute_exceeds found called] at h
          cases r <;> cases h
        | some a =>
          have called' := agree w s (.ok () s₁) called
          rw [execute_completes found called] at h
          rw [execute_completes found called']
          exact ih h
      | error e s₁ =>
        have called' := agree w s (.error e s₁) called
        rw [execute_raises found called] at h
        rw [execute_raises found called']
        exact h

/-- A larger bound changes no result. -/
lemma call_mono (le : fuel ≤ fuel') (h : call fuel w s = within r) : call fuel' w s = within r := by
  induction fuel generalizing fuel' w s r with
  | zero => cases r <;> cases h
  | succ fuel ih =>
    obtain ⟨k, rfl⟩ : ∃ k, fuel' = k + 1 := ⟨fuel' - 1, by omega⟩
    have agree : ∀ w s r, call fuel w s = within r → call k w s = within r := fun w s r =>
      ih (Nat.le_of_succ_le_succ le)
    cases w with
    | primitive p =>
      rw [call_primitive] at h ⊢
      exact h
    | colon captured =>
      cases defined : s.colon_defs.lookup captured with
      | none =>
        rw [call_missing defined] at h ⊢
        exact h
      | some code =>
        rw [call_colon defined] at h ⊢
        exact execute_words_mono agree h

lemma execute_mono (le : fuel ≤ fuel') (h : execute_words (call fuel) words s = within r) :
    execute_words (call fuel') words s = within r :=
  execute_words_mono (fun _ _ _ => call_mono le) h

end Bound

/-! ## Runs are what the interpreter does -/

section Adequacy

variable {s s₁ : ForthService} {words words' : List PyStr} {trace trace' : List ForthService}
  {r : EStateM.Result PyError ForthService Unit}

/-- What a call comes to is what a list of one word comes to. -/
lemma execute_single {call : Word → Action (Option Unit)} {name : PyStr} {w : Word}
    (found : s.dictionary.lookup name = some w) (called : call w s = within r) :
    execute_words call [name] s = within r := by
  cases r with
  | ok a s₁ => exact execute_completes found called
  | error e s₁ => exact execute_raises found called

lemma Runs.of_execute {fuel : ℕ} (h : execute_words (call fuel) words s = within r) :
    ∃ trace, Runs s words trace r := by
  induction fuel generalizing words s r with
  | zero =>
    cases words with
    | nil =>
      obtain rfl : r = .ok () s := within_injective h.symm
      exact ⟨[], .nil⟩
    | cons name words =>
      cases found : s.dictionary.lookup name with
      | none =>
        rw [execute_unknown found] at h
        obtain rfl : r = .error (.unknownWord name) s := within_injective h.symm
        exact ⟨[], .unknown found⟩
      | some w =>
        rw [execute_exceeds found rfl] at h
        cases r <;> cases h
  | succ fuel inner =>
    induction words generalizing s r with
    | nil =>
      obtain rfl : r = .ok () s := within_injective h.symm
      exact ⟨[], .nil⟩
    | cons name words ih =>
      cases found : s.dictionary.lookup name with
      | none =>
        rw [execute_unknown found] at h
        obtain rfl : r = .error (.unknownWord name) s := within_injective h.symm
        exact ⟨[], .unknown found⟩
      | some w =>
        cases w with
        | primitive p =>
          have called := call_primitive fuel p s
          cases e : p.call [] s with
          | ok a s₁ =>
            rw [e] at called
            rw [execute_completes found called] at h
            obtain ⟨trace, run⟩ := ih h
            exact ⟨s₁ :: trace, .primitive found e run⟩
          | error err s₁ =>
            rw [e] at called
            rw [execute_raises found called] at h
            obtain rfl : r = .error err s₁ := within_injective h.symm
            exact ⟨[s₁], .raises found e⟩
        | colon captured =>
          cases defined : s.colon_defs.lookup captured with
          | none =>
            rw [execute_raises found (call_missing defined)] at h
            obtain rfl : r = .error .keyError s := within_injective h.symm
            exact ⟨[], .missing found defined⟩
          | some code =>
            have called := @call_colon fuel _ _ _ defined
            cases e : execute_words (call fuel) code s with
            | ok a s₁ =>
              rw [e] at called
              cases a with
              | none =>
                rw [execute_exceeds found called] at h
                cases r <;> cases h
              | some a =>
                rw [execute_completes found called] at h
                obtain ⟨trace, run⟩ := @inner s code (.ok () s₁) e
                obtain ⟨trace', run'⟩ := ih h
                exact ⟨trace ++ trace', .colon found defined run run'⟩
            | error err s₁ =>
              rw [e] at called
              rw [execute_raises found called] at h
              obtain rfl : r = .error err s₁ := within_injective h.symm
              obtain ⟨trace, run⟩ := @inner s code (.error err s₁) e
              exact ⟨trace, .inside found defined run⟩

lemma Runs.execute (h : Runs s words trace r) :
    ∃ fuel, execute_words (call fuel) words s = within r := by
  induction h with
  | nil => exact ⟨0, rfl⟩
  | unknown absent => exact ⟨0, execute_unknown absent⟩
  | @primitive s s₁ name p words trace r found e run ih =>
    obtain ⟨fuel, rest⟩ := ih
    have called := call_primitive fuel p s
    rw [e] at called
    refine ⟨fuel + 1, (execute_completes found called).trans ?_⟩
    exact execute_mono (Nat.le_succ fuel) rest
  | @raises s s₁ name p words err found e =>
    have called := call_primitive 0 p s
    rw [e] at called
    exact ⟨1, execute_raises found called⟩
  | missing found defined => exact ⟨1, execute_raises found (call_missing defined)⟩
  | @colon s s₁ name captured code words trace trace' r found defined run run' ih ih' =>
    obtain ⟨fuel, body⟩ := ih
    obtain ⟨fuel', rest⟩ := ih'
    have body' := execute_mono (Nat.le_max_left fuel fuel') body
    rw [← call_colon defined] at body'
    refine ⟨max fuel fuel' + 1, (execute_completes found body').trans ?_⟩
    exact execute_mono (by omega) rest
  | @inside s s₁ name captured code words trace err found defined run ih =>
    obtain ⟨fuel, body⟩ := ih
    rw [← call_colon defined] at body
    exact ⟨fuel + 1, execute_raises found body⟩

/-- The runs are the executions that end, whatever the bound. -/
lemma execute_iff : (∃ fuel, execute_words (call fuel) words s = within r) ↔
    ∃ trace, Runs s words trace r :=
  ⟨fun ⟨_, h⟩ => Runs.of_execute h, fun ⟨_, h⟩ => h.execute⟩

/-- One run after another. -/
lemma Runs.append (h : Runs s words trace (.ok () s₁)) (h' : Runs s₁ words' trace' r) :
    Runs s (words ++ words') (trace ++ trace') r := by
  generalize e : EStateM.Result.ok () s₁ = first at h
  induction h with
  | nil =>
    cases e
    exact h'
  | unknown => cases e
  | primitive found called _ ih => exact .primitive found called (ih e)
  | raises => cases e
  | missing => cases e
  | colon found defined run _ _ ih =>
    rw [List.append_assoc]
    exact .colon found defined run (ih e)
  | inside => cases e

/-- A run that raises an exception before it comes to the words that follow. -/
lemma Runs.error_append {e : PyError} (h : Runs s words trace (.error e s₁)) :
    Runs s (words ++ words') trace (.error e s₁) := by
  generalize same : EStateM.Result.error e s₁ = result at h
  induction h with
  | nil => cases same
  | unknown absent => exact .unknown absent
  | primitive found called _ ih => exact .primitive found called (ih same)
  | raises found called => exact .raises found called
  | missing found absent => exact .missing found absent
  | colon found defined run _ _ ih => exact .colon found defined run (ih same)
  | inside found defined run => exact .inside found defined run

/-- A run of two lists of words: the first completes, or raises an exception. -/
lemma Runs.append_cases (h : Runs s (words ++ words') trace r) :
    (∃ trace₁ t trace₂, Runs s words trace₁ (.ok () t) ∧ Runs t words' trace₂ r ∧
      trace = trace₁ ++ trace₂) ∨
    (∃ e t, r = .error e t ∧ Runs s words trace r) := by
  induction words generalizing s trace with
  | nil => exact .inl ⟨[], s, trace, .nil, h, rfl⟩
  | cons name words ih =>
    cases h with
    | unknown absent => exact .inr ⟨_, _, rfl, .unknown absent⟩
    | primitive found called run =>
      rcases ih run with ⟨trace₁, t, trace₂, run₁, run₂, rfl⟩ | ⟨e, t, rfl, run⟩
      · exact .inl ⟨_, t, trace₂, .primitive found called run₁, run₂, rfl⟩
      · exact .inr ⟨e, t, rfl, .primitive found called run⟩
    | raises found called => exact .inr ⟨_, _, rfl, .raises found called⟩
    | missing found absent => exact .inr ⟨_, _, rfl, .missing found absent⟩
    | colon found defined body run =>
      rcases ih run with ⟨trace₁, t, trace₂, run₁, run₂, rfl⟩ | ⟨e, t, rfl, run⟩
      · exact .inl ⟨_, t, trace₂, .colon found defined body run₁, run₂,
          (List.append_assoc ..).symm⟩
      · exact .inr ⟨e, t, rfl, .colon found defined body run⟩
    | inside found defined body => exact .inr ⟨_, _, rfl, .inside found defined body⟩

end Adequacy

/-! ## The words stay defined as they are -/

section Words

/-- The same words are defined in both states. -/
structure SameWords (s s' : ForthService) : Prop where
  dictionary : s'.dictionary = s.dictionary
  colon_defs : s'.colon_defs = s.colon_defs

variable {s s₁ s₂ : ForthService}

lemma SameWords.refl : SameWords s s := ⟨rfl, rfl⟩

lemma SameWords.trans (h : SameWords s s₁) (h' : SameWords s₁ s₂) : SameWords s s₂ :=
  ⟨h'.dictionary.trans h.dictionary, h'.colon_defs.trans h.colon_defs⟩

lemma SameWords.symm (h : SameWords s s₁) : SameWords s₁ s :=
  ⟨h.dictionary.symm, h.colon_defs.symm⟩

lemma SameWords.found (h : SameWords s s₁) {name : PyStr} {w : Word}
    (found : s.dictionary.lookup name = some w) : s₁.dictionary.lookup name = some w := by
  rw [h.dictionary]
  exact found

lemma SameWords.defined (h : SameWords s s₁) {captured : PyStr} {code : List PyStr}
    (defined : s.colon_defs.lookup captured = some code) :
    s₁.colon_defs.lookup captured = some code := by
  rw [h.colon_defs]
  exact defined

/-- The state that a result leaves. -/
def stateOf {α : Type} : EStateM.Result PyError ForthService α → ForthService
  | .ok _ s => s
  | .error _ s => s

/-- The dictionary at first holds primitives only. -/
lemma minimal_primitive {name : PyStr} {word : Word}
    (found : build_minimal_dictionary.lookup name = some word) : ∃ p, word = .primitive p := by
  obtain ⟨front, back, split, -⟩ := List.lookup_eq_some_iff.mp found
  have all : ∀ entry ∈ build_minimal_dictionary, ∃ p, entry.2 = .primitive p := by
    intro entry mem
    simp only [build_minimal_dictionary, List.mem_append, primitives, List.mem_map] at mem
    rcases mem with (((((⟨p, -, rfl⟩ | ⟨p, -, rfl⟩) | ⟨p, -, rfl⟩) | ⟨p, -, rfl⟩) | ⟨p, -, rfl⟩) |
      ⟨p, -, rfl⟩) | ⟨p, -, rfl⟩
    all_goals exact ⟨p.2, rfl⟩
  exact all (name, word) (by rw [split]; exact List.mem_append_right _ (.head _))

lemma onData_same {α : Type} (op : EStateM PyError DataPath α) (s : ForthService) :
    SameWords s (stateOf (onData op s)) := by
  unfold onData
  cases op s.data <;> exact ⟨rfl, rfl⟩

/-- No primitive defines a word. -/
lemma call_same (p : Primitive) (s : ForthService) : SameWords s (stateOf (p.call [] s)) := by
  cases p with
  | LIT | DOCOL | BYE | NOOP => exact ⟨rfl, rfl⟩
  | EXIT =>
    have popped := onData_same DataPath.popReturn s
    show SameWords s (stateOf ((onData DataPath.popReturn >>= writeRegister Register.IP) s))
    cases e : onData DataPath.popReturn s with
    | ok a s₁ =>
      rw [e] at popped
      rw [bind_ok e]
      exact ⟨popped.dictionary, popped.colon_defs⟩
    | error err s₁ =>
      rw [e] at popped
      rw [bind_error e]
      exact popped
  | _ => exact onData_same _ s

/-- No run defines a word. -/
lemma Runs.same {words : List PyStr} {trace : List ForthService}
    {r : EStateM.Result PyError ForthService Unit} (h : Runs s words trace r) :
    SameWords s (stateOf r) := by
  induction h with
  | nil => exact .refl
  | unknown => exact .refl
  | @primitive s s₁ name p words trace r found called _ ih =>
    have same := call_same p s
    rw [called] at same
    exact same.trans ih
  | @raises s s₁ name p words e found called =>
    have same := call_same p s
    rw [called] at same
    exact same
  | missing => exact .refl
  | colon _ _ _ _ ih ih' => exact ih.trans ih'
  | inside _ _ _ ih => exact ih

/-- No call defines a word, even if it nests too deep. -/
lemma execute_words_same {call : Word → Action (Option Unit)}
    (each : ∀ w s, SameWords s (stateOf (call w s))) (words : List PyStr) (s : ForthService) :
    SameWords s (stateOf (execute_words call words s)) := by
  induction words generalizing s with
  | nil => exact .refl
  | cons name words ih =>
    cases found : s.dictionary.lookup name with
    | none =>
      rw [execute_unknown found]
      exact .refl
    | some w =>
      have first := each w s
      cases called : call w s with
      | ok a s₁ =>
        rw [called] at first
        cases a with
        | none =>
          rw [execute_exceeds found called]
          exact first
        | some a =>
          rw [execute_completes found called]
          exact first.trans (ih s₁)
      | error e s₁ =>
        rw [called] at first
        rw [execute_raises found called]
        exact first

lemma call_words_same (fuel : ℕ) (w : Word) (s : ForthService) :
    SameWords s (stateOf (call fuel w s)) := by
  induction fuel generalizing w s with
  | zero => exact .refl
  | succ fuel ih =>
    cases w with
    | primitive p =>
      have same := call_same p s
      rw [call_primitive]
      cases e : p.call [] s with
      | ok a s₁ =>
        rw [e] at same
        exact same
      | error err s₁ =>
        rw [e] at same
        exact same
    | colon captured =>
      cases defined : s.colon_defs.lookup captured with
      | none =>
        rw [call_missing defined]
        exact .refl
      | some code =>
        rw [call_colon defined]
        exact execute_words_same ih code s

/-- In words that complete, every word has been called and has come back. -/
lemma execute_words_calls {call : Word → Action (Option Unit)} {words : List PyStr}
    {s s' : ForthService} (each : ∀ w s, SameWords s (stateOf (call w s)))
    (h : execute_words call words s = .ok (some ()) s') {name : PyStr} (mem : name ∈ words) :
    ∃ w t t', SameWords s t ∧ t.dictionary.lookup name = some w ∧ call w t = .ok (some ()) t' := by
  induction words generalizing s with
  | nil => cases mem
  | cons name' words ih =>
    cases found : s.dictionary.lookup name' with
    | none =>
      rw [execute_unknown found] at h
      cases h
    | some w =>
      have first := each w s
      cases called : call w s with
      | ok a s₁ =>
        rw [called] at first
        cases a with
        | none =>
          rw [execute_exceeds found called] at h
          cases h
        | some a =>
          rw [execute_completes found called] at h
          cases mem with
          | head => exact ⟨w, s, s₁, .refl, found, called⟩
          | tail _ mem =>
            obtain ⟨w', t, t', same, found', called'⟩ := ih h mem
            exact ⟨w', t, t', first.trans same, found', called'⟩
      | error e s₁ =>
        rw [execute_raises found called] at h
        cases h

end Words

section Examples

/-- One cell on the data stack, and nothing on the return stack. -/
def oneCell : DataPath := ⟨.zeroed _, ⟨3071, by decide, by decide⟩, .init _ _⟩

lemma oneCell_ds : oneCell.contents.ds = [0] := by
  decide +kernel

lemma oneCell_rs : oneCell.contents.rs = [] := rfl

/-- Calling `DUP` with one cell on the data stack. -/
lemma oneCell_dup {s : ForthService} (data : s.data = oneCell) (fuel : ℕ) :
    ∃ s', call (fuel + 1) (.primitive .DUP) s = .ok (some ()) s' ∧ s'.data.contents.ds = [0, 0] := by
  rcases oneCell.peekData_cases with ⟨a, ds, shape, peek⟩ | ⟨none, -⟩
  · rcases oneCell.pushData_cases a with ⟨-, q, push, contents⟩ | ⟨full, -⟩
    · refine ⟨{ s with data := q }, ?_, ?_⟩
      · have dup : (do DataPath.pushData (← DataPath.peekData)) oneCell = .ok () q :=
          (bind_ok peek).trans push
        have called : Primitive.DUP.call [] s = .ok () { s with data := q } := by
          show onData _ s = _
          rw [onData, data, dup]
        rw [call_primitive, called]
        rfl
      · cases oneCell_ds.symm.trans shape
        show q.contents.ds = [0, 0]
        rw [contents, oneCell_ds]
    · rw [oneCell_ds] at full
      cases full
  · cases oneCell_ds.symm.trans none

end Examples

end MinCpuForth.Forth
