import MinCpuForth.Forth.Runs
import MinCpuForth.Kernel.ThreadedCode

/-!
# When names are bound

The interpreter looks the words of a body up when it runs, the kernel builder when it installs the
body. The two differ as soon as a definition takes over a name that an earlier body uses, or its
own.
-/

namespace MinCpuForth.Forth
open Python Domain Adapters Lib ForthService Kernel

/-- The names that running the words can come to, directly or through colon words. -/
inductive Reached (s : ForthService) (words : List PyStr) : PyStr → Prop where
  | word {name} : name ∈ words → Reached s words name
  | inside {name captured code name'} :
    Reached s words name → s.dictionary.lookup name = some (.colon captured) →
    s.colon_defs.lookup captured = some code → name' ∈ code →
    Reached s words name'

section Redefinition

variable {s t : ForthService} {name new captured : PyStr} {words code : List PyStr}
  {trace : List ForthService} {r : EStateM.Result PyError ForthService Unit}

/-- The words do not come to `new`, under its name or another. -/
def Apart (s : ForthService) (new : PyStr) (words : List PyStr) : Prop :=
  ∀ name, Reached s words name → name ≠ new ∧ s.dictionary.lookup name ≠ some (.colon new)

/-- Some of the words. -/
lemma Apart.sub {words' : List PyStr} (h : Apart s new words) (sub : words' ⊆ words) :
    Apart s new words' := by
  intro name reached
  apply h
  induction reached with
  | word mem => exact .word (sub mem)
  | inside _ found defined mem ih => exact .inside ih found defined mem

/-- The body of the first word. -/
lemma Apart.body (h : Apart s new (name :: words))
    (found : s.dictionary.lookup name = some (.colon captured))
    (defined : s.colon_defs.lookup captured = some code) : Apart s new code := by
  intro name' reached
  apply h
  induction reached with
  | word mem => exact .inside (.word List.mem_cons_self) found defined mem
  | inside _ found' defined' mem ih => exact .inside ih found' defined' mem

/-- What a definition does to the state that a result leaves. -/
def redefined {α : Type} (new : PyStr) (code : List PyStr) :
    EStateM.Result PyError ForthService α → EStateM.Result PyError ForthService α
  | .ok a s => .ok a (s.add_colon_def new code)
  | .error e s => .error e (s.add_colon_def new code)

lemma found_redefined (other : name ≠ new) :
    (s.add_colon_def new code).dictionary.lookup name = s.dictionary.lookup name :=
  (PyDict.lookup_setItem ..).trans (if_neg other)

lemma defined_redefined (other : captured ≠ new) :
    (s.add_colon_def new code).colon_defs.lookup captured = s.colon_defs.lookup captured :=
  (PyDict.lookup_setItem ..).trans (if_neg other)

/-- The new word. -/
lemma found_new : (s.add_colon_def new code).dictionary.lookup new = some (.colon new) :=
  (PyDict.lookup_setItem ..).trans (if_pos rfl)

lemma defined_new : (s.add_colon_def new code).colon_defs.lookup new = some code :=
  (PyDict.lookup_setItem ..).trans (if_pos rfl)

lemma onData_redefined {α : Type} (op : EStateM PyError DataPath α) (s : ForthService) :
    onData op (s.add_colon_def new code) = redefined new code (onData op s) := by
  have same : (s.add_colon_def new code).data = s.data := rfl
  unfold onData
  rw [same]
  cases op s.data <;> rfl

/-- Primitives do not look words up. -/
lemma primitive_redefined (p : Primitive) (s : ForthService) :
    p.call [] (s.add_colon_def new code) = redefined new code (p.call [] s) := by
  cases p with
  | LIT | DOCOL | BYE | NOOP => rfl
  | EXIT =>
    have popped := @onData_redefined new code _ DataPath.popReturn s
    show (onData DataPath.popReturn >>= writeRegister Register.IP) (s.add_colon_def new code) =
      redefined new code ((onData DataPath.popReturn >>= writeRegister Register.IP) s)
    cases e : onData DataPath.popReturn s with
    | ok a s₁ =>
      rw [e] at popped
      rw [bind_ok e]
      exact bind_ok popped
    | error err s₁ =>
      rw [e] at popped
      rw [bind_error e]
      exact bind_error popped
  | _ => exact onData_redefined _ s

/-- Words run as before if calls of single words do. -/
lemma words_redefined {call : Word → Action (Option Unit)}
    (same : ∀ w t, SameWords t (stateOf (call w t)))
    (agree : ∀ name w t, SameWords s t → Apart s new [name] →
      s.dictionary.lookup name = some w →
      call w (t.add_colon_def new code) = redefined new code (call w t))
    (apart : Apart s new words) (st : SameWords s t) :
    execute_words call words (t.add_colon_def new code) =
      redefined new code (execute_words call words t) := by
  induction words generalizing t with
  | nil => rfl
  | cons name words ih =>
    have other := (apart name (.word List.mem_cons_self)).1
    have lookup := @found_redefined t name new code other
    cases found : t.dictionary.lookup name with
    | none =>
      rw [found] at lookup
      rw [execute_unknown found, execute_unknown lookup]
      rfl
    | some w =>
      rw [found] at lookup
      have single : Apart s new [name] :=
        apart.sub (List.cons_subset_cons _ (List.nil_subset _))
      have called' := agree name w t st single (st.symm.found found)
      have st₁ := same w t
      cases called : call w t with
      | ok a s₁ =>
        rw [called] at called' st₁
        cases a with
        | none => rw [execute_exceeds found called, execute_exceeds lookup called']; rfl
        | some a =>
          rw [execute_completes found called, execute_completes lookup called']
          exact ih (apart.sub (List.subset_cons_self ..)) (st.trans st₁)
      | error e s₁ =>
        rw [called] at called'
        rw [execute_raises found called, execute_raises lookup called']
        rfl

/-- A call that does not come to the new word is as before. -/
lemma call_redefined (fuel : ℕ) {w : Word} (st : SameWords s t) (apart : Apart s new [name])
    (found : s.dictionary.lookup name = some w) :
    call fuel w (t.add_colon_def new code) = redefined new code (call fuel w t) := by
  induction fuel generalizing name w t with
  | zero => rfl
  | succ fuel ih =>
    cases w with
    | primitive p =>
      rw [call_primitive, call_primitive, primitive_redefined]
      cases p.call [] t <;> rfl
    | colon captured =>
      have other : captured ≠ new := by
        rintro rfl
        exact (apart name (.word List.mem_cons_self)).2 found
      have lookup := @defined_redefined t new captured code other
      cases defined : t.colon_defs.lookup captured with
      | none =>
        rw [defined] at lookup
        rw [call_missing defined, call_missing lookup]
        rfl
      | some body =>
        rw [defined] at lookup
        rw [call_colon defined, call_colon lookup]
        have inner := apart.body found (st.symm.defined defined)
        exact words_redefined (call_words_same fuel)
          (fun _ _ _ st' apart' found' => ih st' apart' found') inner st

/-- Words that do not come to the new word run as before. -/
lemma execute_redefined (fuel : ℕ) (apart : Apart s new words) :
    execute_words (call fuel) words (s.add_colon_def new code) =
      redefined new code (execute_words (call fuel) words s) :=
  words_redefined (call_words_same fuel)
    (fun _ _ _ st apart' found => call_redefined fuel st apart' found) apart .refl

/-- Wherever the new word is used, the new body runs. -/
lemma runs_new (st : SameWords (s.add_colon_def new code) t) :
    Runs t (new :: words) trace r ↔ Runs t (code ++ words) trace r := by
  have found := st.found found_new
  have defined := st.defined defined_new
  constructor
  · intro run
    cases run with
    | unknown absent => cases absent.symm.trans found
    | primitive found' _ _ => cases found'.symm.trans found
    | raises found' _ => cases found'.symm.trans found
    | missing found' absent =>
      cases found'.symm.trans found
      cases absent.symm.trans defined
    | colon found' defined' body run =>
      cases found'.symm.trans found
      cases defined'.symm.trans defined
      exact body.append run
    | inside found' defined' body =>
      cases found'.symm.trans found
      cases defined'.symm.trans defined
      exact body.error_append
  · intro run
    rcases run.append_cases with ⟨trace₁, t₁, trace₂, body, rest, rfl⟩ | ⟨e, t₁, rfl, body⟩
    · exact .colon found defined body rest
    · exact .inside found defined body

/-- A body that names its own word never completes. -/
lemma own_name_never (mem : new ∈ code) (fuel : ℕ) (st : SameWords (s.add_colon_def new code) t)
    {t' : ForthService} : call fuel (.colon new) t ≠ .ok (some ()) t' := by
  intro completes
  induction fuel generalizing t t' with
  | zero => cases completes
  | succ fuel ih =>
    rw [call_colon (st.defined defined_new)] at completes
    obtain ⟨w, u, u', same, found, called⟩ :=
      execute_words_calls (call_words_same fuel) completes mem
    cases found.symm.trans ((st.trans same).found found_new)
    exact ih (st.trans same) called

end Redefinition

/-! ## Sequences of definitions -/

section Sequences

/-- Defines colon words, one after the other. -/
def define (s : ForthService) (words : List ColonWordDto) : ForthService :=
  words.foldl (fun s w => s.add_colon_def w.name w.words) s

/-- What a name does when the names in a body stand for the words that were defined before it; the
    newest definition comes first. -/
def bound : List ColonWordDto → PyStr → Action Unit
  | [], name =>
    match build_minimal_dictionary.lookup name with
    | some (.primitive p) => p.call []
    | _ => throw (.unknownWord name)
  | w :: env, name => if name = w.name then w.words.forM (bound env) else bound env name

/-- No definition takes over a name that its own body or an earlier one uses. -/
def KeepsNames : List ColonWordDto → Prop
  | [] => True
  | w :: words =>
    (∀ name ∈ w.words, name ∉ (w :: words).map ColonWordDto.name) ∧ KeepsNames words

variable {s t : ForthService} {name : PyStr} {w : ColonWordDto}
  {words before after env : List ColonWordDto}

lemma define_append : define s (before ++ after) = define (define s before) after :=
  List.foldl_append ..

/-- Names that are not defined. -/
lemma define_other (absent : name ∉ words.map ColonWordDto.name) :
    (define s words).dictionary.lookup name = s.dictionary.lookup name ∧
      (define s words).colon_defs.lookup name = s.colon_defs.lookup name := by
  induction words generalizing s with
  | nil => exact ⟨rfl, rfl⟩
  | cons w words ih =>
    rw [List.map_cons, List.mem_cons, not_or] at absent
    obtain ⟨found, defined⟩ := @ih (s.add_colon_def w.name w.words) absent.2
    exact ⟨found.trans (found_redefined absent.1), defined.trans (defined_redefined absent.1)⟩

/-- The newest word of a name. -/
lemma define_newest (newest : w.name ∉ after.map ColonWordDto.name) :
    (define s (before ++ w :: after)).dictionary.lookup w.name = some (.colon w.name) ∧
      (define s (before ++ w :: after)).colon_defs.lookup w.name = some w.words := by
  rw [define_append]
  obtain ⟨found, defined⟩ := @define_other ((define s before).add_colon_def w.name w.words) _ _ newest
  exact ⟨found.trans found_new, defined.trans defined_new⟩

lemma KeepsNames.newer (h : KeepsNames (before ++ w :: after)) :
    ∀ name ∈ w.words, name ∉ (w :: after).map ColonWordDto.name := by
  induction before with
  | nil => exact h.1
  | cons v before ih => exact ih h.2

/-- Words one after the other, each of which runs as `act` says. -/
lemma runs_forM {act : PyStr → Action Unit} {names : List PyStr}
    (each : ∀ name ∈ names, ∀ t, SameWords s t → ∃ trace, Runs t [name] trace (act name t))
    (st : SameWords s t) : ∃ trace, Runs t names trace (names.forM act t) := by
  induction names generalizing t with
  | nil => exact ⟨[], .nil⟩
  | cons name names ih =>
    obtain ⟨first, others⟩ := List.forall_mem_cons.mp each
    obtain ⟨trace, run⟩ := first t st
    have same := run.same
    cases called : act name t with
    | ok a t₁ =>
      rw [called] at run same
      obtain ⟨trace', run'⟩ := ih others (st.trans same)
      have path : (name :: names).forM act t = names.forM act t₁ := bind_ok called
      rw [path]
      exact ⟨trace ++ trace', run.append run'⟩
    | error e t₁ =>
      rw [called] at run
      have path : (name :: names).forM act t = .error e t₁ := bind_error called
      rw [path]
      exact ⟨trace, run.error_append⟩

/-- A single primitive. -/
lemma runs_primitive {p : Primitive} (found : t.dictionary.lookup name = some (.primitive p)) :
    ∃ trace, Runs t [name] trace (p.call [] t) := by
  cases called : p.call [] t with
  | ok a t₁ => exact ⟨_, .primitive found called .nil⟩
  | error e t₁ => exact ⟨_, .raises found called⟩

/-- A single colon word. -/
lemma runs_colon {captured : PyStr} {code : List PyStr} {trace : List ForthService}
    {r : EStateM.Result PyError ForthService Unit}
    (found : t.dictionary.lookup name = some (.colon captured))
    (defined : t.colon_defs.lookup captured = some code) (run : Runs t code trace r) :
    ∃ trace, Runs t [name] trace r := by
  cases r with
  | ok a t₁ => exact ⟨_, .colon found defined run .nil⟩
  | error e t₁ => exact ⟨_, .inside found defined run⟩

/-- A name that is not defined again runs as it did before the other definitions. -/
lemma runs_bound (base : s.dictionary = build_minimal_dictionary)
    (keeps : KeepsNames (env.reverse ++ after)) (newest : name ∉ after.map ColonWordDto.name)
    (st : SameWords (define s (env.reverse ++ after)) t) :
    ∃ trace, Runs t [name] trace (bound env name t) := by
  induction env generalizing after name t with
  | nil =>
    have lookup : t.dictionary.lookup name = build_minimal_dictionary.lookup name := by
      have same : t.dictionary = (define s after).dictionary := st.dictionary
      rw [same, (define_other newest).1, base]
    cases found : build_minimal_dictionary.lookup name with
    | none =>
      have act : bound [] name t = .error (.unknownWord name) t := by
        rw [bound, found]
        rfl
      rw [act]
      exact ⟨[], .unknown (lookup.trans found)⟩
    | some word =>
      obtain ⟨p, rfl⟩ := minimal_primitive found
      have act : bound [] name = p.call [] := by rw [bound, found]
      rw [act]
      exact runs_primitive (lookup.trans found)
  | cons w env ih =>
    rw [List.reverse_cons, List.append_assoc] at keeps st
    by_cases same : name = w.name
    · subst same
      obtain ⟨found, defined⟩ := @define_newest s w env.reverse after newest
      have act : bound (w :: env) w.name = w.words.forM (bound env) := if_pos rfl
      obtain ⟨trace, run⟩ := @runs_forM _ t (bound env) w.words
        (fun name mem u su => ih keeps (keeps.newer name mem) su) st
      rw [act]
      exact runs_colon (st.found found) (st.defined defined) run
    · have act : bound (w :: env) name = bound env name := if_neg same
      rw [act]
      refine ih keeps ?_ st
      rw [List.singleton_append, List.map_cons, List.mem_cons, not_or]
      exact ⟨same, newest⟩

/-- Names, each of which has not been defined again since the other definitions. -/
lemma runs_names {data : DataPath} {registers : PyStr → ℤ} {names : List PyStr}
    (keeps : KeepsNames words) :
    ∃ trace, Runs (define (.init data registers) words) names trace
      (names.forM (bound words.reverse) (define (.init data registers) words)) := by
  have whole : words.reverse.reverse ++ [] = words := by
    rw [List.reverse_reverse, List.append_nil]
  refine runs_forM (s := define (.init data registers) words) (fun name _ t st => ?_) .refl
  rw [← whole] at keeps st
  exact runs_bound rfl keeps List.not_mem_nil st

end Sequences

/-! ## The threads of the kernel -/

section Threads

variable {n : ℕ} {m m' : ListMemoryAdapter n} {d : Dictionary} {image : KernelImageDto}
  {boot : List ThreadItemDto} {before after : List ColonWordDto} {w : ColonWordDto}

open KernelBuilder MemoryDictionaryAdapter

/-- A thread holds what its names denoted among the words before it, and so what they denote in the
    end when no later word takes them over. -/
lemma build_thread [UnicodeData] (rep : Represents m d)
    (run : build (before ++ w :: after) boot m = .ok image m') :
    ∃ hs header older, (∀ fuel, hs.length < fuel → headers fuel m' = .ok (some hs) m') ∧
      hs.drop after.length = header :: older ∧
      Compiled m'.cell older (.colon w) header ∧
      ∀ (k : ℕ) name, (w.words ++ [EXIT_WORD])[k]? = some name →
        name ∉ (w :: after).map ColonWordDto.name →
        image.word_cfas.lookup name = some (m'.cell (header.cfa + 1 + k)) := by
  obtain ⟨d', word_cfas, cells, laid, hb, rfl, rep', -⟩ := build_inv rep run
  have split : specs (before ++ w :: after) =
      (CODE_WORDS.map .code ++ before.map .colon) ++ .colon w :: after.map .colon := by
    simp [specs]
  rw [split] at laid
  obtain ⟨d₁, cfas, op, entry, placed⟩ := laidOut_placed laid
  have table := Tabulates.nil.laidOut placed.found
  have stored := rep'.stored entry placed.mem
  have newest := placed.header
  rw [List.length_map] at newest
  refine ⟨d'.entries.map Entry.header, entry.header, d₁.entries.map Entry.header, ?_, newest,
    table.compiled placed.append placed.first stored, ?_⟩
  · intro fuel enough
    rw [List.length_map] at enough
    have answer := headers_run rep' enough
    exact answer
  · intro k name known absent
    rw [List.map_cons, List.mem_cons, not_or] at absent
    have kept : word_cfas.lookup name = cfas.lookup name := by
      have other : ∀ word ∈ after.map WordSpecDto.colon, word.name ≠ name := by
        intro word mem same
        obtain ⟨v, later, rfl⟩ := List.mem_map.mp mem
        exact absent.2 (List.mem_map.mpr ⟨v, later, same⟩)
      rw [laidOut_lookup_old placed.rest other, PyDict.lookup_setItem]
      exact if_neg absent.1
    obtain ⟨thread, resolved, made⟩ := appendOf_colon placed.append
    obtain ⟨cfa, hit, found⟩ := Fallible.mapM_getElem? resolved known
    have first := placed.first
    rw [made] at first
    obtain rfl := (List.cons.inj first).1
    obtain ⟨-, -, -, -, -, thread_at⟩ := Entry.cellsAt_iff.mp stored
    obtain ⟨lt, item⟩ := List.getElem?_eq_some_iff.mp hit
    rw [kept, cfa_of_eq_ok.mp found]
    have there := thread_at.get lt
    exact congrArg some (item.symm.trans there.symm)

end Threads

/-- A definition leaves alone the words that do not come to its name. Where its name is used, the new
    body runs, in words that were defined before and in its own body too, which then never completes.
    The kernel builder binds a name when it installs the body. Both give a name the word that it
    denoted when the body was defined, as long as no definition takes over a name that its own body
    or an earlier one uses. -/
theorem names_bind_late [UnicodeData] :
    (∀ (s : ForthService) new code words, Apart s new words → ∀ fuel,
      execute_words (call fuel) words (s.add_colon_def new code) =
        redefined new code (execute_words (call fuel) words s)) ∧
    (∀ (s t : ForthService) new code words r, SameWords (s.add_colon_def new code) t →
      ((∃ fuel, execute_words (call fuel) (new :: words) t = within r) ↔
        ∃ fuel, execute_words (call fuel) (code ++ words) t = within r)) ∧
    (∀ (s t : ForthService) new code, SameWords (s.add_colon_def new code) t → new ∈ code →
      ∀ fuel t', execute_words (call fuel) [new] t ≠ .ok (some ()) t') ∧
    (∀ data registers words names, KeepsNames words → ∃ fuel,
      execute_words (call fuel) names (define (.init data registers) words) =
        within (names.forM (bound words.reverse) (define (.init data registers) words))) ∧
    (∀ {n : ℕ} {m m' : ListMemoryAdapter n} {d : Dictionary} before w after boot image,
      MemoryDictionaryAdapter.Represents m d →
      KernelBuilder.build (before ++ w :: after) boot m = .ok image m' →
      ∃ hs header older,
        (∀ fuel, hs.length < fuel →
          MemoryDictionaryAdapter.headers fuel m' = .ok (some hs) m') ∧
        hs.drop after.length = header :: older ∧
        KernelBuilder.Compiled m'.cell older (.colon w) header ∧
        ∀ (k : ℕ) name, (w.words ++ [KernelBuilder.EXIT_WORD])[k]? = some name →
          name ∉ (w :: after).map ColonWordDto.name →
          image.word_cfas.lookup name = some (m'.cell (header.cfa + 1 + k))) := by
  refine ⟨?_, ?_, ?_, ?_, ?_⟩
  · intro s new code words apart fuel
    exact execute_redefined fuel apart
  · intro s t new code words r st
    rw [execute_iff, execute_iff]
    exact exists_congr fun trace => runs_new st
  · intro s t new code st mem fuel t' completes
    obtain ⟨w, u, u', same, found, called⟩ :=
      execute_words_calls (call_words_same fuel) completes List.mem_cons_self
    cases found.symm.trans ((st.trans same).found found_new)
    exact own_name_never mem fuel (st.trans same) called
  · intro data registers words names keeps
    exact execute_iff.mpr (runs_names keeps)
  · intro n m m' d before w after boot image rep run
    exact build_thread rep run


section Instances

attribute [local instance] UnicodeData.ascii

/-- `A` duplicates, and `B` is `A A`. -/
theorem names_bind_late_twice :
    let words : List ColonWordDto := [⟨"A", ["DUP"], false⟩, ⟨"B", ["A", "A"], false⟩]
    let empty := ForthService.init oneCell fun _ => 0
    let s := define empty [⟨"A", ["DUP"], false⟩]
    (∀ fuel, execute_words (call fuel) ["A"] (s.add_colon_def (py "B") ["A", "A"]) =
      redefined "B" ["A", "A"] (execute_words (call fuel) ["A"] s)) ∧
    (∀ r, (∃ fuel, execute_words (call fuel) ["B"] (define empty words) = within r) ↔
      ∃ fuel, execute_words (call fuel) ["A", "A"] (define empty words) = within r) ∧
    (∀ fuel t', execute_words (call fuel) ["A"] (s.add_colon_def (py "A") ["A"]) ≠
      .ok (some ()) t') ∧
    (∃ fuel, execute_words (call fuel) ["B"] (define empty words) =
      within ([py "B"].forM (bound words.reverse) (define empty words))) ∧
    ∃ image m' a b, KernelBuilder.buildFresh words [.reference "BYE"]
        (.zeroed Layout.MEMORY_SIZE.toNat) = .ok image m' ∧
      image.word_cfas.lookup (py "A") = some a ∧ m'.cell b = a ∧ m'.cell (b + 1) = a := by
  intro words empty s
  have a_word : s.dictionary.lookup (py "A") = some (.colon "A") := by decide +kernel
  have a_code : s.colon_defs.lookup (py "A") = some [py "DUP"] := by decide +kernel
  have dup : s.dictionary.lookup (py "DUP") = some (.primitive .DUP) := by decide +kernel
  have reached : ∀ name, Reached s [py "A"] name → name = py "A" ∨ name = py "DUP" := by
    intro name h
    induction h with
    | word mem => exact .inl (List.mem_singleton.mp mem)
    | inside _ found defined mem ih =>
      rcases ih with rfl | rfl
      · cases found.symm.trans a_word
        cases defined.symm.trans a_code
        exact .inr (List.mem_singleton.mp mem)
      · cases found.symm.trans dup
  have apart : Apart s "B" ["A"] := by
    intro name h
    rcases reached name h with rfl | rfl
    · refine ⟨by decide +kernel, ?_⟩
      rw [a_word]
      decide +kernel
    · refine ⟨by decide +kernel, ?_⟩
      rw [dup]
      exact nofun
  have keeps : KeepsNames words := by
    refine ⟨?_, ?_, trivial⟩ <;> decide +kernel
  refine ⟨names_bind_late.1 s "B" ["A", "A"] ["A"] apart, ?_, ?_, ?_, ?_⟩
  · intro r
    exact names_bind_late.2.1 s (define empty words) "B" ["A", "A"] [] r .refl
  · exact names_bind_late.2.2.1 s _ "A" ["A"] .refl List.mem_cons_self
  · exact names_bind_late.2.2.2.1 oneCell (fun _ => 0) words ["B"] keeps
  · obtain ⟨m₀, e₀, rep, -⟩ := MemoryDictionaryAdapter.init_represents
      (.zeroed Layout.MEMORY_SIZE.toNat) (by decide)
    have resolvable : Resolvable words [.reference "BYE"] :=
      ⟨by decide +kernel, by decide +kernel⟩
    obtain ⟨image, m', run, -⟩ := builds 321 resolvable (by decide +kernel) (by decide)
    have built := run
    rw [KernelBuilder.buildFresh, bind_ok e₀] at built
    obtain ⟨hs, header, older, -, -, -, thread⟩ := names_bind_late.2.2.2.2
      [⟨"A", ["DUP"], false⟩] ⟨"B", ["A", "A"], false⟩ [] _ image rep built
    have first := thread 0 "A" rfl (by decide +kernel)
    have second := thread 1 "A" rfl (by decide +kernel)
    have same := Option.some.inj (second.symm.trans first)
    refine ⟨image, m', _, header.cfa + 1, run, first, ?_, same⟩
    rw [Int.natCast_zero, Int.add_zero]

end Instances

/-- `V` calls `N`, which does nothing until it is defined again as `DUP`. -/
theorem older_word_changes :
    let s := ((ForthService.init oneCell fun _ => 0).add_colon_def (py "N") ["IF"]).add_colon_def
      (py "V") ["N"]
    (∃ s', execute_words (call 3) ["V"] s = .ok (some ()) s' ∧ s'.data.contents.ds = [0]) ∧
    ∃ s', execute_words (call 3) ["V"] (s.add_colon_def (py "N") ["DUP"]) = .ok (some ()) s' ∧
      s'.data.contents.ds = [0, 0] := by
  intro s
  have v_word : s.dictionary.lookup (py "V") = some (.colon "V") := by decide +kernel
  have v_code : s.colon_defs.lookup (py "V") = some [py "N"] := by decide +kernel
  have n_word : s.dictionary.lookup (py "N") = some (.colon "N") := by decide +kernel
  have n_code : s.colon_defs.lookup (py "N") = some [py "IF"] := by decide +kernel
  have placeholder : s.dictionary.lookup (py "IF") = some (.primitive .NOOP) := by decide +kernel
  have single : ∀ {call : Word → Action (Option Unit)} {name w t t'},
      t.dictionary.lookup name = some w → call w t = .ok (some ()) t' →
      execute_words call [name] t = .ok (some ()) t' := fun found called =>
    execute_completes found called
  constructor
  · have nothing : call 1 (.primitive .NOOP) s = .ok (some ()) s := rfl
    have inner := (call_colon n_code).trans (single placeholder nothing)
    have outer := (call_colon v_code).trans (single n_word inner)
    exact ⟨s, single v_word outer, oneCell_ds⟩
  · have v_word' : (s.add_colon_def (py "N") ["DUP"]).dictionary.lookup (py "V") =
      some (.colon "V") := by decide +kernel
    have v_code' : (s.add_colon_def (py "N") ["DUP"]).colon_defs.lookup (py "V") =
      some [py "N"] := by decide +kernel
    have dup : (s.add_colon_def (py "N") ["DUP"]).dictionary.lookup (py "DUP") =
      some (.primitive .DUP) := by decide +kernel
    have data : (s.add_colon_def (py "N") ["DUP"]).data = oneCell := rfl
    obtain ⟨s', pushed, grown⟩ := oneCell_dup data 0
    have inner := (call_colon defined_new).trans (single dup pushed)
    have outer := (call_colon v_code').trans (single found_new inner)
    exact ⟨s', single v_word' outer, grown⟩

end MinCpuForth.Forth
