import MinCpuForth.Lib.Machine

/-!
# Machines that implement coarser ones

A machine implements a coarser one if it goes through each step of the other in one or more steps of
its own. Runs of the coarser machine are then runs of the machine, and where the coarser machine
never comes to a state of which it knows nothing, the two end alike.
-/

namespace MinCpuForth.Lib

variable {ε σ τ : Type*} {step : σ → Outcome ε σ} {step' : τ → Outcome ε τ} {s t u : σ} {v w : τ}
  {e e' : ε}

section Ends

/-- A run ends where there is no next state. -/
lemma Reaches.stuck (r : Reaches step s t) (last : ∀ x, step s ≠ .next x) : s = t := by
  rcases Relation.ReflTransGen.cases_head r with rfl | ⟨x, next, -⟩
  · rfl
  · exact absurd next (last x)

/-- Every state of a run leads to its end. -/
lemma Reaches.to_end (r : Reaches step s t) (r' : Reaches step s u)
    (last : ∀ x, step u ≠ .next x) : Reaches step t u := by
  cases r.total r' with
  | inl later => exact later
  | inr earlier =>
    obtain rfl := earlier.stuck last
    exact .refl

/-- A run has one end at most. -/
lemma Reaches.end_unique (r : Reaches step s t) (r' : Reaches step s u)
    (last : ∀ x, step t ≠ .next x) (last' : ∀ x, step u ≠ .next x) : t = u :=
  (r.to_end r' last').stuck last

/-- What is left of a run that halts. -/
lemma Halts.rest (h : Halts step s u) (r : Reaches step s t) : Halts step t u := by
  obtain ⟨r', stop⟩ := h
  refine ⟨r.to_end r' fun x next => ?_, stop⟩
  cases next.symm.trans stop

/-- What is left of a run that fails. -/
lemma Fails.rest (h : Fails step s e) (r : Reaches step s t) : Fails step t e := by
  obtain ⟨u, r', f⟩ := h
  refine ⟨u, r.to_end r' fun x next => ?_, f⟩
  cases next.symm.trans f

/-- A run that halts does not fail. -/
lemma Halts.not_fails (h : Halts step s t) : ¬Fails step s e := by
  intro f
  obtain ⟨u, r, f⟩ := f.rest h.1
  obtain rfl := r.stuck fun x next => by cases next.symm.trans h.2
  cases f.symm.trans h.2

/-- A run fails with one error at most. -/
lemma Fails.unique (h : Fails step s e) (h' : Fails step s e') : e = e' := by
  obtain ⟨t, r, f⟩ := h
  obtain ⟨u, r', f'⟩ := h'
  obtain rfl := r.end_unique r' (fun x next => by cases next.symm.trans f)
    fun x next => by cases next.symm.trans f'
  cases f.symm.trans f'
  rfl

/-- A diverging run does not fail. -/
lemma Diverges.not_fails (d : Diverges step s) : ¬Fails step s e := by
  rintro ⟨u, r, f⟩
  obtain ⟨x, next⟩ := d u r
  cases f.symm.trans next

/-- The machine knows what happens in every state that it comes to. -/
def Known (step : σ → Outcome ε σ) (s : σ) : Prop := Always (fun t => step t ≠ .unknown) step s

/-- A run that halts is known. -/
lemma Halts.known (h : Halts step s t) : Known step s := by
  intro u r e
  rcases Relation.ReflTransGen.cases_head (h.rest r).1 with rfl | ⟨x, next, -⟩
  · cases h.2.symm.trans e
  · cases next.symm.trans e

/-- Such a run halts, fails or never ends. -/
lemma Known.ends (known : Known step s) :
    (∃ t, Halts step s t) ∨ (∃ e, Fails step s e) ∨ Diverges step s := by
  by_cases d : Diverges step s
  · exact .inr (.inr d)
  · obtain ⟨t, stuck⟩ := Classical.not_forall.mp d
    obtain ⟨r, last⟩ := Classical.not_imp.mp stuck
    cases out : step t with
    | next u => exact absurd ⟨u, out⟩ last
    | halt => exact .inl ⟨t, r, out⟩
    | fail e => exact .inr (.inl ⟨e, t, r, out⟩)
    | unknown => exact absurd out (known t r)

end Ends

/-- The machine goes through the steps of a coarser one, from states related by `Rel`; where the
    coarser one halts, it comes to a halted state related by `Final`. -/
structure Implements (Rel Final : σ → τ → Prop) (step : σ → Outcome ε σ)
    (step' : τ → Outcome ε τ) : Prop where
  next : ∀ s v w, Rel s v → step' v = .next w → ∃ t, Progresses step s t ∧ Rel t w
  halt : ∀ s v, Rel s v → step' v = .halt → ∃ t, Halts step s t ∧ Final t v
  fail : ∀ s v e, Rel s v → step' v = .fail e → Fails step s e

/-- The run from `s` ends as the coarser one from `v` does. -/
structure SameEnd (Final : σ → τ → Prop) (step : σ → Outcome ε σ) (step' : τ → Outcome ε τ) (s : σ)
    (v : τ) : Prop where
  halts : ∀ w, Halts step' v w → ∃ t, Halts step s t ∧ Final t w
  halted : ∀ t, Halts step s t → ∃ w, Halts step' v w ∧ Final t w
  fails : ∀ e, Fails step s e ↔ Fails step' v e
  diverges : Diverges step s ↔ Diverges step' v

/-- The same for a run that leads to `s`. -/
lemma SameEnd.before {Final : σ → τ → Prop} (h : SameEnd Final step step' s v)
    (r : Reaches step u s) : SameEnd Final step step' u v := by
  refine ⟨fun w h' => ?_, fun t h' => h.halted t (h'.rest r), fun e => ?_, ?_⟩
  · obtain ⟨t, halts, final⟩ := h.halts w h'
    exact ⟨t, r.halts halts, final⟩
  · exact ⟨fun f => (h.fails e).mp (f.rest r), fun f => r.fails ((h.fails e).mpr f)⟩
  · exact ⟨fun d => h.diverges.mp fun t r' => d t (r.trans r'),
      fun d => r.diverges (h.diverges.mpr d)⟩

namespace Implements

variable {Rel Final : σ → τ → Prop}

/-- Runs of the coarser machine. -/
lemma reaches (imp : Implements Rel Final step step') (rel : Rel s v) (r : Reaches step' v w) :
    ∃ t, Reaches step s t ∧ Rel t w := by
  induction r with
  | refl => exact ⟨s, .refl, rel⟩
  | tail _ e ih =>
    obtain ⟨t, r, rel'⟩ := ih
    obtain ⟨u, p, rel''⟩ := imp.next _ _ _ rel' e
    exact ⟨u, r.trans p.reaches, rel''⟩

/-- Runs that halt. -/
lemma halts (imp : Implements Rel Final step step') (rel : Rel s v) (h : Halts step' v w) :
    ∃ t, Halts step s t ∧ Final t w := by
  obtain ⟨t, r, rel'⟩ := imp.reaches rel h.1
  obtain ⟨u, halts, final⟩ := imp.halt _ _ rel' h.2
  exact ⟨u, r.halts halts, final⟩

/-- Runs that fail. -/
lemma fails (imp : Implements Rel Final step step') (rel : Rel s v) (h : Fails step' v e) :
    Fails step s e := by
  obtain ⟨w, r, f⟩ := h
  obtain ⟨t, r', rel'⟩ := imp.reaches rel r
  exact r'.fails (imp.fail _ _ _ rel' f)

/-- Runs that never end. -/
lemma diverges (imp : Implements Rel Final step step') (rel : Rel s v) (d : Diverges step' v) :
    Diverges step s := by
  refine .of_invariant (fun t => ∃ w, Rel t w ∧ Diverges step' w) ?_ ⟨v, rel, d⟩
  rintro t ⟨w, rel', d'⟩
  obtain ⟨x, e⟩ := d' w .refl
  obtain ⟨u, p, rel''⟩ := imp.next _ _ _ rel' e
  exact ⟨u, p, x, rel'', fun y r => d' y (.head e r)⟩

/-- Where the coarser machine always knows what happens, the two end alike. -/
lemma sameEnd (imp : Implements Rel Final step step') (rel : Rel s v) (known : Known step' v) :
    SameEnd Final step step' s v := by
  refine ⟨fun w => imp.halts rel, fun t h => ?_, fun e => ⟨fun h => ?_, imp.fails rel⟩,
    fun d => ?_, imp.diverges rel⟩
  · rcases known.ends with ⟨w, h'⟩ | ⟨e, f⟩ | d
    · obtain ⟨u, ⟨r, stop⟩, final⟩ := imp.halts rel h'
      obtain rfl := h.1.unique r h.2 stop
      exact ⟨w, h', final⟩
    · exact absurd (imp.fails rel f) h.not_fails
    · exact absurd h (imp.diverges rel d).not_halts
  · rcases known.ends with ⟨w, h'⟩ | ⟨e', f⟩ | d
    · obtain ⟨t, halts, -⟩ := imp.halts rel h'
      exact absurd h halts.not_fails
    · obtain rfl := h.unique (imp.fails rel f)
      exact f
    · exact absurd h (imp.diverges rel d).not_fails
  · rcases known.ends with ⟨w, h'⟩ | ⟨e, f⟩ | d'
    · obtain ⟨t, halts, -⟩ := imp.halts rel h'
      exact absurd halts d.not_halts
    · exact absurd (imp.fails rel f) d.not_fails
    · exact d'

end Implements

end MinCpuForth.Lib
