import MinCpuForth.Python.Str

/-!
# Python dictionaries

The part of Python's `dict` that the services rely on: string keys, in the order in which they were
first entered. `d[key]` and `d.get(key)` are `List.lookup`.
-/

namespace MinCpuForth.Python

/-- A dictionary with string keys. -/
abbrev PyDict (α : Type) := List (PyStr × α)

namespace PyDict

variable {α : Type}

/-- `d[key] = value`. -/
def setItem : PyDict α → PyStr → α → PyDict α
  | [], key, value => [(key, value)]
  | (k, v) :: d, key, value =>
    if k = key then (k, value) :: d else (k, v) :: setItem d key value

lemma lookup_cons (d : PyDict α) (key k : PyStr) (value : α) :
    List.lookup k ((key, value) :: d) = if k = key then some value else d.lookup k := by
  by_cases e : k = key
  · simp [e]
  · rw [List.lookup_cons, beq_false_of_ne e, if_neg e]

/-- What is found after an assignment. -/
lemma lookup_setItem (d : PyDict α) (key k : PyStr) (value : α) :
    (d.setItem key value).lookup k = if k = key then some value else d.lookup k := by
  induction d with
  | nil => rw [setItem, lookup_cons]
  | cons item d ih =>
    obtain ⟨k', v⟩ := item
    rw [setItem, lookup_cons]
    split
    · rename_i e'
      subst e'
      rw [lookup_cons]
      split <;> rfl
    · rename_i ne
      rw [lookup_cons, ih]
      split
      · rename_i e
        subst e
        rw [if_neg ne]
      · rfl

end PyDict

end MinCpuForth.Python
