/-!
# Tables

A table maps names to values and keeps the order in which names first came in.  Looking a name up
after setting it gives the value set, and setting one name leaves the others alone.
-/

namespace Straightline

/-- **A table**: names with their values, in order of arrival. -/
abbrev Table (α : Type) := List (String × α)

namespace Table

variable {α : Type}

/-- The value of a name. -/
def get? (t : Table α) (name : String) : Option α := t.lookup name

/-- Whether a name has a value. -/
def has (t : Table α) (name : String) : Bool := (t.get? name).isSome

/-- Sets the value of a name, in the place it already has or at the end. -/
def set (t : Table α) (name : String) (value : α) : Table α :=
  match t with
  | [] => [(name, value)]
  | (n, v) :: rest => if n = name then (n, value) :: rest else (n, v) :: set rest name value

/-- The names that have values. -/
def names (t : Table α) : List String := t.map (·.1)

@[simp] theorem get?_nil (name : String) : get? ([] : Table α) name = none := rfl

theorem get?_cons (n : String) (v : α) (t : Table α) (name : String) :
    get? ((n, v) :: t) name = if name = n then some v else t.get? name := by
  unfold get?
  rw [List.lookup_cons]
  by_cases h : name = n
  · simp [h]
  · simp [h, beq_false_of_ne h]

@[simp] theorem get?_set_self (t : Table α) (name : String) (value : α) :
    (t.set name value).get? name = some value := by
  induction t with
  | nil => simp [set, get?_cons]
  | cons e t ih =>
    obtain ⟨n, v⟩ := e
    by_cases h : n = name
    · simp [set, h, get?_cons]
    · simp [set, h, get?_cons, Ne.symm h, ih]

theorem get?_set_of_ne (t : Table α) {name other : String} (value : α) (h : other ≠ name) :
    (t.set name value).get? other = t.get? other := by
  induction t with
  | nil => simp [set, get?_cons, h]
  | cons e t ih =>
    obtain ⟨n, v⟩ := e
    by_cases hn : n = name
    · simp [set, hn, get?_cons, h]
    · simp [set, hn, get?_cons, ih]

end Table

end Straightline
