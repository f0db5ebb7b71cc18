/-! # Tables

A table maps names to values and keeps its entries in the order in which the names came in.
-/

namespace RecordLang

/-- Entries by name; of two entries with one name the first counts. -/
abbrev Table (α : Type) := List (String × α)

namespace Table

variable {α : Type}

def get? (t : Table α) (name : String) : Option α := t.lookup name

def has (t : Table α) (name : String) : Bool := (t.get? name).isSome

/-- Gives `name` the value `v`, in place if the name has an entry. -/
def put : Table α → String → α → Table α
  | [], name, v => [(name, v)]
  | (k, w) :: t, name, v => if name = k then (k, v) :: t else (k, w) :: put t name v

def names (t : Table α) : List String := t.map Prod.fst

theorem get?_nil (name : String) : get? ([] : Table α) name = none := rfl

theorem get?_cons (k : String) (w : α) (t : Table α) (name : String) :
    get? ((k, w) :: t) name = if name = k then some w else get? t name := by
  by_cases h : name = k <;> simp [get?, h, List.lookup_cons, beq_false_of_ne]

@[simp]
theorem get?_put_self (t : Table α) (name : String) (v : α) :
    (t.put name v).get? name = some v := by
  induction t with
  | nil => simp [put, get?_cons]
  | cons e t ih =>
    obtain ⟨k, w⟩ := e
    by_cases h : name = k <;> simp [put, get?_cons, h, ih]

theorem get?_put_of_ne (t : Table α) {name other : String} (v : α) (h : other ≠ name) :
    (t.put name v).get? other = t.get? other := by
  induction t with
  | nil => simp [put, get?_cons, get?_nil, h]
  | cons e t ih =>
    obtain ⟨k, w⟩ := e
    by_cases hk : name = k
    · subst hk
      simp [put, get?_cons, h]
    · simp [put, get?_cons, hk, ih]

end Table

end RecordLang
