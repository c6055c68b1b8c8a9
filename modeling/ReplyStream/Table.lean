/-
Tables by key, in the order in which keys first arrived: what the look-up of
a key gives (`get?`), setting it (`put`) and taking it out (`erase`).
-/

namespace ReplyStream

/-- Entries with distinct keys. -/
abbrev Table (α : Type) := List (String × α)

namespace Table

variable {α : Type}

def get? (t : Table α) (key : String) : Option α := (t.find? (·.1 == key)).map (·.2)

/-- A new key goes to the end, a known one keeps its place. -/
def put : Table α → String → α → Table α
  | [], key, a => [(key, a)]
  | (k, b) :: rest, key, a => if k = key then (key, a) :: rest else (k, b) :: put rest key a

def erase (t : Table α) (key : String) : Table α := t.filter (·.1 ≠ key)

@[simp] theorem get?_nil (key : String) : get? ([] : Table α) key = none := rfl

theorem get?_cons (k : String) (a : α) (t : Table α) (key : String) :
    get? ((k, a) :: t) key = if k = key then some a else get? t key := by
  by_cases h : k = key <;> simp [get?, h]

theorem get?_put_self (t : Table α) (key : String) (a : α) : (t.put key a).get? key = some a := by
  induction t with
  | nil => simp [put, get?_cons]
  | cons e t ih =>
    obtain ⟨k, b⟩ := e
    by_cases h : k = key
    · subst h; simp [put, get?_cons]
    · simp [put, get?_cons, h, ih]

theorem get?_put_other (t : Table α) {key other : String} (a : α) (hne : other ≠ key) :
    (t.put key a).get? other = t.get? other := by
  induction t with
  | nil => simp [put, get?_cons, hne.symm]
  | cons e t ih =>
    obtain ⟨k, b⟩ := e
    by_cases h : k = key
    · subst h; simp [put, get?_cons, hne.symm]
    · simp [put, get?_cons, h, ih]

end Table

end ReplyStream
