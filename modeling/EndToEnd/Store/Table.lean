/-!
# Tables

Finite maps of a store. An entry keeps its place when its value is replaced, so the keys stand in
the order in which they were first put. Main statement: `get?_put`.
-/

namespace EndToEnd

/-- A finite map. -/
structure Table (κ ν : Type) where
  entries : List (κ × ν) := []
deriving DecidableEq

namespace Table

variable {κ ν : Type} [DecidableEq κ]

/-- The value of a key. -/
def get? (t : Table κ ν) (key : κ) : Option ν := t.entries.lookup key

/-- Entries with a value for a key: in place of the old one, or behind all others. -/
def putEntry (key : κ) (value : ν) : List (κ × ν) → List (κ × ν)
  | [] => [(key, value)]
  | (k, v) :: rest => if key = k then (key, value) :: rest else (k, v) :: putEntry key value rest

/-- The table with a value for a key. -/
def put (t : Table κ ν) (key : κ) (value : ν) : Table κ ν := ⟨putEntry key value t.entries⟩

/-- How many keys have a value. -/
def size (t : Table κ ν) : Nat := t.entries.length

@[simp] theorem get?_empty (key : κ) : (⟨[]⟩ : Table κ ν).get? key = none := rfl

/-- Putting a value changes the value of its key and of no other. -/
theorem get?_put (t : Table κ ν) (key key' : κ) (value : ν) :
    (t.put key value).get? key' = if key' = key then some value else t.get? key' := by
  obtain ⟨entries⟩ := t
  simp only [get?, put]
  induction entries with
  | nil =>
    by_cases h : key' = key
    · simp [putEntry, h]
    · simp [putEntry, List.lookup_cons, h, beq_eq_false_iff_ne.mpr h]
  | cons entry rest ih =>
    obtain ⟨k, v⟩ := entry
    by_cases hk : key = k
    · subst hk
      by_cases h : key' = key
      · simp [putEntry, h]
      · simp [putEntry, List.lookup_cons, h, beq_eq_false_iff_ne.mpr h]
    · by_cases h : key' = k
      · subst h
        simp [putEntry, hk, Ne.symm hk]
      · simp [putEntry, List.lookup_cons, hk, beq_eq_false_iff_ne.mpr h, ih]

end Table

end EndToEnd
