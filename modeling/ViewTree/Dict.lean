/-!
# Dictionaries in key order

A dictionary is a list of entries sorted by key, so that walking it visits the keys in order.
Keys compare by code point, which for texts in UTF-8 is the order of their bytes.
-/

namespace ViewTree

/-- Entries sorted by key, each key once. -/
abbrev Dict (α : Type) := List (String × α)

namespace Dict

variable {α β : Type}

/-- The value of a key. -/
def get? : Dict α → String → Option α
  | [], _ => none
  | (k, v) :: rest, key => if k = key then some v else get? rest key

/-- The key has an entry. -/
def contains (d : Dict α) (key : String) : Bool :=
  (d.get? key).isSome

/-- The dictionary with `key` set to `value`, replacing an earlier entry. -/
def insert : Dict α → String → α → Dict α
  | [], key, value => [(key, value)]
  | (k, v) :: rest, key, value =>
    if key = k then (key, value) :: rest
    else if key < k then (key, value) :: (k, v) :: rest
    else (k, v) :: insert rest key value

/-- The dictionary without `key`. -/
def erase (d : Dict α) (key : String) : Dict α :=
  d.filter fun e => e.1 ≠ key

/-- The keys in order. -/
def keys (d : Dict α) : List String :=
  d.map (·.1)

/-- The values in key order. -/
def values (d : Dict α) : List α :=
  d.map (·.2)

/-- The dictionary with `f` applied to every value. -/
def mapValues (d : Dict α) (f : α → β) : Dict β :=
  d.map fun e => (e.1, f e.2)

/-- The entries in any order, the last of a key counting. -/
def ofList (entries : List (String × α)) : Dict α :=
  entries.foldl (fun d e => insert d e.1 e.2) []

/-- The entries of `upper` laid over those of `base`. -/
def overlay (base upper : Dict α) : Dict α :=
  upper.foldl (fun d e => insert d e.1 e.2) base

/-- The entry of `key` changed by `f`, or made from `fresh` first. -/
def upsert (d : Dict α) (key : String) (fresh : α) (f : α → α) : Dict α :=
  d.insert key (f ((d.get? key).getD fresh))

@[simp]
theorem get?_nil (key : String) : get? ([] : Dict α) key = none := rfl

@[simp]
theorem get?_insert (d : Dict α) (key key' : String) (value : α) :
    (d.insert key value).get? key' = if key = key' then some value else d.get? key' := by
  induction d with
  | nil => rfl
  | cons e rest ih =>
    obtain ⟨k, v⟩ := e
    simp only [insert]
    split
    · subst_vars; simp only [get?]; split <;> simp_all
    · split
      · simp only [get?]
      · simp only [get?, ih]
        split <;> split <;> simp_all

theorem get?_erase (d : Dict α) (key key' : String) :
    (d.erase key).get? key' = if key = key' then none else d.get? key' := by
  induction d with
  | nil => simp [erase]
  | cons e rest ih =>
    obtain ⟨k, v⟩ := e
    by_cases hk : k = key
    · subst hk
      have : erase ((k, v) :: rest) k = erase rest k := by simp [erase]
      rw [this, ih]
      simp only [get?]
      split <;> simp_all
    · have : erase ((k, v) :: rest) key = (k, v) :: erase rest key := by simp [erase, hk]
      rw [this]
      simp only [get?, ih]
      split <;> split <;> simp_all

end Dict

end ViewTree
