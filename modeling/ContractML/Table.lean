/-!
# Tables of names

A table binds each name at most once. The view of a table is `Table.get?`; binding a name changes
the answer for that name and for no other.

## Main definitions

* `Table` — names with what they are bound to.
* `Table.get?`, `Table.insert`, `Table.names` — looking up, binding, and the names in order.
-/

namespace ContractML

/-- Names with what they are bound to. -/
structure Table (α : Type) where
  /-- The bindings, in the order in which the names were first bound. -/
  entries : List (String × α)
  deriving Repr

namespace Table

variable {α : Type}

/-- The table without bindings. -/
def empty : Table α := ⟨[]⟩

instance : Inhabited (Table α) := ⟨empty⟩

/-- What the first entry for the name holds. -/
def lookup (name : String) : List (String × α) → Option α
  | [] => none
  | (k, v) :: es => if k = name then some v else lookup name es

/-- Replaces the entry for the name, or adds one at the end. -/
def update (name : String) (value : α) : List (String × α) → List (String × α)
  | [] => [(name, value)]
  | (k, v) :: es => if k = name then (name, value) :: es else (k, v) :: update name value es

/-- What the name is bound to. -/
def get? (t : Table α) (name : String) : Option α := lookup name t.entries

/-- Binds the name, in place of what it was bound to. -/
def insert (t : Table α) (name : String) (value : α) : Table α := ⟨update name value t.entries⟩

/-- The bound names in ascending order. -/
def names (t : Table α) : List String := (t.entries.map Prod.fst).mergeSort fun a b => a ≤ b

@[simp] theorem get?_empty (name : String) : (empty : Table α).get? name = none := rfl

theorem lookup_update (a b : String) (v : α) (es : List (String × α)) :
    lookup b (update a v es) = if a = b then some v else lookup b es := by
  induction es with
  | nil => simp [update, lookup]
  | cons e es ih =>
    by_cases h : e.1 = a
    · by_cases hb : a = b <;> simp [update, lookup, h, hb]
    · by_cases hb : e.1 = b
      · have hab : a ≠ b := fun hab => h (hb.trans hab.symm)
        simp [update, lookup, hb, hab, hab.symm]
      · simp [update, lookup, h, hb, ih]

/-- After a name is bound it has its new value, and every other name has its old one. -/
@[simp] theorem get?_insert (t : Table α) (a b : String) (v : α) :
    (t.insert a v).get? b = if a = b then some v else t.get? b :=
  lookup_update a b v t.entries

end Table

end ContractML
