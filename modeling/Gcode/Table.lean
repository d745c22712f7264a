/-!
Tables from names to values that remember the order in which the names came. A name that is set
again keeps its place and takes the new value; a name that is erased and set again goes to the end.
-/

namespace Gcode

/-- An association list from names to values, in the order of first insertion. -/
structure Table (α : Type) where
  entries : List (String × α) := []
  deriving Repr, DecidableEq

namespace Table

variable {α : Type}

instance : EmptyCollection (Table α) := ⟨⟨[]⟩⟩

/-- Sets a name in a list of entries: in its place, or at the end if it is new. -/
def put (name : String) (value : α) : List (String × α) → List (String × α)
  | [] => [(name, value)]
  | e :: es => if e.1 = name then (name, value) :: es else e :: put name value es

/-- Sets a name. -/
def set (t : Table α) (name : String) (value : α) : Table α := ⟨put name value t.entries⟩

/-- The value of a name. -/
def get? (t : Table α) (name : String) : Option α :=
  (t.entries.find? fun e => e.1 = name).map (·.2)

/-- Removes a name; one that is not there changes nothing. -/
def erase (t : Table α) (name : String) : Table α := ⟨t.entries.filter fun e => e.1 ≠ name⟩

/-- The names in order of first insertion. -/
def names (t : Table α) : List String := t.entries.map (·.1)

/-- The table of a list of settings, made one after the other. -/
def ofList (es : List (String × α)) : Table α := es.foldl (fun t e => t.set e.1 e.2) ∅

/-- The names in ascending order. -/
def sortedNames (t : Table α) : List String := t.names.mergeSort fun a b => decide (a ≤ b)

/-! ### Looking up -/

theorem find?_put (es : List (String × α)) (name other : String) (value : α) :
    ((put name value es).find? fun e => e.1 = other).map (·.2) =
      if name = other then some value else (es.find? fun e => e.1 = other).map (·.2) := by
  induction es with
  | nil => by_cases h : name = other <;> simp [put, h]
  | cons e es ih =>
    by_cases he : e.1 = name
    · by_cases h : name = other <;> simp [put, he, h]
    · by_cases h : e.1 = other
      · have hne : name ≠ other := fun hn => he (h.trans hn.symm)
        rw [put, if_neg he]
        simp [h, hne]
      · simpa [put, he, h] using ih

/-- A name that was set has its value, and every other name the one it had. -/
theorem get?_set (t : Table α) (name other : String) (value : α) :
    (t.set name value).get? other = if name = other then some value else t.get? other :=
  find?_put t.entries name other value

@[simp]
theorem get?_empty (name : String) : (∅ : Table α).get? name = none := rfl

end Table

end Gcode
