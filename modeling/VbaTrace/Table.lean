/-!
Tables: finite maps from names to values that keep the order in which names were first put.
-/

set_option autoImplicit false

namespace VbaTrace

structure Table (α : Type) where
  entries : List (String × α) := []

namespace Table

variable {α : Type}

def empty : Table α := ⟨[]⟩

def findIn (key : String) : List (String × α) → Option α
  | [] => none
  | e :: es => if e.1 == key then some e.2 else findIn key es

def find? (t : Table α) (key : String) : Option α :=
  findIn key t.entries

def has (t : Table α) (key : String) : Bool :=
  (t.find? key).isSome

def putIn (key : String) (value : α) : List (String × α) → List (String × α)
  | [] => [(key, value)]
  | e :: es => if e.1 == key then (key, value) :: es else e :: putIn key value es

/-- Replaces the value of a name in its place, or adds the name at the end. -/
def put (t : Table α) (key : String) (value : α) : Table α :=
  ⟨putIn key value t.entries⟩

def erase (t : Table α) (key : String) : Table α :=
  ⟨t.entries.filter fun e ↦ e.1 != key⟩

def isEmpty (t : Table α) : Bool :=
  t.entries.isEmpty

theorem findIn_putIn (key other : String) (value : α) (es : List (String × α)) :
    findIn other (putIn key value es) = if key == other then some value else findIn other es := by
  induction es with
  | nil => simp [putIn, findIn]
  | cons e es ih =>
    by_cases h : e.1 = key
    · by_cases h' : key = other <;> simp_all [putIn, findIn]
    · by_cases h' : e.1 = other
      · have : ¬ key = other := fun hk ↦ h (h'.trans hk.symm)
        simp_all [putIn, findIn]
      · simp_all [putIn, findIn]

@[simp] theorem find?_put (t : Table α) (key other : String) (value : α) :
    (t.put key value).find? other = if key == other then some value else t.find? other :=
  findIn_putIn key other value t.entries

end Table

end VbaTrace
