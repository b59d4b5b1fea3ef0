/-!
# Labels

A table of names and their values. A name is looked up by its first entry; the assembler enters each
name once.
-/

set_option autoImplicit false

namespace SuperChip

/-- Names and their values, the newest first. -/
structure Labels where
  entries : List (String × Int) := []
  deriving DecidableEq, Repr, Inhabited

namespace Labels

/-- The value of a name. -/
def find? (labels : Labels) (name : String) : Option Int := labels.entries.lookup name

/-- Whether a name has a value. -/
def contains (labels : Labels) (name : String) : Bool := (labels.find? name).isSome

/-- The table with one more entry. -/
def insert (labels : Labels) (name : String) (value : Int) : Labels :=
  ⟨(name, value) :: labels.entries⟩

/-- The new entry answers for its name and for no other. -/
theorem find?_insert (labels : Labels) (name other : String) (value : Int) :
    (labels.insert name value).find? other =
      if other == name then some value else labels.find? other := by
  rw [find?, find?, insert, List.lookup_cons]
  cases other == name <;> rfl

end Labels

end SuperChip
