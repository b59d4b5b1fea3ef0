/-!
# Boundaries between code and data

A boundary stands at an offset: code resumes there, or a path leaves there. The boundaries of a
program are kept in order, each once; at one offset, resuming comes before leaving. Bytes that lie
after a leaving boundary and before the next resuming one are data.
-/

set_option autoImplicit false

namespace SuperChip

/-- What happens at a boundary. -/
inductive BoundaryKind where
  /-- A path starts here. -/
  | resume
  /-- A path ends with the instruction here. -/
  | leave
  deriving DecidableEq, Repr, Inhabited

/-- The place of a kind in the order at one offset. -/
def BoundaryKind.rank : BoundaryKind → Nat
  | .resume => 0
  | .leave => 1

/-- A boundary. -/
structure Boundary where
  offset : Int
  kind : BoundaryKind
  deriving DecidableEq, Repr, Inhabited

/-- The order of boundaries: by offset, then by kind. -/
def Boundary.before (a b : Boundary) : Bool :=
  a.offset < b.offset || (a.offset == b.offset && a.kind.rank < b.kind.rank)

/-- A set of boundaries, in order. -/
structure Boundaries where
  toList : List Boundary := []
  deriving DecidableEq, Repr, Inhabited

namespace Boundaries

/-- Puts a boundary at its place in an ordered list, unless it is there. -/
def insertOrdered (b : Boundary) : List Boundary → List Boundary
  | [] => [b]
  | x :: rest =>
    if b = x then x :: rest
    else if b.before x then b :: x :: rest
    else x :: insertOrdered b rest

/-- Putting a boundary at its place adds it and nothing else. -/
theorem mem_insertOrdered {a b : Boundary} {l : List Boundary} :
    a ∈ insertOrdered b l ↔ a = b ∨ a ∈ l := by
  induction l with
  | nil => simp [insertOrdered]
  | cons x rest ih =>
    simp only [insertOrdered]
    split
    · next h => subst h; simp
    · split
      · simp
      · simp only [List.mem_cons, ih]
        constructor
        · rintro (h | h | h) <;> simp [h]
        · rintro (h | h | h) <;> simp [h]

/-- The set with one more boundary. -/
def insert (s : Boundaries) (b : Boundary) : Boundaries := ⟨insertOrdered b s.toList⟩

/-- Whether a boundary is in the set. -/
def contains (s : Boundaries) (b : Boundary) : Bool := s.toList.contains b

/-- A boundary is in the set with one more exactly if it is the new one or was there. -/
theorem contains_insert (s : Boundaries) (a b : Boundary) :
    (s.insert b).contains a = (a == b || s.contains a) := by
  rw [Bool.eq_iff_iff]
  simp [contains, insert, mem_insertOrdered]

/-- Whether an offset lies after a leaving boundary and before the next resuming one. -/
def inData (s : Boundaries) (offset : Int) : Bool :=
  let here : Boundary := ⟨offset, .resume⟩
  match (s.toList.takeWhile (·.before here)).getLast? with
  | some ⟨_, .leave⟩ => !s.contains here
  | _ => false

end Boundaries

end SuperChip
