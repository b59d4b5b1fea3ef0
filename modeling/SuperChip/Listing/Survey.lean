import SuperChip.Listing.Boundary
import SuperChip.Listing.Path

/-!
# The paths of a program

A survey follows every path from the start of a program and from the targets of the jumps and calls
it meets, each once, the latest target first. It collects the boundaries and the offsets that need a
label. Targets are addresses in memory, so there are finitely many, and each is followed once: that
is why a survey ends.
-/

set_option autoImplicit false

namespace SuperChip

/-- What is known of a program so far. -/
structure Survey where
  boundaries : Boundaries := {}
  /-- The offsets that need a label, in order, each once. -/
  labels : List Nat := []
  /-- What was reported, in order. -/
  notices : List PathNotice := []
  deriving Repr

/-- Puts a number at its place in an ordered list, unless it is there. -/
def insertNumber (n : Nat) : List Nat → List Nat
  | [] => [n]
  | x :: rest =>
    if n = x then x :: rest else if n < x then n :: x :: rest else x :: insertNumber n rest

/-- The offset of an address. -/
def offsetOf (address : Fin memorySize) : Int := address.val - programStart

namespace Survey

/-- Whether a path from an address was followed. -/
def followed (s : Survey) (address : Fin memorySize) : Bool :=
  s.boundaries.contains ⟨offsetOf address, .resume⟩

/-- The survey with a boundary where a path from an address starts. -/
def enter (s : Survey) (address : Fin memorySize) : Survey :=
  { s with boundaries := s.boundaries.insert ⟨offsetOf address, .resume⟩ }

/-- The survey with what a path tells. -/
def merge (s : Survey) (path : Path) (length : Nat) : Survey where
  boundaries :=
    match path.ending with
    | .leave offset => s.boundaries.insert ⟨offset, .leave⟩
    | _ => s.boundaries
  labels := (path.references length).foldl (fun labels n => insertNumber n labels) s.labels
  notices := s.notices ++ path.notices

/-- How many addresses no path was followed from. -/
def remaining (s : Survey) : Nat :=
  (List.finRange memorySize).countP fun address => !s.followed address

/-- Entering a path counts that path as followed and no other. -/
theorem followed_enter (s : Survey) (a b : Fin memorySize) :
    (s.enter b).followed a = (decide (offsetOf a = offsetOf b) || s.followed a) := by
  simp only [followed, enter, Boundaries.contains_insert]
  rw [Bool.eq_iff_iff]
  simp

/-- What a path tells counts no further path as followed. -/
theorem followed_merge (s : Survey) (path : Path) (length : Nat) (a : Fin memorySize) :
    (s.merge path length).followed a = s.followed a := by
  simp only [followed, merge]
  split
  · rw [Boundaries.contains_insert, Bool.eq_iff_iff]
    simp
  · rfl

/-- What a path tells leaves as many addresses as before. -/
theorem remaining_merge (s : Survey) (path : Path) (length : Nat) :
    (s.merge path length).remaining = s.remaining := by
  simp only [remaining, followed_merge]

/-- Entering a path that was not followed leaves fewer addresses, which is why a survey ends. -/
theorem remaining_enter_lt {s : Survey} {address : Fin memorySize}
    (h : s.followed address = false) : (s.enter address).remaining < s.remaining := by
  have lt_of_imp : ∀ (l : List (Fin memorySize)) (p q : Fin memorySize → Bool),
      (∀ a, p a = true → q a = true) → (∃ a ∈ l, q a = true ∧ p a = false) →
        l.countP p < l.countP q := by
    intro l p q hpq
    induction l with
    | nil => simp
    | cons x rest ih =>
      rintro ⟨a, ha, hqa, hpa⟩
      have hle : rest.countP p ≤ rest.countP q := List.countP_mono_left fun b _ => hpq b
      rcases List.mem_cons.1 ha with rfl | ha
      · simp only [List.countP_cons, hqa, hpa]
        simp
        omega
      · have := ih ⟨a, ha, hqa, hpa⟩
        simp only [List.countP_cons]
        by_cases hp : p x = true
        · simp [hp, hpq x hp, this]
        · simp [hp]
          omega
  refine lt_of_imp _ _ _ (fun a ha => ?_) ⟨address, List.mem_finRange address, ?_, ?_⟩
  · simp only [followed_enter, Bool.not_eq_true', Bool.or_eq_false_iff] at ha
    simp [ha.2]
  · simp [h]
  · simp [followed_enter]

/-- Follows the paths from `starts`, the first one first; the targets on a path come before the
starts that still wait, the last target first. -/
def followAll (p : ProgramText) (s : Survey) :
    List (Fin memorySize) → List PathNotice × Except ListingError Survey
  | [] => (s.notices, .ok s)
  | address :: starts =>
    match _fresh : s.followed address with
    | true => followAll p s starts
    | false =>
      let path := Path.start p (offsetOf address)
      let next := (s.enter address).merge path p.length
      match path.ending with
      | .misaligned cause => (next.notices, .error cause)
      | _ =>
        followAll p next (path.targets.reverse ++ starts)
termination_by starts => (s.remaining, starts.length)
decreasing_by
  · exact Prod.Lex.right _ (Nat.lt_succ_self _)
  · apply Prod.Lex.left
    rw [remaining_merge]
    exact remaining_enter_lt _fresh

/-- The address where programs start. -/
def entry : Fin memorySize := ⟨programStart, by decide⟩

/-- The survey of a program, or why it has none, and what was reported. -/
def ofProgram (p : ProgramText) : List PathNotice × Except ListingError Survey :=
  if programSize < p.length then ([], .error .tooLarge) else followAll p {} [entry]

end Survey

end SuperChip
