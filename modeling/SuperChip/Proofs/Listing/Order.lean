import Mathlib.Data.Prod.Lex
import Mathlib.Order.Bounds.Basic
import SuperChip.Listing.Boundary

/-!
# Boundaries in order

The boundaries of a set stand in strict order, and inserting one keeps them so. What `inData` reads
off the list is therefore a statement about the set: the greatest boundary before an offset decides
(`Sorted.inData_iff_isGreatest`), and so an offset is data exactly if a path leaves before it and
none starts after that, up to and at the offset (`inData_iff`).
-/

set_option autoImplicit false

namespace SuperChip

namespace Boundary

/-- A boundary as a pair of its offset and the place of its kind. -/
def key (b : Boundary) : ℤ ×ₗ ℕ := toLex (b.offset, b.kind.rank)

/-- Boundaries with the same key are the same. -/
theorem key_injective : Function.Injective key := by
  rintro ⟨x, k⟩ ⟨y, l⟩ h
  obtain ⟨rfl, hrank⟩ := Prod.mk.inj (toLex.injective h)
  cases k <;> cases l <;> simp [BoundaryKind.rank] at hrank ⊢

/-- Boundaries are ordered as pairs, by the offset first. -/
instance : LinearOrder Boundary := LinearOrder.lift' key key_injective

/-- The order of boundaries is that of the program. -/
theorem lt_iff_before {a b : Boundary} : a < b ↔ a.before b = true := by
  have hlex : a < b ↔ a.offset < b.offset ∨ a.offset = b.offset ∧ a.kind.rank < b.kind.rank :=
    Prod.Lex.toLex_lt_toLex
  rw [hlex]
  simp [before]

/-- A boundary stands before another if its offset is smaller, or the offset is the same, code
resumes at the one and a path leaves at the other. -/
theorem before_iff (a b : Boundary) :
    a.before b = true ↔
      a.offset < b.offset ∨ (a.offset = b.offset ∧ a.kind = .resume ∧ b.kind = .leave) := by
  obtain ⟨x, k⟩ := a
  obtain ⟨y, l⟩ := b
  cases k <;> cases l <;> simp [before, BoundaryKind.rank]

/-- No boundary is before itself. -/
theorem not_before_self (b : Boundary) : ¬ b.before b = true :=
  fun h => lt_irrefl b (lt_iff_before.mpr h)

/-- Of two boundaries not each is before the other. -/
theorem not_before_of_before {a b : Boundary} (h : a.before b = true) : ¬ b.before a = true :=
  fun h' => lt_asymm (lt_iff_before.mpr h) (lt_iff_before.mpr h')

/-- What is before a boundary is before all that it is before. -/
theorem before_trans {a b c : Boundary} (hab : a.before b = true) (hbc : b.before c = true) :
    a.before c = true :=
  lt_iff_before.mp ((lt_iff_before.mpr hab).trans (lt_iff_before.mpr hbc))

/-- Of two different boundaries one is before the other. -/
theorem before_total (a b : Boundary) : a = b ∨ a.before b = true ∨ b.before a = true := by
  rw [← lt_iff_before, ← lt_iff_before]
  rcases lt_trichotomy a b with h | h | h
  · exact Or.inr (Or.inl h)
  · exact Or.inl h
  · exact Or.inr (Or.inr h)

/-- Exactly the boundaries at smaller offsets stand before code that resumes. -/
theorem lt_resume_iff (a : Boundary) (o : Int) : a < ⟨o, .resume⟩ ↔ a.offset < o := by
  rw [lt_iff_before, before_iff]
  simp

/-- At one offset code resumes before it is left. -/
theorem resume_lt_leave_iff (r e : Int) : (⟨r, .resume⟩ : Boundary) < ⟨e, .leave⟩ ↔ r ≤ e := by
  rw [lt_iff_before, before_iff]
  simp [Int.le_iff_lt_or_eq]

end Boundary

namespace Boundaries

/-- The boundaries stand in strict order. -/
def Sorted (s : Boundaries) : Prop := s.toList.Pairwise fun a b => a.before b = true

/-- No boundaries are in order. -/
theorem sorted_empty : Sorted {} := List.Pairwise.nil

/-- A boundary that is inserted keeps the order. -/
theorem pairwise_insertOrdered {l : List Boundary} (b : Boundary)
    (h : l.Pairwise fun a b => a.before b = true) :
    (insertOrdered b l).Pairwise fun a b => a.before b = true := by
  induction l with
  | nil => exact List.pairwise_singleton _ _
  | cons x rest ih =>
    obtain ⟨hx, hrest⟩ := List.pairwise_cons.mp h
    unfold insertOrdered
    split
    · exact h
    · next hne =>
      split
      · next hbx =>
        refine List.pairwise_cons.mpr ⟨fun y hy => ?_, h⟩
        rcases List.mem_cons.mp hy with rfl | hy
        · exact hbx
        · exact Boundary.before_trans hbx (hx y hy)
      · next hbx =>
        have hxb : x.before b = true := by
          rcases Boundary.before_total b x with heq | hlt | hlt
          · exact absurd heq hne
          · exact absurd hlt hbx
          · exact hlt
        refine List.pairwise_cons.mpr ⟨fun y hy => ?_, ih hrest⟩
        rcases mem_insertOrdered.mp hy with rfl | hy
        · exact hxb
        · exact hx y hy

/-- A boundary that is inserted keeps the order of the set. -/
theorem Sorted.insert {s : Boundaries} (h : s.Sorted) (b : Boundary) : (s.insert b).Sorted :=
  pairwise_insertOrdered b h

/-- The set contains the boundaries in its list. -/
theorem contains_iff (s : Boundaries) (b : Boundary) : s.contains b = true ↔ b ∈ s.toList := by
  simp [contains]

/-- In an ordered list, the boundaries in front that stand before `here` are all that do. -/
theorem mem_takeWhile_before {l : List Boundary} (here : Boundary)
    (h : l.Pairwise fun a b => a.before b = true) (x : Boundary) :
    x ∈ l.takeWhile (·.before here) ↔ x ∈ l ∧ x.before here = true := by
  induction l with
  | nil => simp
  | cons y rest ih =>
    obtain ⟨hy, hrest⟩ := List.pairwise_cons.mp h
    rw [List.takeWhile_cons]
    by_cases hb : y.before here = true
    · rw [if_pos hb, List.mem_cons, List.mem_cons, ih hrest]
      constructor
      · rintro (rfl | ⟨hx, hxb⟩)
        · exact ⟨Or.inl rfl, hb⟩
        · exact ⟨Or.inr hx, hxb⟩
      · rintro ⟨rfl | hx, hxb⟩
        · exact Or.inl rfl
        · exact Or.inr ⟨hx, hxb⟩
    · rw [if_neg hb]
      simp only [List.not_mem_nil, false_iff, not_and]
      intro hx hxb
      rcases List.mem_cons.mp hx with rfl | hx
      · exact hb hxb
      · exact hb (Boundary.before_trans (hy x hx) hxb)

/-- In an ordered list, every boundary is the last one or stands before it. -/
theorem eq_or_before_getLast {l : List Boundary} (h : l.Pairwise fun a b => a.before b = true)
    {last : Boundary} (hlast : l.getLast? = some last) {x : Boundary} (hx : x ∈ l) :
    x = last ∨ x.before last = true := by
  obtain ⟨front, rfl⟩ := List.getLast?_eq_some_iff.mp hlast
  rcases List.mem_append.mp hx with hx | hx
  · exact Or.inr ((List.pairwise_append.mp h).2.2 x hx last (List.mem_singleton_self _))
  · exact Or.inl (List.mem_singleton.mp hx)

section Greatest

variable {l : List Boundary} {x b : Boundary}

/-- The last of the boundaries before `b` is the greatest of them. -/
theorem isGreatest_of_getLast? (h : l.Pairwise fun a b => a.before b = true)
    (hlast : (l.takeWhile (·.before b)).getLast? = some x) :
    IsGreatest {a | a ∈ l ∧ a < b} x := by
  have hmem : ∀ a, a ∈ l.takeWhile (·.before b) ↔ a ∈ l ∧ a < b := fun a => by
    rw [mem_takeWhile_before b h, Boundary.lt_iff_before]
  refine ⟨(hmem x).mp (List.mem_of_getLast? hlast), fun a ha => ?_⟩
  rcases eq_or_before_getLast (h.sublist (List.takeWhile_sublist _)) hlast ((hmem a).mpr ha)
    with rfl | hbefore
  · exact le_rfl
  · exact (Boundary.lt_iff_before.mpr hbefore).le

/-- If there is a boundary before another, there is a last one before it. -/
theorem exists_getLast?_of_mem (h : l.Pairwise fun a b => a.before b = true) (hx : x ∈ l)
    (hxb : x < b) : ∃ last, (l.takeWhile (·.before b)).getLast? = some last := by
  have hfront := (mem_takeWhile_before b h x).mpr ⟨hx, Boundary.lt_iff_before.mp hxb⟩
  exact ⟨_, List.getLast?_eq_some_getLast (List.ne_nil_of_mem hfront)⟩

/-- The last boundary in front of another is the greatest before it. -/
theorem getLast?_takeWhile_iff_isGreatest (h : l.Pairwise fun a b => a.before b = true) :
    (l.takeWhile (·.before b)).getLast? = some x ↔ IsGreatest {a | a ∈ l ∧ a < b} x := by
  refine ⟨isGreatest_of_getLast? h, fun hx => ?_⟩
  obtain ⟨last, hlast⟩ := exists_getLast?_of_mem h hx.1.1 hx.1.2
  rw [hlast, (isGreatest_of_getLast? h hlast).unique hx]

end Greatest

/-- An offset is data if the last boundary in front of it leaves code, and code does not resume
there. -/
theorem inData_iff_getLast? (s : Boundaries) (o : Int) :
    s.inData o = true ↔
      (∃ e, (s.toList.takeWhile (·.before ⟨o, .resume⟩)).getLast? = some ⟨e, .leave⟩) ∧
        s.contains ⟨o, .resume⟩ = false := by
  unfold inData
  dsimp only
  cases (s.toList.takeWhile (·.before ⟨o, .resume⟩)).getLast? with
  | none => simp
  | some last =>
    obtain ⟨e, kind⟩ := last
    cases kind <;> simp

/-- An offset is data exactly if the greatest boundary before it is a leaving one and no path starts
at the offset itself. -/
theorem Sorted.inData_iff_isGreatest {s : Boundaries} (h : s.Sorted) (o : Int) :
    s.inData o = true ↔
      (∃ e, IsGreatest {a | a ∈ s.toList ∧ a < ⟨o, .resume⟩} ⟨e, .leave⟩) ∧
        s.contains ⟨o, .resume⟩ = false := by
  rw [inData_iff_getLast?]
  simp only [getLast?_takeWhile_iff_isGreatest h]

/-- An offset is data exactly if a path leaves at a smaller one and no path starts after that, up to
the offset itself. -/
theorem inData_iff {s : Boundaries} (hs : s.Sorted) (o : Int) :
    s.inData o = true ↔
      ∃ e, s.contains ⟨e, .leave⟩ = true ∧ e < o ∧
        ∀ r, s.contains ⟨r, .resume⟩ = true → e < r → o < r := by
  have hbelow : ∀ a, s.contains a = true → a.offset < o →
      a ∈ s.toList ∧ a < ⟨o, .resume⟩ := fun a ha hlt =>
    ⟨(contains_iff s a).mp ha, (Boundary.lt_resume_iff a o).mpr hlt⟩
  rw [hs.inData_iff_isGreatest]
  constructor
  · rintro ⟨⟨e, ⟨he, hlt⟩, hmax⟩, hhere⟩
    refine ⟨e, (contains_iff _ _).mpr he, (Boundary.lt_resume_iff _ o).mp hlt, fun r hr her => ?_⟩
    rcases Int.lt_trichotomy o r with h | rfl | h
    · exact h
    · rw [hr] at hhere
      cases hhere
    · have hre : (⟨r, .resume⟩ : Boundary) ≤ ⟨e, .leave⟩ := hmax (hbelow _ hr h)
      have := (Boundary.resume_lt_leave_iff r e).mp (hre.lt_of_ne nofun)
      omega
  · rintro ⟨e, he, hlt, hno⟩
    have hhere : s.contains ⟨o, .resume⟩ = false := by
      rw [Bool.eq_false_iff]
      intro hhere
      have := hno o hhere hlt
      omega
    obtain ⟨hmem, hbefore⟩ := hbelow _ he hlt
    obtain ⟨⟨l, kind⟩, hlast⟩ := exists_getLast?_of_mem hs hmem hbefore
    have hgreatest := isGreatest_of_getLast? hs hlast
    cases kind with
    | leave => exact ⟨⟨l, hgreatest⟩, hhere⟩
    | resume =>
      -- a path would start at `l`, after `e` and before the offset
      have hel : ¬ l ≤ e := fun hle =>
        (hgreatest.2 ⟨hmem, hbefore⟩).not_gt ((Boundary.resume_lt_leave_iff l e).mpr hle)
      have hlo : l < o := (Boundary.lt_resume_iff _ o).mp hgreatest.1.2
      have := hno l ((contains_iff _ _).mpr hgreatest.1.1) (by omega)
      omega

end Boundaries

end SuperChip
