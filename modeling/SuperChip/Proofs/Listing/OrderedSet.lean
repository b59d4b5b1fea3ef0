import Mathlib.Data.List.Induction
import Mathlib.Data.List.Sort
import SuperChip.Proofs.Listing.Order

/-!
# Boundaries as an ordered set

Boundaries come into a set one after another, in any order and some of them more than once. The list
that holds them stays strictly increasing and tells nothing but which ones came, and `inData` is a
statement about the greatest of them before an offset (`ofList_orderedSet`). A search finds all of
this: the place of a boundary is the number of boundaries before it, a new one is put at its place,
and `inData` reads the entry in front of the place of an offset and the entry at it.
-/

set_option autoImplicit false

namespace SuperChip

namespace Boundaries

open Boundary

section Search

variable {l : List Boundary} {x b : Boundary}

/-- In an ordered list that does not begin before `b`, nothing stands before `b`. -/
theorem countP_before_cons_of_not (h : (x :: l).Pairwise fun a b => a.before b = true)
    (hx : ¬ x.before b = true) : (x :: l).countP (·.before b) = 0 := by
  rw [List.countP_eq_zero]
  intro y hy hyb
  rcases List.mem_cons.mp hy with rfl | hy
  · exact hx hyb
  · exact hx (before_trans ((List.pairwise_cons.mp h).1 y hy) hyb)

/-- In an ordered list the boundaries before another are as many as are counted. -/
theorem takeWhile_before_eq_take (h : l.Pairwise fun a b => a.before b = true) :
    l.takeWhile (·.before b) = l.take (l.countP (·.before b)) := by
  induction l with
  | nil => rfl
  | cons x rest ih =>
    by_cases hx : x.before b = true
    · rw [List.takeWhile_cons, if_pos hx, List.countP_cons, if_pos hx, List.take_succ_cons,
        ih (List.pairwise_cons.mp h).2]
    · rw [List.takeWhile_cons, if_neg hx, countP_before_cons_of_not h hx, List.take_zero]

/-- A boundary of an ordered list stands behind those before it: their number is its index. -/
theorem mem_iff_getElem?_countP (h : l.Pairwise fun a b => a.before b = true) :
    b ∈ l ↔ l[l.countP (·.before b)]? = some b := by
  refine ⟨fun hb => ?_, List.mem_of_getElem?⟩
  induction l with
  | nil => cases hb
  | cons x rest ih =>
    obtain ⟨hx, hrest⟩ := List.pairwise_cons.mp h
    rcases List.mem_cons.mp hb with rfl | hb
    · rw [countP_before_cons_of_not h (not_before_self b)]
      rfl
    · rw [List.countP_cons, if_pos (hx b hb), List.getElem?_cons_succ]
      exact ih hrest hb

/-- A boundary that is new to an ordered list is put behind all that are before it. -/
theorem insertOrdered_eq_insertIdx (h : l.Pairwise fun a b => a.before b = true) (hb : b ∉ l) :
    insertOrdered b l = l.insertIdx (l.countP (·.before b)) b := by
  induction l with
  | nil => rfl
  | cons x rest ih =>
    obtain ⟨hne, hb⟩ := List.ne_and_not_mem_of_not_mem_cons hb
    rw [insertOrdered, if_neg hne]
    by_cases hbx : b.before x = true
    · -- nothing behind `x` is before `b` either
      rw [if_pos hbx, countP_before_cons_of_not h (not_before_of_before hbx), List.insertIdx_zero]
    · have hxb : x.before b = true :=
        ((before_total b x).resolve_left hne).resolve_left hbx
      rw [if_neg hbx, List.countP_cons, if_pos hxb, List.insertIdx_succ_cons,
        ih (List.pairwise_cons.mp h).2 hb]

/-- The last of the boundaries before `b` is the entry in front of its place. -/
theorem getLast?_takeWhile_iff_getElem? (h : l.Pairwise fun a b => a.before b = true) :
    (l.takeWhile (·.before b)).getLast? = some x ↔
      l.countP (·.before b) ≠ 0 ∧ l[l.countP (·.before b) - 1]? = some x := by
  have hle : l.countP (·.before b) ≤ l.length := List.countP_le_length
  rw [takeWhile_before_eq_take h, List.getLast?_take]
  by_cases hzero : l.countP (·.before b) = 0
  · simp [hzero]
  · have hlt : l.countP (·.before b) - 1 < l.length := by omega
    simp [hzero, List.getElem?_eq_getElem hlt]

end Search

/-- The place of a boundary in the set: how many boundaries stand before it. -/
def position (s : Boundaries) (b : Boundary) : Nat := s.toList.countP (·.before b)

section Sorted

variable {s : Boundaries}

/-- A set in order is strictly sorted. -/
theorem Sorted.sortedLT (h : s.Sorted) : s.toList.SortedLT :=
  (h.imp lt_iff_before.mpr).sortedLT

/-- Ordered sets with the same boundaries are the same. -/
theorem Sorted.ext {t : Boundaries} (hs : s.Sorted) (ht : t.Sorted)
    (h : ∀ b, b ∈ s.toList ↔ b ∈ t.toList) : s = t := by
  have hlist : s.toList = t.toList := hs.sortedLT.eq_of_mem_iff ht.sortedLT h
  cases s
  cases t
  exact congrArg _ hlist

/-- A boundary that is there already is not inserted again. -/
theorem Sorted.insert_of_mem {b : Boundary} (h : s.Sorted) (hb : b ∈ s.toList) :
    s.insert b = s := by
  refine (h.insert b).ext h fun a => ?_
  rw [Boundaries.insert, mem_insertOrdered]
  exact or_iff_right_of_imp fun heq => heq ▸ hb

/-- A boundary is there exactly if it stands at its search position. -/
theorem Sorted.contains_iff_position (h : s.Sorted) (b : Boundary) :
    s.contains b = true ↔ s.toList[s.position b]? = some b :=
  (contains_iff s b).trans (mem_iff_getElem?_countP h)

/-- A boundary is inserted at its search position, unless it stands there. -/
theorem Sorted.insert_eq_position (h : s.Sorted) (b : Boundary) :
    s.insert b = if s.toList[s.position b]? = some b then s
      else ⟨s.toList.insertIdx (s.position b) b⟩ := by
  unfold position
  split
  · next hb => exact h.insert_of_mem ((mem_iff_getElem?_countP h).mpr hb)
  · next hb =>
    exact congrArg _ (insertOrdered_eq_insertIdx h (mt (mem_iff_getElem?_countP h).mp hb))

/-- An offset is data exactly if the entry in front of its place is a leaving boundary, and no path
starts at the offset, which its place would show. -/
theorem Sorted.inData_iff_position (h : s.Sorted) (o : Int) :
    let p := s.position ⟨o, .resume⟩
    s.inData o = true ↔
      p ≠ 0 ∧ (∃ e, s.toList[p - 1]? = some ⟨e, .leave⟩) ∧
        (p = s.toList.length ∨ s.toList[p]? ≠ some ⟨o, .resume⟩) := by
  intro p
  have hfront : ∀ a, (s.toList.takeWhile (·.before ⟨o, .resume⟩)).getLast? = some a ↔
      p ≠ 0 ∧ s.toList[p - 1]? = some a := fun a => getLast?_takeWhile_iff_getElem? h
  have hhere : s.contains ⟨o, .resume⟩ = false ↔ s.toList[p]? ≠ some ⟨o, .resume⟩ := by
    rw [← Bool.not_eq_true, h.contains_iff_position]
  -- behind all boundaries there is no entry
  have hend : p = s.toList.length → s.toList[p]? ≠ some ⟨o, .resume⟩ := fun heq => by
    rw [heq, List.getElem?_eq_none le_rfl]
    exact (Option.some_ne_none _).symm
  rw [inData_iff_getLast?, hhere, or_iff_right_of_imp hend]
  simp only [hfront, exists_and_left, and_assoc]

end Sorted

/-- The set of the boundaries in a list, added one after another. -/
def ofList (added : List Boundary) : Boundaries := added.foldl insert {}

/-- The last boundary is inserted behind the others. -/
theorem ofList_concat (added : List Boundary) (b : Boundary) :
    ofList (added ++ [b]) = (ofList added).insert b := List.foldl_concat ..

/-- Boundaries inserted one by one are in order. -/
theorem sorted_ofList (added : List Boundary) : (ofList added).Sorted := by
  induction added using List.reverseRecOn with
  | nil => exact sorted_empty
  | append_singleton added b ih =>
    rw [ofList_concat]
    exact ih.insert b

/-- The set has exactly the boundaries that were inserted. -/
@[simp]
theorem mem_toList_ofList {added : List Boundary} {b : Boundary} :
    b ∈ (ofList added).toList ↔ b ∈ added := by
  induction added using List.reverseRecOn with
  | nil => exact Iff.rfl
  | append_singleton added a ih =>
    rw [ofList_concat, insert, mem_insertOrdered, ih, List.mem_append, List.mem_singleton, or_comm]

/-- Boundaries added one after another stand in strict order, and two sets are the same exactly if
the same boundaries were added to them. A boundary is in the set exactly if it was added. An offset
is data exactly if the greatest of the boundaries added before it is a leaving one, and no path was
added that starts at the offset itself. A search at the place of a boundary finds it or puts it
there, and the entries in front of and at the place of an offset tell whether it is data. -/
theorem ofList_orderedSet (added : List Boundary) :
    let s := ofList added
    s.toList.SortedLT ∧
    (∀ others, ofList others = s ↔ ∀ b, b ∈ others ↔ b ∈ added) ∧
    (∀ b, s.contains b = true ↔ b ∈ added) ∧
    (∀ o, s.inData o = true ↔
      (∃ e, IsGreatest {b | b ∈ added ∧ b < ⟨o, .resume⟩} ⟨e, .leave⟩) ∧
        ⟨o, .resume⟩ ∉ added) ∧
    (∀ b, s.contains b = true ↔ s.toList[s.position b]? = some b) ∧
    (∀ b, ofList (added ++ [b]) =
      if s.toList[s.position b]? = some b then s
      else ⟨s.toList.insertIdx (s.position b) b⟩) ∧
    ∀ o, let p := s.position ⟨o, .resume⟩
      s.inData o = true ↔
        p ≠ 0 ∧ (∃ e, s.toList[p - 1]? = some ⟨e, .leave⟩) ∧
          (p = s.toList.length ∨ s.toList[p]? ≠ some ⟨o, .resume⟩) := by
  intro s
  have hsorted : s.Sorted := sorted_ofList added
  have hmem : ∀ b, b ∈ s.toList ↔ b ∈ added := fun b => mem_toList_ofList
  have hcontains : ∀ b, s.contains b = true ↔ b ∈ added := fun b =>
    (contains_iff s b).trans (hmem b)
  refine ⟨hsorted.sortedLT, fun others => ⟨?same, ?order⟩, hcontains, fun o => ?greatest,
    hsorted.contains_iff_position, fun b => ?insert, hsorted.inData_iff_position⟩
  case same =>
    intro heq b
    rw [← mem_toList_ofList, heq, hmem]
  case order =>
    intro h
    exact (sorted_ofList others).ext hsorted fun b => by rw [mem_toList_ofList, hmem, h]
  case greatest =>
    rw [hsorted.inData_iff_isGreatest, ← Bool.not_eq_true, hcontains]
    simp only [hmem]
  case insert =>
    rw [ofList_concat, hsorted.insert_eq_position]

/-- Boundaries before the program, at one offset and added twice come to their places. -/
example : (ofList [⟨6, .leave⟩, ⟨2, .leave⟩, ⟨6, .resume⟩, ⟨-2, .resume⟩, ⟨2, .leave⟩]).toList =
    [⟨-2, .resume⟩, ⟨2, .leave⟩, ⟨6, .resume⟩, ⟨6, .leave⟩] := by decide

end Boundaries

end SuperChip
