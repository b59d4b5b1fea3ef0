import SuperChip.Bytes

/-!
# Stretches and words of buffers

A stretch that lies in a row of cells can be replaced by as many cells without changing the size. A
word takes two bytes. An index meets a cell if it lies in the row, counted from either end.
-/

set_option autoImplicit false

namespace SuperChip

namespace Cells

variable {α : Type}

/-- An index in a row, counted from its start, is where a stretch ends. -/
theorem bound_natCast {n i : Nat} (h : i ≤ n) : bound n (i : Int) = i := by
  unfold bound
  rw [if_neg (by omega), Int.toNat_natCast]
  exact Nat.min_eq_left h

/-- A stretch inside a row is the cells between its ends. -/
theorem slice_natCast (b : Cells α) {start stop : Nat} (hstart : start ≤ b.size)
    (hstop : stop ≤ b.size) : b.slice start stop = b.extract start stop := by
  rw [slice, bound_natCast hstart, bound_natCast hstop]

/-- A stretch that lies in a row is replaced by as many cells without a change of size. -/
theorem size_splice (b data : Cells α) {start : Nat} (h : start + data.size ≤ b.size) :
    (b.splice start (start + data.size) data).size = b.size := by
  have hstop : bound b.size ((start : Int) + data.size) = start + data.size :=
    bound_natCast (i := start + data.size) h
  unfold splice
  rw [bound_natCast (by omega), hstop]
  simp only [Array.size_append, Array.size_extract]
  omega

/-- Wherever a stretch of as many cells begins and ends, replacing it leaves no fewer cells than
there were. -/
theorem le_size_splice (b data : Cells α) (start : Int) :
    b.size ≤ (b.splice start (start + data.size) data).size := by
  have hstop : bound b.size (start + data.size) ≤ bound b.size start + data.size := by
    unfold bound
    split <;> split <;> omega
  have hsize : bound b.size (start + data.size) ≤ b.size := Nat.min_le_right _ _
  unfold splice
  simp only [Array.size_append, Array.size_extract]
  omega

/-- The cell at each place of a row with a stretch replaced by as many cells. -/
theorem getElem?_splice (b data : Cells α) {start : Nat} (h : start + data.size ≤ b.size)
    (i : Nat) :
    (b.splice start (start + data.size) data)[i]? =
      if start ≤ i ∧ i < start + data.size then data[i - start]? else b[i]? := by
  have hstop : bound b.size ((start : Int) + data.size) = start + data.size :=
    bound_natCast (i := start + data.size) h
  simp only [splice, bound_natCast (show start ≤ b.size by omega), hstop,
    Nat.max_eq_right (Nat.le_add_right start data.size), Array.getElem?_append,
    Array.getElem?_extract, Array.size_append, Array.size_extract]
  grind

/-- The cells of a stretch are cells of the row. -/
theorem mem_of_mem_extract {b : Cells α} {start stop : Nat} {x : α}
    (h : x ∈ b.extract start stop) : x ∈ b := by
  obtain ⟨i, hi⟩ := Array.mem_iff_getElem?.1 h
  rw [Array.getElem?_extract] at hi
  split at hi
  · exact Array.mem_of_getElem? hi
  · cases hi

/-- Every cell of a row with a stretch replaced was in the row or is in the replacement. -/
theorem mem_of_mem_splice {b data : Cells α} {start stop : Int} {x : α}
    (h : x ∈ b.splice start stop data) : x ∈ b ∨ x ∈ data := by
  rw [splice] at h
  obtain hkept | hbehind := Array.mem_append.1 h
  · obtain hbefore | hnew := Array.mem_append.1 hkept
    · exact .inl (mem_of_mem_extract hbefore)
    · exact .inr hnew
  · exact .inl (mem_of_mem_extract hbehind)

/-! Stretches from the first cell on. -/

/-- The first cells of a row. -/
theorem slice_first (b : Cells α) {n : Int} (h0 : 0 ≤ n) (h : n ≤ b.size) :
    b.slice 0 n = b.extract 0 n.toNat := by
  obtain ⟨k, rfl⟩ := Int.eq_ofNat_of_zero_le h0
  exact slice_natCast b (Nat.zero_le b.size) (by omega)

/-- As many cells as are replaced at the start of a row leave its size. -/
theorem size_splice_first (b data : Cells α) {n : Int} (hn : n = data.size)
    (h : data.size ≤ b.size) : (b.splice 0 n data).size = b.size := by
  have hend : n = ((0 : Nat) : Int) + data.size := by omega
  rw [hend]
  exact size_splice b data (show 0 + data.size ≤ b.size by omega)

/-- The cell at each place of a row with its first cells replaced by as many. -/
theorem getElem?_splice_first (b data : Cells α) {n : Int} (hn : n = data.size)
    (h : data.size ≤ b.size) (i : Nat) :
    (b.splice 0 n data)[i]? = if i < data.size then data[i]? else b[i]? := by
  have hend : n = ((0 : Nat) : Int) + data.size := by omega
  have hcells := getElem?_splice b data (show 0 + data.size ≤ b.size by omega) i
  simpa [hend] using hcells

/-- The place of an index that is not negative. -/
theorem place?_natCast (n i : Nat) : place? n (i : Int) = if i < n then some i else none := by
  have hneg : ¬ (i : Int) < 0 := by omega
  unfold place?
  simp only [if_neg hneg]
  by_cases h : i < n
  · rw [if_pos (by omega), if_pos h, Int.toNat_natCast]
  · rw [if_neg (by omega), if_neg h]

/-- The cell at an index that is not negative. -/
theorem at?_natCast (b : Cells α) (i : Nat) : b.at? (i : Int) = b[i]? := by
  unfold at?
  rw [place?_natCast]
  split
  · rfl
  · next h => exact (Array.getElem?_eq_none (Nat.le_of_not_lt h)).symm

/-- Setting the cell at an index of the row. -/
theorem set?_natCast (b : Cells α) {i : Nat} (h : i < b.size) (x : α) :
    b.set? (i : Int) x = some (b.setIfInBounds i x) := by
  rw [set?, place?_natCast, if_pos h, Option.map_some]

/-- An index meets no cell exactly if it lies outside the row at either end. -/
theorem place?_eq_none_iff (n : Nat) (i : Int) :
    place? n i = none ↔ i < -n ∨ (n : Int) ≤ i := by
  unfold place?
  dsimp only
  rw [ite_eq_right_iff]
  simp only [reduceCtorEq, imp_false]
  split <;> omega

/-- The place of an index lies in the row. -/
theorem lt_of_place? {n j : Nat} {i : Int} (h : place? n i = some j) : j < n := by
  unfold place? at h
  dsimp only at h
  rw [Option.ite_none_right_eq_some] at h
  obtain ⟨hrange, hj⟩ := h
  have hj := Option.some.inj hj
  omega

/-- There is no cell exactly at the indices outside the row at either end. -/
theorem at?_eq_none_iff (b : Cells α) (i : Int) :
    b.at? i = none ↔ i < -b.size ∨ (b.size : Int) ≤ i := by
  rw [← place?_eq_none_iff, at?]
  cases hplace : place? b.size i with
  | none => simp
  | some j => simp [lt_of_place? hplace]

end Cells

namespace Bytes

/-- Bytes written where they fit replace the stretch that they cover. -/
theorem overwrite_eq_splice (b : Bytes) {start : Nat} {data : List UInt8}
    (h : start + data.length ≤ b.size) :
    b.overwrite start data = b.splice start (start + data.length) data.toArray := by
  have hfits : start + data.toArray.size ≤ b.size := h
  have hsplice := Cells.getElem?_splice b data.toArray hfits
  rw [List.size_toArray] at hsplice
  refine Array.ext_getElem? fun i => ?_
  rw [getElem?_overwrite, hsplice]
  by_cases hcover : start ≤ i ∧ i < start + data.length
  · rw [if_pos ⟨by omega, hcover⟩, if_pos hcover, List.getElem?_toArray]
  · rw [if_neg (fun hin => hcover hin.2), if_neg hcover]

/-- Both places of a word that lies in a buffer have bytes. -/
theorem exists_getElem?_word (b : Bytes) {a : Nat} (h : a + 1 < b.size) :
    ∃ high low, b[a]? = some high ∧ b[a + 1]? = some low :=
  ⟨b[a], b[a + 1], Array.getElem?_eq_getElem _, Array.getElem?_eq_getElem _⟩

/-- Every word takes two bytes. -/
theorem length_flatMap_ofWord (words : List Nat) :
    (words.flatMap ofWord).length = 2 * words.length := by
  induction words with
  | nil => rfl
  | cons w words ih =>
    have hword : (ofWord w).length = 2 := rfl
    rw [List.flatMap_cons, List.length_append, hword, ih, List.length_cons]
    omega

end Bytes

end SuperChip
