/-!
# Rows of cells and byte buffers

Rows are read at any whole number: a negative index counts from the end, and an index that meets no
cell is refused. A stretch between two indices is cut to the row; putting another stretch in its
place may change the length of the row. A buffer is a row of bytes.
-/

set_option autoImplicit false

namespace SuperChip

/-- A row of cells. -/
abbrev Cells (α : Type) := Array α

namespace Cells

variable {α : Type}

/-- The place of index `i` in a row of `n` cells, counted from the end if it is negative. -/
def place? (n : Nat) (i : Int) : Option Nat :=
  let j := if i < 0 then i + n else i
  if 0 ≤ j ∧ j < n then some j.toNat else none

/-- The cell at an index. -/
def at? (b : Cells α) (i : Int) : Option α := (place? b.size i).bind (b[·]?)

/-- An index as the end of a stretch: counted from the end if negative, and cut to the row. -/
def bound (n : Nat) (i : Int) : Nat := min (if i < 0 then i + n else i).toNat n

/-- The cells from index `start` up to index `stop`. -/
def slice (b : Cells α) (start stop : Int) : Cells α :=
  b.extract (bound b.size start) (bound b.size stop)

/-- The row with `data` in place of the stretch from index `start` up to index `stop`. -/
def splice (b : Cells α) (start stop : Int) (data : Cells α) : Cells α :=
  let first := bound b.size start
  b.extract 0 first ++ data ++ b.extract (max first (bound b.size stop)) b.size

/-- The row with one cell set, unless the index meets none. -/
def set? (b : Cells α) (i : Int) (x : α) : Option (Cells α) :=
  (place? b.size i).map fun j => b.setIfInBounds j x

end Cells

/-- A buffer of bytes. -/
abbrev Bytes := Cells UInt8

namespace Bytes

/-- A buffer of zeros. -/
def zeros (n : Nat) : Bytes := Array.replicate n 0

/-- The big-endian word of two bytes. -/
def word (high low : UInt8) : Nat := 0x100 * high.toNat + low.toNat

/-- The big-endian word at an index. -/
def word? (b : Bytes) (i : Int) : Option Nat :=
  match b.at? i, b.at? (i + 1) with
  | some high, some low => some (word high low)
  | _, _ => none

/-- The two bytes of a word, the high one first. -/
def ofWord (w : Nat) : List UInt8 := [.ofNat (w / 0x100), .ofNat w]

/-- The buffer with `data` in place of its bytes from `start` on; what lies past the end is lost. -/
def overwrite (b : Bytes) (start : Nat) : List UInt8 → Bytes
  | [] => b
  | x :: xs => overwrite (b.setIfInBounds start x) (start + 1) xs

/-- Overwriting keeps the size of a buffer. -/
@[simp] theorem size_overwrite (b : Bytes) (start : Nat) (data : List UInt8) :
    (b.overwrite start data).size = b.size := by
  induction data generalizing b start with
  | nil => rfl
  | cons x xs ih => simp [overwrite, ih]

/-- The byte at each place of an overwritten buffer. -/
theorem getElem?_overwrite (b : Bytes) (start : Nat) (data : List UInt8) (i : Nat) :
    (b.overwrite start data)[i]? =
      if i < b.size ∧ start ≤ i ∧ i < start + data.length then data[i - start]? else b[i]? := by
  induction data generalizing b start with
  | nil =>
    have : ¬ (i < b.size ∧ start ≤ i ∧ i < start) := by omega
    simp [overwrite, this]
  | cons x xs ih =>
    rw [overwrite, ih]
    simp only [Array.size_setIfInBounds, List.length_cons, Array.getElem?_setIfInBounds]
    by_cases hi : i = start
    · subst hi
      rw [if_neg (by omega)]
      by_cases hb : i < b.size <;> simp [hb]
    · by_cases hr : i < b.size ∧ start + 1 ≤ i ∧ i < start + 1 + xs.length
      · have hr' : i < b.size ∧ start ≤ i ∧ i < start + (xs.length + 1) := by omega
        obtain ⟨k, hk⟩ : ∃ k, i - start = k + 1 := ⟨i - start - 1, by omega⟩
        have hk' : i - (start + 1) = k := by omega
        rw [if_pos hr, if_pos hr', hk, hk', List.getElem?_cons_succ]
      · have hr' : ¬ (i < b.size ∧ start ≤ i ∧ i < start + (xs.length + 1)) := by omega
        rw [if_neg hr, if_neg hr', if_neg (fun h => hi h.symm)]

end Bytes

end SuperChip
