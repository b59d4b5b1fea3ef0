import SuperChip.Asm.Image

/-!
# Writes into an image, one after the other

A write that fits replaces the bytes it covers, whatever the image held. So after a sequence of
writes each place holds the byte of the last write that covers it, or what it held before
(`Image.getElem?_puts`), and making the same writes again changes nothing (`Image.puts_puts`).
-/

set_option autoImplicit false

namespace SuperChip

namespace Image

/-- Bytes and the offset they are written at. -/
structure Write where
  offset : Nat
  data : List UInt8
  deriving DecidableEq, Repr

/-- The image after a write that fits. -/
def put (image : Image) (w : Write) : Image where
  memory := image.memory.overwrite w.offset w.data
  length := max image.length (w.offset + w.data.length)

/-- The image after writes that fit, one after the other. -/
def puts (image : Image) (writes : List Write) : Image := writes.foldl put image

/-- The byte that a write puts at a place. -/
def Write.byteAt? (w : Write) (i : Nat) : Option UInt8 :=
  if w.offset ≤ i then w.data[i - w.offset]? else none

/-- The byte of the last write that covers a place. -/
def lastByte? : List Write → Nat → Option UInt8
  | [], _ => none
  | w :: rest, i => (lastByte? rest i).or (w.byteAt? i)

/-- The greatest end of writes. -/
def lastStop : List Write → Nat
  | [] => 0
  | w :: rest => max (w.offset + w.data.length) (lastStop rest)

variable {image next : Image} {offset : Int} {data : List UInt8}

/-- Bytes are written exactly where they fit from an offset on that is not negative. -/
theorem write_eq_ok_iff : image.write offset data = .ok next ↔
    ∃ n : Nat, offset = n ∧ n + data.length ≤ programSize ∧ next = image.put ⟨n, data⟩ := by
  unfold write
  by_cases hbounds : offset < 0 ∨ programSize < offset + data.length
  · rw [if_pos hbounds]
    constructor
    · nofun
    · rintro ⟨n, rfl, hfit, -⟩
      omega
  · rw [if_neg hbounds]
    constructor
    · intro h
      cases h
      exact ⟨offset.toNat, by omega, by omega, rfl⟩
    · rintro ⟨n, rfl, -, rfl⟩
      rfl

/-- Writes keep the size of program memory. -/
theorem size_puts (image : Image) (writes : List Write) :
    (image.puts writes).memory.size = image.memory.size := by
  induction writes generalizing image with
  | nil => rfl
  | cons w rest ih =>
    refine (ih (image.put w)).trans ?_
    exact Bytes.size_overwrite _ _ _

/-- The byte at each place of program memory is that of the last write that covers it. -/
theorem getElem?_puts (image : Image) (writes : List Write) {i : Nat} (hi : i < image.memory.size) :
    (image.puts writes).memory[i]? = (lastByte? writes i).or image.memory[i]? := by
  induction writes generalizing image with
  | nil => rfl
  | cons w rest ih =>
    have hput : (image.put w).memory[i]? = (w.byteAt? i).or image.memory[i]? := by
      rw [put, Bytes.getElem?_overwrite, Write.byteAt?]
      by_cases hstart : w.offset ≤ i
      · by_cases hcover : i < w.offset + w.data.length
        · have hlt : i - w.offset < w.data.length := by omega
          rw [if_pos ⟨hi, hstart, hcover⟩, if_pos hstart, List.getElem?_eq_getElem hlt]
          rfl
        · rw [if_neg (by omega), if_pos hstart, List.getElem?_eq_none (by omega)]
          rfl
      · rw [if_neg (by omega), if_neg hstart]
        rfl
    have hsize : (image.put w).memory.size = image.memory.size := Bytes.size_overwrite _ _ _
    have hrest := ih (image.put w) (by rwa [hsize])
    rw [lastByte?, Option.or_assoc, ← hput]
    exact hrest

/-- The part in use ends where the furthest write does. -/
theorem length_puts (image : Image) (writes : List Write) :
    (image.puts writes).length = max image.length (lastStop writes) := by
  induction writes generalizing image with
  | nil => exact (Nat.max_zero _).symm
  | cons w rest ih =>
    refine (ih (image.put w)).trans ?_
    rw [put, lastStop, Nat.max_assoc]

/-- To write the same bytes again changes nothing. -/
theorem puts_puts (image : Image) (writes : List Write) :
    (image.puts writes).puts writes = image.puts writes := by
  have hmemory : ((image.puts writes).puts writes).memory = (image.puts writes).memory := by
    apply Array.ext_getElem?
    intro i
    by_cases hi : i < image.memory.size
    · have hi' : i < (image.puts writes).memory.size := by rwa [size_puts]
      rw [getElem?_puts _ _ hi', getElem?_puts _ _ hi]
      cases lastByte? writes i <;> rfl
    · rw [Array.getElem?_eq_none (by rw [size_puts, size_puts]; omega),
        Array.getElem?_eq_none (by rw [size_puts]; omega)]
  have hlength : ((image.puts writes).puts writes).length = (image.puts writes).length := by
    rw [length_puts, length_puts]
    omega
  generalize (image.puts writes).puts writes = again at hmemory hlength
  generalize image.puts writes = once at hmemory hlength
  obtain ⟨_, _⟩ := again
  obtain ⟨_, _⟩ := once
  cases hmemory
  cases hlength
  rfl

end Image

end SuperChip
