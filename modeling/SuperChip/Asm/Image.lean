import SuperChip.Asm.Error
import SuperChip.Bytes
import SuperChip.MemoryMap

/-!
# Program images

An image is the program memory from its first address on and the length of the part that is in
use: the greatest end of any write so far. A write before the start or past the end is refused and
changes nothing.
-/

set_option autoImplicit false

namespace SuperChip

/-- Program memory and the length in use. -/
structure Image where
  memory : Bytes := Bytes.zeros programSize
  length : Nat := 0
  deriving DecidableEq, Repr, Inhabited

namespace Image

/-- The image with `data` written at an offset. -/
def write (image : Image) (offset : Int) (data : List UInt8) : Except AsmCause Image :=
  if offset < 0 ∨ programSize < offset + data.length then .error .programTooLarge
  else .ok {
    memory := image.memory.overwrite offset.toNat data
    length := max image.length (offset.toNat + data.length) }

/-- A write is refused exactly if it leaves program memory. -/
theorem write_eq_error_iff (image : Image) (offset : Int) (data : List UInt8) (cause : AsmCause) :
    image.write offset data = .error cause ↔
      cause = .programTooLarge ∧ (offset < 0 ∨ programSize < offset + data.length) := by
  unfold write
  split
  · next h => simp [h, eq_comm]
  · next h => simp [h]

/-- The part in use. -/
def toBytes (image : Image) : Bytes := image.memory.extract 0 image.length

/-- The big-endian word at an offset; a negative offset counts from the end of program memory. -/
def word? (image : Image) (offset : Int) : Option Nat := image.memory.word? offset

end Image

end SuperChip
