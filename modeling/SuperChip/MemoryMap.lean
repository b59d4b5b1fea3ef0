/-!
# The memory map

Memory has 4096 bytes. The hexadecimal digits as sprites lie below 0x200; programs start there and
may fill the rest.
-/

set_option autoImplicit false

namespace SuperChip

/-- The number of bytes of memory. -/
def memorySize : Nat := 0x1000

/-- The address at which programs start. -/
def programStart : Nat := 0x200

/-- The number of bytes from there to the end of memory. -/
def programSize : Nat := memorySize - programStart

/-- Memory is not empty. -/
theorem memorySize_pos : 0 < memorySize := by decide

end SuperChip
