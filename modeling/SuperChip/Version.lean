/-!
# The version of the toolkit
-/

set_option autoImplicit false

namespace SuperChip

/-- The version that the tools tell. -/
def version : String := "1.0.0"

end SuperChip
