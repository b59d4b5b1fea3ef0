import SuperChip.Asm.Emit

/-!
# Lines and emissions in any order

An assembler and the image that it emits into take calls in any order: one more line, or an emission
of what is recorded by then. A call that is refused ends nothing; the next one goes on from the
state that it left.
-/

set_option autoImplicit false

namespace SuperChip

/-- An assembler and the image that it emits into. -/
structure Assembly where
  assembler : Assembler
  image : Image := {}

namespace Assembly

/-- What can be asked of an assembler and its image. -/
inductive Call where
  | line (text : String)
  | emit
  deriving DecidableEq, Repr

/-- The assembler and its image after a call, and what was reported or why the call was refused. -/
def call (s : Assembly) : Call → Assembly × Except AsmError (List AsmNotice)
  | .line text =>
    let (assembler, outcome) := s.assembler.processLine text
    ({ s with assembler }, outcome)
  | .emit =>
    let emission := s.assembler.emit s.image
    (⟨emission.assembler, emission.image⟩, emission.result)

/-- The assembler and its image after calls, refused or not. -/
def run (s : Assembly) (calls : List Call) : Assembly := calls.foldl (fun s c => (s.call c).1) s

end Assembly

end SuperChip
