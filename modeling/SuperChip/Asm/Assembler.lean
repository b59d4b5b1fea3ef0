import SuperChip.Asm.Conditional
import SuperChip.Asm.Form
import SuperChip.Asm.Image
import SuperChip.Asm.Statement
import SuperChip.Expr.Eval
import SuperChip.Instruction.Codec
import SuperChip.Log

/-!
# Layout: from lines to items

The assembler takes source lines in order. Each line may name the next item, give a name a value,
open or close a conditional, or record an item at the present address: a byte, a word or an
instruction, whose operands are kept as text until all names are known. Instructions stand at even
addresses. A refused line counts as a line and changes nothing else; a line at which the assembler
fails may leave its label behind.
-/

set_option autoImplicit false

namespace SuperChip

/-- What an item puts into the program. -/
inductive ItemKind where
  | byte
  | word
  | instruction (op : Op)
  deriving DecidableEq, Repr

/-- The number of bytes of an item. -/
def ItemKind.size : ItemKind → Nat
  | .byte => 1
  | .word => 2
  | .instruction _ => 2

/-- An item, its operands not yet evaluated. -/
structure Item where
  kind : ItemKind
  address : Int
  line : Int
  operands : List String
  deriving DecidableEq, Repr

/-- What the assembler reports. -/
inductive AsmNotice where
  | unknownOption (line : Int) (name : String)
  | unclosedConditional (line : Int)
  | emitted (length : Nat)
  deriving DecidableEq, Repr

/-- The log record of a notice. -/
def AsmNotice.entry : AsmNotice → Log.Entry
  | .unknownOption line name => ⟨.warning, s!"Line {line}: ignoring unrecognized option '{name}'"⟩
  | .unclosedConditional line =>
    ⟨.warning, s!"Line {line}: completed processing without finding matching ENDIF"⟩
  | .emitted length => ⟨.info, s!"Emitted {length} bytes"⟩

/-- The state between two lines. -/
structure Assembler where
  /-- Whether shifts read a second register. -/
  shiftsVy : Bool := false
  labels : Labels := {}
  items : Array Item := #[]
  /-- The address of the next byte. -/
  address : Int := programStart
  /-- How many lines were taken. -/
  line : Int := 0
  /-- The label that waits for the next item. -/
  pending : Option String := none
  conditional : Conditional := {}
  deriving Repr, Inhabited

namespace Assembler

/-- A change of the state. It may be refused; what it had changed by then stays changed. -/
abbrev Change (α : Type) := EStateM AsmCause Assembler α

/-- Goes on with a result, or is refused with its cause. -/
def ofExcept {α : Type} : Except AsmCause α → Change α
  | .ok v => pure v
  | .error cause => throw cause

/-- Whether lines are processed, not skipped. -/
def active (a : Assembler) : Bool := a.conditional.active

/-- A change that is made only where lines are processed; elsewhere the result is `skipped`. -/
def ifActive {α : Type} (skipped : α) (change : Change α) : Change α := do
  let a ← get
  if a.active then change else return skipped

/-- The value of an expression over the labels defined so far. -/
def evaluate (a : Assembler) (text : String) : Except AsmCause Nat :=
  match Expr.eval a.labels text with
  | .ok v => .ok v
  | .error e => .error (.expression e)

/-- The label that waits once one more is added; a statement has one label at most. -/
def addLabel (pending : Option String) (label : String) : Except AsmCause (Option String) :=
  match pending with
  | some found => .error (.secondLabel found)
  | none => .ok (some label)

/-- Lets the labels of a line wait for the next item; where lines are skipped, labels are too. -/
def addLabels (labels : List String) : Change Unit :=
  ifActive () do
    let a ← get
    let pending ← ofExcept (labels.foldlM addLabel a.pending)
    set { a with pending }

/-- Gives a name that has no value yet a value. -/
def bindName (name : String) (value : Int) : Change Unit := do
  let a ← get
  if a.labels.contains name then throw (.duplicateName name)
  else set { a with labels := a.labels.insert name value }

/-- Gives a name the value of its only operand. -/
def assign (name : String) (operands : List String) : Change Unit :=
  match operands with
  | [text] => do
    let a ← get
    let value ← ofExcept (a.evaluate text)
    bindName name value
  | _ => throw .assignmentOperands

/-- Binds the waiting label, if there is one, to an address. -/
def bindPending (address : Int) : Change Unit := do
  let a ← get
  match a.pending with
  | none => return
  | some label =>
    bindName label address
    modify fun a => { a with pending := none }

/-- Records an item at `address`, binds the waiting label to it, and goes on behind it. -/
def record (kind : ItemKind) (address : Int) (operands : List String) : Change Unit := do
  bindPending address
  modify fun a => { a with items := a.items.push { kind, address, line := a.line, operands } }
  modify fun a => { a with address := address + kind.size }

/-- The next even address. -/
def aligned (address : Int) : Int := (address + 1) / 2 * 2

/-- The effect of a conditional directive, which also works where lines are skipped; `none` for any
other mnemonic. -/
def direct? (mnemonic : String) (operands : List String) : Option (Change Unit) :=
  match mnemonic with
  | "IFDEF" => some do
    ofExcept (Form.expect mnemonic 1 operands)
    modify fun a => { a with conditional := a.conditional.enter (operands.any a.labels.contains) }
  | "IFNDEF" => some do
    ofExcept (Form.expect mnemonic 1 operands)
    modify fun a => { a with conditional := a.conditional.enter !(operands.any a.labels.contains) }
  | "ELSE" => some do
    ofExcept (Form.expect mnemonic 0 operands)
    let a ← get
    if a.conditional.depth = 0 then throw .unexpectedElse
    else set { a with conditional := a.conditional.swap }
  | "ENDIF" => some do
    ofExcept (Form.expect mnemonic 0 operands)
    let a ← get
    if a.conditional.depth = 0 then throw .unexpectedEndif
    else set { a with conditional := a.conditional.leave }
  | _ => none

/-- The effect of a processed statement that is no conditional directive. -/
def execute (written mnemonic : String) (operands : List String) : Change (List AsmNotice) :=
  match mnemonic with
  | "DEFINE" => do
    ofExcept (Form.expect written 1 operands)
    modify fun a => operands.foldl define a
    return []
  | "DB" => do
    ofExcept (Form.expect written 1 operands)
    let a ← get
    record .byte a.address operands
    return []
  | "DW" => do
    ofExcept (Form.expect written 1 operands)
    let a ← get
    record .word a.address operands
    return []
  | "OPTION" => do
    ofExcept (Form.expect written 1 operands)
    let a ← get
    return operands.map (.unknownOption a.line)
  | _ => do
    let a ← get
    let form ← ofExcept (Form.select a.shiftsVy written mnemonic operands)
    record (.instruction form.op) (aligned a.address) form.operands
    return []
where
  /-- Gives a name the value zero unless it has one. -/
  define (a : Assembler) (name : String) : Assembler :=
    if a.labels.contains name then a else { a with labels := a.labels.insert name 0 }

/-- The effect of a statement with its operands told apart. -/
def perform (s : Statement) (operands : List String) : Change (List AsmNotice) :=
  if s.assigns then
    ifActive [] do
      assign s.name operands
      return []
  else
    let mnemonic := Text.upper s.name
    match direct? mnemonic operands with
    | some change => do
      change
      return []
    | none => ifActive [] (execute s.name mnemonic operands)

/-- The effect of the parts of a line. -/
def take (line : SourceLine) : Change (List AsmNotice) := do
  addLabels line.labels
  match line.statement with
  | none => return []
  | some s =>
    let operands ← ofExcept s.operands
    perform s operands

/-- The state after one more line, and what was reported or why the line was not taken. A refused
line gives back the label that waited before it; a failure does not. -/
def processLine (a : Assembler) (text : String) :
    Assembler × Except AsmError (List AsmNotice) :=
  match take (.parse text) { a with line := a.line + 1 } with
  | .ok notices next => (next, .ok notices)
  | .error cause left =>
    let next := if cause.isRefusal then { left with pending := a.pending } else left
    (next, .error ⟨left.line, cause⟩)

end Assembler

end SuperChip
