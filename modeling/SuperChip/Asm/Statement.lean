import SuperChip.Asm.Error
import SuperChip.Text.Blank
import SuperChip.Text.Name

/-!
# The parts of a source line

A line holds labels, each a name and a colon, and then at most one statement: a name, an equals sign
if the name is assigned to, and operands between commas. A semicolon starts a comment.
-/

set_option autoImplicit false

namespace SuperChip

/-- A statement whose operands are not yet told apart. -/
structure Statement where
  /-- The mnemonic, or the name that is assigned to. -/
  name : String
  /-- Whether the name is assigned to. -/
  assigns : Bool
  /-- The text of the operands. -/
  operandText : List Char
  deriving DecidableEq, Repr

/-- The labels of a line, in order, and its statement. -/
structure SourceLine where
  labels : List String
  statement : Option Statement
  deriving DecidableEq, Repr

/-- The most operands a statement takes. -/
def maxOperands : Nat := 3

namespace Statement

/-- Whether an operand may go on with the character. -/
def isOperandChar (c : Char) : Bool := c != ',' && c != ';' && c != '\n'

/-- The operand at the front of a text, without trailing blanks, and the text after it. -/
def takeOperand (cs : List Char) : String × List Char :=
  (String.ofList (Text.trimEnd (cs.takeWhile isOperandChar)), cs.dropWhile isOperandChar)

/-- Taking an operand adds no text. -/
theorem length_takeOperand_le (cs : List Char) : (takeOperand cs).2.length ≤ cs.length :=
  (List.dropWhile_sublist _).length_le

/-- The operands after those `found`, each behind a comma. -/
def moreOperands (found : List String) : List Char → Except AsmCause (List String)
  | ',' :: rest =>
    have : (takeOperand (Text.skipBlanks rest)).2.length < rest.length + 1 := by
      have h1 := length_takeOperand_le (Text.skipBlanks rest)
      have h2 := Text.length_skipBlanks_le rest
      omega
    let next := takeOperand (Text.skipBlanks rest)
    if next.1.isEmpty then .error .emptyOperand
    else if maxOperands ≤ found.length then .error .operandOverflow
    else moreOperands (found ++ [next.1]) next.2
  | _ => .ok found
termination_by cs => cs.length

/-- The operands of a statement. -/
def operands (s : Statement) : Except AsmCause (List String) :=
  let first := takeOperand s.operandText
  if first.1.isEmpty then
    match first.2 with
    | ',' :: _ => .error .emptyOperand
    | _ => .ok []
  else moreOperands [first.1] first.2

/-- The statement of a name and the text after it. -/
def ofName (name : String) (rest : List Char) : Statement :=
  match Text.skipBlanks rest with
  | '=' :: rest => ⟨name, true, Text.skipBlanks rest⟩
  | rest => ⟨name, false, rest⟩

end Statement

namespace SourceLine

/-- The labels and the statement of a text without leading blanks, after the labels `found`. A text
that does not start with a name holds no statement. -/
def parseFrom (found : List String) (cs : List Char) : SourceLine :=
  match h : Text.takeName? cs with
  | none => ⟨found, none⟩
  | some (name, ':' :: rest) =>
    have : (Text.skipBlanks rest).length < cs.length := by
      have h1 := Text.length_lt_of_takeName? h
      have h2 := Text.length_skipBlanks_le rest
      simp only [List.length_cons] at h1
      omega
    parseFrom (found ++ [name]) (Text.skipBlanks rest)
  | some (name, rest) => ⟨found, some (Statement.ofName name rest)⟩
termination_by cs.length

/-- The parts of a line. -/
def parse (text : String) : SourceLine := parseFrom [] (Text.skipBlanks text.toList)

end SourceLine

end SuperChip
