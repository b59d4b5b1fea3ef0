import SuperChip.Text.Blank
import SuperChip.Text.Name

/-!
# Monitor commands

A line typed into the monitor is a command word and the text after it. The word is made of ASCII
letters, digits and underscores; blanks around the line and around the text do not count. A question
mark in front stands for the word `help`.
-/

set_option autoImplicit false

namespace SuperChip.Monitor

/-- What a command does. -/
inductive Verb where
  | load
  | assemble
  | reset
  | step
  | run
  | setBreakpoint
  | clearBreakpoint
  | registers
  | dump
  | disassemble
  | key
  | help
  | quit
  /-- The input has ended. -/
  | endInput
  deriving DecidableEq, Repr

/-- The words of the commands. -/
def verbs : List (String × Verb) :=
  [("load", .load), ("asm", .assemble), ("reset", .reset), ("step", .step), ("run", .run),
   ("bp", .setBreakpoint), ("bpd", .clearBreakpoint), ("regs", .registers), ("dump", .dump),
   ("disasm", .disassemble), ("key", .key), ("help", .help), ("quit", .quit), ("exit", .quit),
   ("EOF", .endInput)]

/-- What is typed. -/
inductive Input where
  | blank
  /-- A line that begins with no command word. -/
  | unknown (line : String)
  | command (verb : Verb) (argument : String)
  deriving DecidableEq, Repr

namespace Input

/-- A line without blanks around it and with a question mark in front spelled out. -/
def normalized (line : String) : List Char :=
  match Text.trim line.toList with
  | '?' :: rest => "help ".toList ++ rest
  | cs => cs

/-- What a line means. -/
def parse (line : String) : Input :=
  let cs := normalized line
  if cs.isEmpty then .blank
  else
    match verbs.lookup (String.ofList (cs.takeWhile Text.isNameChar)) with
    | some verb => .command verb (String.ofList (Text.trim (cs.dropWhile Text.isNameChar)))
    | none => .unknown (String.ofList cs)

end Input

end SuperChip.Monitor
