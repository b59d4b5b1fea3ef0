/-!
# Log records

What the toolkit reports while it works, each record at a level. A reader chooses by a verbosity
which levels are kept.
-/

set_option autoImplicit false

namespace SuperChip.Log

/-- How grave a record is. -/
inductive Level where
  | debug
  | info
  | warning
  | error
  deriving DecidableEq, Repr, Inhabited

/-- The place of a level, the gravest last. -/
def Level.rank : Level → Nat
  | .debug => 0
  | .info => 1
  | .warning => 2
  | .error => 3

/-- The name of a level. -/
def Level.name : Level → String
  | .debug => "DEBUG"
  | .info => "INFO"
  | .warning => "WARNING"
  | .error => "ERROR"

/-- The least level that a verbosity keeps: warnings at zero or less, then information, then all. -/
def threshold (verbosity : Int) : Level :=
  if verbosity ≤ 0 then .warning else if verbosity = 1 then .info else .debug

/-- A record. -/
structure Entry where
  level : Level
  text : String
  deriving DecidableEq, Repr, Inhabited

/-- The line of a record. -/
def Entry.line (e : Entry) : String := e.level.name ++ ": " ++ e.text

/-- Whether a verbosity with the given threshold keeps records of a level. -/
def Level.kept (level least : Level) : Bool := least.rank ≤ level.rank

/-- The records kept so far, of the levels from `least` on. -/
structure Journal where
  least : Level
  entries : Array Entry := #[]
  deriving Repr, Inhabited

namespace Journal

/-- An empty journal for a verbosity. -/
def ofVerbosity (verbosity : Int) : Journal := ⟨threshold verbosity, #[]⟩

/-- The journal with one more record, if its level is kept. -/
def add (j : Journal) (level : Level) (text : Unit → String) : Journal :=
  if level.kept j.least then { j with entries := j.entries.push ⟨level, text ()⟩ } else j

/-- The journal with one more record, if its level is kept. -/
def addEntry (j : Journal) (e : Entry) : Journal := j.add e.level fun _ => e.text

/-- The lines of the records. -/
def lines (j : Journal) : List String := j.entries.toList.map (·.line)

/-- The journal without its records. -/
def cleared (j : Journal) : Journal := { j with entries := #[] }

end Journal

end SuperChip.Log
