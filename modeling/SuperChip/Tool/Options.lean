import SuperChip.Text.Digit
import SuperChip.Tool.Value

/-!
# Command lines

A command line holds options and the name of a file, in any order. An option is written `-x`, or
with its long name or a beginning of it that no other option shares. A value follows as the next
argument, after an equals sign, or directly after the letter; letters of options without values
may stand together. After `--` nothing is an option.

Each argument is first classified by its form alone; then options and file are taken from left to
right. What is left over is refused at the end.
-/

set_option autoImplicit false

namespace SuperChip.Tool

/-- What a command line can ask to be told instead of work. -/
inductive Question where
  | help
  | version
  deriving DecidableEq, Repr

/-- What an option does to the settings of type `σ`. -/
inductive Effect (σ : Type) where
  | mark (change : σ → σ)
  | take (kind : ValueKind) (change : σ → String → Except ValueError σ)
  | ask (question : Question)

/-- An option. -/
structure OptionSpec (σ : Type) where
  letter : Option Char
  long : String
  effect : Effect σ

namespace OptionSpec

variable {σ : Type}

/-- The forms in which an option is written. -/
def forms (o : OptionSpec σ) : List String :=
  (o.letter.map fun c => String.ofList ['-', c]).toList ++ ["--" ++ o.long]

/-- How refusals name an option. -/
def display (o : OptionSpec σ) : String := String.intercalate "/" o.forms

/-- Whether an option takes a value. -/
def takesValue (o : OptionSpec σ) : Bool := match o.effect with | .take .. => true | _ => false

end OptionSpec

/-- The option that asks for help. -/
def helpOption {σ : Type} : OptionSpec σ := ⟨some 'h', "help", .ask .help⟩

/-- The option that tells the version. -/
def versionOption {σ : Type} : OptionSpec σ := ⟨some 'V', "version", .ask .version⟩

/-- The command line of a tool. -/
structure CommandLine (σ : Type) where
  program : String
  options : List (OptionSpec σ)
  /-- Whether a file must be named. -/
  fileRequired : Bool
  setFile : σ → String → σ

/-- Why a command line is refused. -/
inductive UsageError where
  | ambiguous (written : String) (candidates : List String)
  | missingValue (option : String)
  | unusedValue (option value : String)
  | badValue (option : String) (kind : ValueKind) (value : String) (cause : ValueError)
  | missingFile
  | leftOver (arguments : List String)
  deriving DecidableEq, Repr

/-- The wording of each refusal. -/
def UsageError.message : UsageError → String
  | .ambiguous written candidates =>
    "ambiguous option: " ++ written ++ " could match " ++ String.intercalate ", " candidates
  | .missingValue option => "argument " ++ option ++ ": expected one argument"
  | .unusedValue option value =>
    "argument " ++ option ++ ": ignored explicit argument " ++ Text.quoted value
  | .badValue option kind value (.notNumber _) =>
    "argument " ++ option ++ ": invalid " ++ kind.name ++ " value: " ++ Text.quoted value
  | .badValue option _ _ cause => "argument " ++ option ++ ": " ++ cause.message
  | .missingFile => "the following arguments are required: file"
  | .leftOver arguments => "unrecognized arguments: " ++ String.intercalate " " arguments

/-- A value written together with an option. -/
structure Attached where
  /-- Whether an equals sign stands before it. -/
  afterEquals : Bool
  text : List Char
  deriving DecidableEq, Repr

/-- What an argument is by its form. -/
inductive Argument (σ : Type) where
  | plain (text : String)
  | separator
  /-- It looks like an option and is none. -/
  | unknown (text : String)
  /-- An option; `short` if it is written by its letter. -/
  | option (spec : OptionSpec σ) (short : Bool) (attached : Option Attached)

namespace CommandLine

variable {σ : Type}

/-- All forms of the options, in order. -/
def forms (c : CommandLine σ) : List (String × OptionSpec σ) :=
  c.options.flatMap fun o => o.forms.map (·, o)

/-- The option of a letter. -/
def byLetter? (c : CommandLine σ) (letter : Char) : Option (OptionSpec σ) :=
  c.options.find? fun o => o.letter = some letter

/-- Whether a form is a short one. -/
def isShort (form : String) : Bool := !form.startsWith "--"

/-- Whether a character is a decimal digit of any script. -/
def isDecimal (c : Char) : Bool := c.isDigit || (Text.decimalValue? c).isSome

/-- Whether what follows a minus sign makes a negative number: digits, which a point may precede or
part. -/
def isNumberBody (cs : List Char) : Bool :=
  let digits (ds : List Char) := !ds.isEmpty && ds.all isDecimal
  let cs := if cs.getLast? = some '\n' then cs.dropLast else cs
  digits cs || match cs.dropWhile isDecimal with
    | '.' :: rest => digits rest
    | _ => false

/-- The text before the first equals sign and, if there is one, the text after it. -/
def splitEquals (cs : List Char) : List Char × Option (List Char) :=
  match cs.dropWhile (· != '=') with
  | _ :: value => (cs.takeWhile (· != '='), some value)
  | [] => (cs, none)

/-- What an argument before the separator is by its form. -/
def classify (c : CommandLine σ) (written : String) : Except UsageError (Argument σ) :=
  match written.toList with
  | '-' :: second :: rest =>
    let (name, value) := splitEquals ('-' :: second :: rest)
    let attached := value.map fun text => { afterEquals := true, text : Attached }
    let unmatched :=
      if isNumberBody (second :: rest) || written.contains ' ' then .plain written
      else .unknown written
    match c.forms.lookup written, c.forms.lookup (String.ofList name) with
    | some spec, _ => .ok (.option spec (isShort written) none)
    | none, some spec => .ok (.option spec (isShort written) attached)
    | none, none =>
      if second = '-' then
        match c.forms.filter fun form => form.1.startsWith (String.ofList name) with
        | [] => .ok unmatched
        | [(_, spec)] => .ok (.option spec false attached)
        | several => .error (.ambiguous written (several.map (·.1)))
      else
        match c.byLetter? second with
        | some spec => .ok (.option spec true (some ⟨false, rest⟩))
        | none => .ok unmatched
  | _ => .ok (.plain written)

/-- What the arguments are by their form. -/
def classifyAll (c : CommandLine σ) : List String → Except UsageError (List (Argument σ))
  | [] => .ok []
  | "--" :: rest => .ok (.separator :: rest.map .plain)
  | written :: rest => do return (← c.classify written) :: (← c.classifyAll rest)

/-- The last option that an argument writes. -/
inductive Tail (σ : Type) where
  | nothing
  /-- An option with its value. -/
  | valued (spec : OptionSpec σ) (value : String)
  /-- An option whose value is to be the next argument. -/
  | open (spec : OptionSpec σ)
  /-- Letters from the first on that names no option. -/
  | unknown (letters : String)

/-- The options without values that a group of letters begins with, and what stands behind them. -/
def group (c : CommandLine σ) (spec : OptionSpec σ) (afterEquals : Bool) :
    List Char → Except UsageError (List (OptionSpec σ) × Tail σ)
  | [] =>
    if spec.takesValue then .ok ([], .valued spec "")
    else .error (.unusedValue spec.display "")
  | letter :: rest =>
    if spec.takesValue then .ok ([], .valued spec (String.ofList (letter :: rest)))
    else if afterEquals || letter = '-' then
      .error (.unusedValue spec.display (String.ofList (letter :: rest)))
    else
      match c.byLetter? letter with
      | none => .ok ([spec], .unknown (String.ofList ('-' :: letter :: rest)))
      | some next =>
        match rest with
        | [] => .ok (if next.takesValue then ([spec], .open next) else ([spec, next], .nothing))
        | '=' :: value => do
          let (specs, tail) ← c.group next true value
          return (spec :: specs, tail)
        | second :: others => do
          let (specs, tail) ← c.group next false (second :: others)
          return (spec :: specs, tail)

/-- The options that an argument writes. -/
def unfold (c : CommandLine σ) (spec : OptionSpec σ) (short : Bool) :
    Option Attached → Except UsageError (List (OptionSpec σ) × Tail σ)
  | none => .ok (if spec.takesValue then ([], .open spec) else ([spec], .nothing))
  | some ⟨afterEquals, text⟩ =>
    if short then c.group spec afterEquals text
    else if spec.takesValue then .ok ([], .valued spec (String.ofList text))
    else .error (.unusedValue spec.display (String.ofList text))

/-- Why a command line does not lead to work. -/
inductive Stop where
  | refused (cause : UsageError)
  | asked (question : Question)
  deriving DecidableEq, Repr

/-- What was taken from the arguments so far. -/
structure Taken (σ : Type) where
  settings : σ
  hasFile : Bool := false
  /-- What is left over. -/
  extras : List String := []

namespace Taken

/-- With options that take no values. -/
def mark (t : Taken σ) : List (OptionSpec σ) → Except Stop (Taken σ)
  | [] => .ok t
  | spec :: rest =>
    match spec.effect with
    | .ask question => .error (.asked question)
    | .mark change => { t with settings := change t.settings }.mark rest
    | .take .. => t.mark rest

/-- With an option and its value. -/
def value (t : Taken σ) (spec : OptionSpec σ) (text : String) : Except Stop (Taken σ) :=
  match spec.effect with
  | .take kind change =>
    match change t.settings text with
    | .ok settings => .ok { t with settings }
    | .error cause => .error (.refused (.badValue spec.display kind text cause))
  | _ => .ok t

/-- With something left over. -/
def extra (t : Taken σ) (texts : List String) : Taken σ := { t with extras := t.extras ++ texts }

end Taken

/-- With the name of the file, or of what is left over if there is one already. -/
def takePlain (c : CommandLine σ) (t : Taken σ) (text : String) : Taken σ :=
  if t.hasFile then t.extra [text]
  else { t with settings := c.setFile t.settings text, hasFile := true }

/-- Takes the arguments in order. A separator next to the file name goes with it; another one is
left over, unless it ends a command line that needs no file. -/
def takeAll (c : CommandLine σ) (t : Taken σ) : List (Argument σ) → Except Stop (Taken σ)
  | [] => .ok t
  | .plain text :: .separator :: rest =>
    if t.hasFile then c.takeAll (t.extra [text, "--"]) rest
    else c.takeAll (c.takePlain t text) rest
  | .plain text :: rest => c.takeAll (c.takePlain t text) rest
  | .separator :: .plain text :: rest =>
    if t.hasFile then c.takeAll (t.extra ["--", text]) rest
    else c.takeAll (c.takePlain t text) rest
  | .separator :: rest =>
    c.takeAll (if t.hasFile || c.fileRequired then t.extra ["--"] else t) rest
  | .unknown text :: rest => c.takeAll (t.extra [text]) rest
  | .option spec short attached :: rest =>
    match c.unfold spec short attached with
    | .error e => .error (.refused e)
    | .ok (specs, .nothing) => do c.takeAll (← t.mark specs) rest
    | .ok (specs, .unknown letters) => do c.takeAll ((← t.mark specs).extra [letters]) rest
    | .ok (specs, .valued spec value) => do c.takeAll (← (← t.mark specs).value spec value) rest
    | .ok (specs, .open spec) =>
      match rest with
      | .plain value :: rest => do c.takeAll (← (← t.mark specs).value spec value) rest
      | _ => .error (.refused (.missingValue spec.display))

/-- The settings that a command line makes of the initial ones. -/
def parse (c : CommandLine σ) (initial : σ) (arguments : List String) : Except Stop σ :=
  match c.classifyAll arguments with
  | .error e => .error (.refused e)
  | .ok classified =>
    match c.takeAll { settings := initial } classified with
    | .error stop => .error stop
    | .ok t =>
      if c.fileRequired && !t.hasFile then .error (.refused .missingFile)
      else if !t.extras.isEmpty then .error (.refused (.leftOver t.extras))
      else .ok t.settings

end CommandLine

end SuperChip.Tool
