/-!
# Words of a command line

A line is split into words at blanks. Quotes keep blanks in a word: between single quotes every
character stands for itself, between double quotes a backslash escapes a double quote or a
backslash. Outside quotes a backslash escapes any character.
-/

set_option autoImplicit false

namespace SuperChip.Text

/-- Why a line cannot be split. -/
inductive WordsError where
  | unclosedQuote
  | danglingEscape
  deriving DecidableEq, Repr

/-- The wording of each refusal. -/
def WordsError.message : WordsError → String
  | .unclosedQuote => "No closing quotation"
  | .danglingEscape => "No escaped character"

/-- Where a character stands. -/
inductive WordsMode where
  /-- Between words. -/
  | between
  /-- In a word, outside quotes. -/
  | inWord
  /-- Between single quotes. -/
  | single
  /-- Between double quotes. -/
  | double
  deriving DecidableEq, Repr

/-- Whether a character separates words. -/
def isWordBreak (c : Char) : Bool := c == ' ' || c == '\t' || c == '\r' || c == '\n'

/-- The words from here on; `word` is the present word, given backwards. -/
def wordsFrom (mode : WordsMode) (word : List Char) : List Char → Except WordsError (List String)
  | [] =>
    match mode with
    | .between => .ok []
    | .inWord => .ok [String.ofList word.reverse]
    | .single | .double => .error .unclosedQuote
  | c :: rest =>
    match mode with
    | .single =>
      if c = '\'' then wordsFrom .inWord word rest else wordsFrom .single (c :: word) rest
    | .double =>
      if c = '"' then wordsFrom .inWord word rest
      else if c = '\\' then
        match rest with
        | [] => .error .danglingEscape
        | e :: rest =>
          if e = '"' ∨ e = '\\' then wordsFrom .double (e :: word) rest
          else wordsFrom .double (e :: '\\' :: word) rest
      else wordsFrom .double (c :: word) rest
    | mode =>
      if isWordBreak c then
        match mode with
        | .inWord => (wordsFrom .between [] rest).map (String.ofList word.reverse :: ·)
        | _ => wordsFrom .between [] rest
      else if c = '\'' then wordsFrom .single word rest
      else if c = '"' then wordsFrom .double word rest
      else if c = '\\' then
        match rest with
        | [] => .error .danglingEscape
        | e :: rest => wordsFrom .inWord (e :: word) rest
      else wordsFrom .inWord (c :: word) rest

/-- The words of a line. -/
def words (line : String) : Except WordsError (List String) := wordsFrom .between [] line.toList

end SuperChip.Text
