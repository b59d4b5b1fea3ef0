import SuperChip.Asm.Statement
import SuperChip.Proofs.Expr.Lexing

/-!
# Reading a written statement

A statement is written as its mnemonic and, behind a blank, its operands with a comma and a blank
between them; a label with a colon and a blank may stand in front. The assembler takes such a line
apart into the label, the mnemonic and just these operands.
-/

set_option autoImplicit false

namespace SuperChip

open Text SuperChip.Expr

/-- A text that stands for one operand: it holds no comma and no comment, and it neither starts nor
ends with a blank. -/
structure IsOperand (s : String) : Prop where
  chars : ∀ c ∈ s.toList, Statement.isOperandChar c = true
  first : ∃ c rest, s.toList = c :: rest ∧ isBlank c = false ∧ c ≠ '='
  last : ∀ c ∈ s.toList.getLast?, isBlank c = false

namespace Statement

/-- A mnemonic and its operands as a text. -/
def written (mnemonic : String) (operands : List String) : String :=
  match operands with
  | [] => mnemonic
  | operands => mnemonic ++ " " ++ String.intercalate ", " operands

/-- Operands as they follow another one. -/
def tailChars : List String → List Char
  | [] => []
  | s :: rest => ',' :: ' ' :: (s.toList ++ tailChars rest)

/-- The characters of operands. -/
def operandChars : List String → List Char
  | [] => []
  | s :: rest => s.toList ++ tailChars rest

/-- Operands joined by commas are the characters of operands. -/
theorem toList_intercalate_cons (s : String) (rest : List String) :
    (String.intercalate ", " (s :: rest)).toList = operandChars (s :: rest) := by
  induction rest generalizing s with
  | nil =>
    rw [String.intercalate_singleton, operandChars, tailChars, List.append_nil]
  | cons t rest ih =>
    rw [String.intercalate_cons_cons, String.toList_append, String.toList_append, ih,
      List.append_assoc]
    rfl

/-- A statement is printed as its mnemonic, a space and its operands. -/
theorem toList_written (mnemonic : String) (operands : List String) :
    (written mnemonic operands).toList =
      mnemonic.toList ++ match operands with
        | [] => []
        | operands => ' ' :: operandChars operands := by
  cases operands with
  | nil => exact (List.append_nil _).symm
  | cons s rest =>
    simp only [written]
    rw [String.toList_append, String.toList_append, toList_intercalate_cons, List.append_assoc]
    rfl

/-! ## Operands -/

/-- A text that ends with no blank is not cut at its end. -/
theorem trimEnd_eq_self {cs : List Char} (h : ∀ c ∈ cs.getLast?, isBlank c = false) :
    trimEnd cs = cs := by
  have hrev : Stops isBlank cs.reverse := by
    intro c hc
    rw [List.head?_reverse] at hc
    exact h c hc
  have hdrop := dropWhile_append_stops (w := []) nofun hrev
  rw [List.nil_append] at hdrop
  rw [trimEnd, hdrop, List.reverse_reverse]

/-- Behind an operand there is no further character of it. -/
theorem stops_tailChars (rest : List String) : Stops isOperandChar (tailChars rest) := by
  cases rest with
  | nil => intro c hc; cases hc
  | cons s rest => intro c hc; cases hc; decide

/-- An operand is read up to the comma behind it. -/
theorem takeOperand_append {s : String} (hs : IsOperand s) (rest : List String) :
    takeOperand (s.toList ++ tailChars rest) = (s, tailChars rest) := by
  rw [takeOperand, takeWhile_append_stops hs.chars (stops_tailChars rest),
    dropWhile_append_stops hs.chars (stops_tailChars rest), trimEnd_eq_self hs.last,
    String.ofList_toList]

/-- An operand is not empty. -/
theorem isEmpty_eq_false {s : String} (hs : IsOperand s) : s.isEmpty = false := by
  obtain ⟨c, rest, hcons, -⟩ := hs.first
  rw [String.isEmpty_eq_false_iff]
  rintro rfl
  cases hcons

/-- The blanks in front of an operand are left out. -/
theorem skipBlanks_append {s : String} (hs : IsOperand s) {g : List Char}
    (hg : ∀ c ∈ g, isBlank c = true) (r : List Char) :
    skipBlanks (g ++ (s.toList ++ r)) = s.toList ++ r := by
  obtain ⟨c, rest, hcons, hblank, -⟩ := hs.first
  refine dropWhile_append_stops hg ?_
  rw [hcons]
  intro d hd
  cases hd
  exact hblank

/-- The operands behind others are taken one by one, as long as there are not too many. -/
theorem moreOperands_tailChars {rest found : List String} (hrest : ∀ s ∈ rest, IsOperand s)
    (hlen : found.length + rest.length ≤ maxOperands) :
    moreOperands found (tailChars rest) = .ok (found ++ rest) := by
  induction rest generalizing found with
  | nil =>
    rw [tailChars, moreOperands, List.append_nil]
    intro rest h
    cases h
  | cons s rest ih =>
    have hs := hrest s (.head _)
    have hskip := skipBlanks_append hs isBlank_of_mem_space (tailChars rest)
    rw [List.length_cons] at hlen
    -- this operand still has room, and so have those behind it
    have hroom : ¬maxOperands ≤ found.length := by omega
    rw [tailChars, moreOperands]
    rw [List.singleton_append] at hskip
    simp only [hskip, takeOperand_append hs, isEmpty_eq_false hs, hroom, if_false,
      Bool.false_eq_true]
    have hlen' : (found ++ [s]).length + rest.length ≤ maxOperands := by
      rw [List.length_append, List.length_singleton]
      omega
    rw [ih (fun s h => hrest s (.tail _ h)) hlen', List.append_assoc]
    rfl

/-- Printed operands are read as they were, if they are not too many. -/
theorem operands_operandChars {operands : List String} (hops : ∀ s ∈ operands, IsOperand s)
    (hlen : operands.length ≤ maxOperands) (name : String) (assigns : Bool) :
    Statement.operands ⟨name, assigns, operandChars operands⟩ = .ok operands := by
  cases operands with
  | nil => rfl
  | cons s rest =>
    have hs := hops s (.head _)
    rw [Statement.operands]
    simp only [operandChars, takeOperand_append hs, isEmpty_eq_false hs, Bool.false_eq_true,
      if_false]
    refine moreOperands_tailChars (fun s h => hops s (.tail _ h)) ?_
    rwa [List.length_singleton, Nat.add_comm]

/-- Operands behind the first are refused if one is empty or they are too many. -/
theorem cause_of_moreOperands {found : List String} {cs : List Char} {cause : AsmCause}
    (h : moreOperands found cs = .error cause) :
    cause = .emptyOperand ∨ cause = .operandOverflow := by
  fun_induction moreOperands found cs with
  | case1 => cases h; exact .inl rfl
  | case2 => cases h; exact .inr rfl
  | case3 found rest hlt next hempty hmany ih => exact ih h
  | case4 => cases h

/-- Operands are refused where one is empty or there are too many, and for nothing else. -/
theorem cause_of_operands {s : Statement} {cause : AsmCause} (h : s.operands = .error cause) :
    cause = .emptyOperand ∨ cause = .operandOverflow := by
  unfold operands at h
  dsimp only at h
  split at h
  · split at h
    · cases h
      exact .inl rfl
    · cases h
  · exact cause_of_moreOperands h

/-! ## Lines -/

/-- What stands behind a mnemonic is read as operands, not as an assignment. -/
theorem ofName_operandChars (name : String) {operands : List String}
    (hops : ∀ s ∈ operands, IsOperand s) :
    ofName name (match operands with | [] => [] | operands => ' ' :: operandChars operands) =
      ⟨name, false, operandChars operands⟩ := by
  cases operands with
  | nil => rfl
  | cons s rest =>
    have hs := hops s (.head _)
    have hskip := skipBlanks_append hs isBlank_of_mem_space (tailChars rest)
    obtain ⟨c, r, hcons, -, hne⟩ := hs.first
    rw [ofName]
    rw [List.singleton_append, hcons, List.cons_append] at hskip
    simp only [operandChars, hcons, List.cons_append, hskip]
    split
    · next heq => cases heq; exact absurd rfl hne
    · rfl

end Statement

namespace SourceLine

open Statement

/-- A name in front of a colon is a label, and the line goes on behind it. -/
theorem parseFrom_label {found : List String} {cs rest : List Char} {name : String}
    (h : takeName? cs = some (name, ':' :: rest)) :
    parseFrom found cs = parseFrom (found ++ [name]) (skipBlanks rest) := by
  rw [parseFrom]
  split
  · next hnone => rw [h] at hnone; cases hnone
  · next heq => rw [h] at heq; cases heq; rfl
  · next hne heq => rw [h] at heq; cases heq; exact (hne rest rfl).elim

/-- A name that is not in front of a colon begins the statement. -/
theorem parseFrom_statement {found : List String} {cs rest : List Char} {name : String}
    (h : takeName? cs = some (name, rest)) (hrest : ∀ r, rest ≠ ':' :: r) :
    parseFrom found cs = ⟨found, some (ofName name rest)⟩ := by
  rw [parseFrom]
  split
  · next hnone => rw [h] at hnone; cases hnone
  · next heq => rw [h] at heq; cases heq; exact absurd rfl (hrest _)
  · next hne heq => rw [h] at heq; cases heq; rfl

/-- A written statement is read as its mnemonic and its operands. -/
theorem parseFrom_written (found : List String) (m : Name) {operands : List String}
    (hops : ∀ s ∈ operands, IsOperand s) :
    parseFrom found (written m.text operands).toList =
      ⟨found, some ⟨m.text, false, operandChars operands⟩⟩ := by
  rw [← ofName_operandChars m.text hops, toList_written, Name.text, String.toList_ofList]
  cases operands with
  | nil => exact parseFrom_statement (m.takeName?_append nofun) nofun
  | cons s rest =>
    refine parseFrom_statement (m.takeName?_append ?_) nofun
    intro c hc
    cases hc
    decide

/-- The blanks in front of a printed statement are left out. -/
theorem skipBlanks_written (m : Name) (operands : List String) {g : List Char}
    (hg : ∀ c ∈ g, isBlank c = true) :
    skipBlanks (g ++ (written m.text operands).toList) = (written m.text operands).toList := by
  refine dropWhile_append_stops hg ?_
  rw [toList_written, Name.text, String.toList_ofList]
  intro c hc
  cases hc
  exact isBlank_of_isNameChar (isNameChar_of_isNameStart m.start)

/-- A printed statement behind blanks is read as it was, without labels. -/
theorem parse_blanks_append (m : Name) {operands : List String} {g : String}
    (hops : ∀ s ∈ operands, IsOperand s) (hg : ∀ c ∈ g.toList, isBlank c = true) :
    parse (g ++ written m.text operands) =
      ⟨[], some ⟨m.text, false, operandChars operands⟩⟩ := by
  rw [parse, String.toList_append, skipBlanks_written m operands hg, parseFrom_written [] m hops]

/-- A printed statement behind a label is read as it was, with that label. -/
theorem parse_label_append (n m : Name) {operands : List String}
    (hops : ∀ s ∈ operands, IsOperand s) :
    parse (n.text ++ ": " ++ written m.text operands) =
      ⟨[n.text], some ⟨m.text, false, operandChars operands⟩⟩ := by
  have hcolon : (n.text ++ ": ").toList = n.chars ++ [':', ' '] := by
    rw [String.toList_append, Name.text, String.toList_ofList]
    rfl
  have hskip : ∀ r, skipBlanks (n.chars ++ r) = n.chars ++ r := by
    intro r
    refine dropWhile_append_stops (w := []) nofun ?_
    intro c hc
    cases hc
    exact isBlank_of_isNameChar (isNameChar_of_isNameStart n.start)
  have htake : takeName? (n.chars ++ ':' :: ' ' :: (written m.text operands).toList) =
      some (n.text, ':' :: ' ' :: (written m.text operands).toList) := by
    refine n.takeName?_append ?_
    intro c hc
    cases hc
    decide
  rw [parse, String.toList_append, hcolon, List.append_assoc, hskip]
  rw [show [':', ' '] ++ (written m.text operands).toList =
    ':' :: ' ' :: (written m.text operands).toList from rfl, parseFrom_label htake]
  have hblank := skipBlanks_written m operands isBlank_of_mem_space
  rw [List.singleton_append] at hblank
  rw [hblank, parseFrom_written _ m hops]
  rfl

/-- What may stand in front of a statement: blanks, or a label with its colon. -/
inductive Column : Option String → String → Prop where
  | blanks {g : String} (hg : ∀ c ∈ g.toList, isBlank c = true) : Column none g
  | label (n : Name) : Column (some n.text) (n.text ++ ": ")

/-- A statement behind its column has the label of the column. -/
theorem parse_column_append {label : Option String} {column : String} (h : Column label column)
    (m : Name) {operands : List String} (hops : ∀ s ∈ operands, IsOperand s) :
    parse (column ++ written m.text operands) =
      ⟨label.toList, some ⟨m.text, false, operandChars operands⟩⟩ := by
  cases h with
  | blanks hg => exact parse_blanks_append m hops hg
  | label n => exact parse_label_append n m hops

end SourceLine

end SuperChip
