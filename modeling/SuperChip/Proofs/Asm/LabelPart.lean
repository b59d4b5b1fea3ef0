import SuperChip.Proofs.Asm.Statement

/-!
# The labels at the front of a line

The label part of a line is its text up to the statement: the leading blanks and each label with its
colon and the blanks behind it. A line cut to its label part has the same labels and no statement
(`SourceLine.parse_labelPart`).
-/

set_option autoImplicit false

namespace SuperChip

open Text SuperChip.Expr

namespace SourceLine

/-- The labels at the front of a text without leading blanks, with their colons and the blanks
behind them. -/
def labelChars (cs : List Char) : List Char :=
  match h : takeName? cs with
  | none => []
  | some (name, ':' :: rest) =>
    have : (skipBlanks rest).length < cs.length := by
      have h1 := length_lt_of_takeName? h
      have h2 := length_skipBlanks_le rest
      simp only [List.length_cons] at h1
      omega
    name.toList ++ ':' :: (rest.takeWhile isBlank ++ labelChars (skipBlanks rest))
  | some _ => []
termination_by cs.length

/-- The text of a line in front of its statement. -/
def labelPart (text : String) : String :=
  String.ofList (text.toList.takeWhile isBlank ++ labelChars (skipBlanks text.toList))

/-- The label part starts with a name, if with anything. -/
theorem stops_labelChars (cs : List Char) : Stops isBlank (labelChars cs) := by
  intro c hc
  rw [labelChars] at hc
  split at hc
  · cases hc
  · next name rest h =>
    obtain ⟨n, rfl, -⟩ := exists_name_of_takeName? h
    have hname : n.text.toList = n.first :: n.rest := String.toList_ofList
    rw [hname] at hc
    cases hc
    exact isBlank_of_isNameChar (isNameChar_of_isNameStart n.start)
  · cases hc

/-- Leading blanks end where the label part has its first name. -/
theorem skipBlanks_blanks_labelChars (cs rest : List Char) :
    skipBlanks (cs.takeWhile isBlank ++ labelChars rest) = labelChars rest :=
  dropWhile_append_stops (List.all_eq_true.1 List.all_takeWhile) (stops_labelChars rest)

/-- The label part of a line begins with its first label and the blanks behind it. -/
theorem labelChars_label {n : Name} {cs rest : List Char}
    (h : takeName? cs = some (n.text, ':' :: rest)) :
    labelChars cs =
      n.chars ++ ':' :: (rest.takeWhile isBlank ++ labelChars (skipBlanks rest)) := by
  rw [labelChars]
  split
  · next hnone => rw [h] at hnone; cases hnone
  · next heq => rw [h] at heq; cases heq; exact congrArg (· ++ _) String.toList_ofList
  · next hne heq => rw [h] at heq; cases heq; exact (hne _ _ rfl).elim

/-- Without a label in front the label part is empty. -/
theorem labelChars_eq_nil {cs : List Char}
    (h : ∀ name rest, takeName? cs ≠ some (name, ':' :: rest)) : labelChars cs = [] := by
  rw [labelChars]
  split
  · rfl
  · next heq => exact absurd heq (h _ _)
  · rfl

/-- In the label part of a line the same labels are found, and no statement. -/
theorem parseFrom_labelChars (found : List String) (cs : List Char) :
    parseFrom found (labelChars cs) = ⟨(parseFrom found cs).labels, none⟩ := by
  fun_induction parseFrom found cs with
  | case1 found cs hnone =>
    have hnil : labelChars cs = [] := labelChars_eq_nil (by simp [hnone])
    rw [hnil, parseFrom]
    rfl
  | case2 found cs name rest hname hlt ih =>
    obtain ⟨n, rfl, -⟩ := exists_name_of_takeName? hname
    have htake : takeName? (labelChars cs) =
        some (n.text, ':' :: (rest.takeWhile isBlank ++ labelChars (skipBlanks rest))) := by
      rw [labelChars_label hname]
      apply n.takeName?_append
      intro c hc
      cases hc
      decide
    rw [parseFrom_label htake, skipBlanks_blanks_labelChars, ih]
  | case3 found cs name rest hne hname =>
    have hnil : labelChars cs = [] := by
      refine labelChars_eq_nil fun _ _ heq => ?_
      rw [hname] at heq
      cases heq
      exact hne _ rfl
    rw [hnil, parseFrom]
    rfl

/-- A line cut to its label part has the same labels and no statement. -/
theorem parse_labelPart (text : String) : parse (labelPart text) = ⟨(parse text).labels, none⟩ := by
  rw [parse, labelPart, String.toList_ofList, skipBlanks_blanks_labelChars, parseFrom_labelChars]
  rfl

/-- The labels of a line are names. -/
theorem exists_name_of_mem_labels {text label : String} (h : label ∈ (parse text).labels) :
    ∃ n : Name, label = n.text := by
  have hfrom : ∀ (found : List String) cs, label ∈ (parseFrom found cs).labels →
      label ∈ found ∨ ∃ n : Name, label = n.text := by
    intro found cs
    fun_induction parseFrom found cs with
    | case1 found cs hnone => exact .inl
    | case2 found cs name rest hname hlt ih =>
      intro h
      obtain hfound | hname' := ih h
      · obtain hfound | hlast := List.mem_append.1 hfound
        · exact .inl hfound
        · obtain ⟨n, rfl, -⟩ := exists_name_of_takeName? hname
          exact .inr ⟨n, List.mem_singleton.1 hlast⟩
      · exact .inr hname'
    | case3 => exact .inl
  obtain h | h := hfrom [] _ h
  · cases h
  · exact h

end SourceLine

end SuperChip
