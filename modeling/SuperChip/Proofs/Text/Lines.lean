import SuperChip.Text.Lines

/-!
# Lines that are joined and cut again

A text of lines, each with a line feed behind it, has just these lines, as long as no line holds a
line break itself. So has a text of lines with line feeds between them, if no line is empty.
-/

set_option autoImplicit false

namespace SuperChip.Text

/-- Up to its line feed a line without line breaks is read as a whole. -/
theorem linesFrom_append {t : List Char} (ht : ∀ c ∈ t, isLineBreak c = false)
    (current rest : List Char) :
    linesFrom isLineBreak current (t ++ '\n' :: rest) =
      (current.reverse ++ t) :: linesFrom isLineBreak [] rest := by
  induction t generalizing current with
  | nil =>
    rw [List.append_nil, List.nil_append, linesFrom, if_pos (by decide)]
    intro r hr
    cases hr
  | cons c t ih =>
    have hc : isLineBreak c = false := ht c (.head _)
    have hreturn : c ≠ '\r' := by
      rintro rfl
      revert hc
      decide
    rw [List.cons_append, linesFrom, if_neg (by rw [hc]; decide),
      ih (fun d hd => ht d (.tail _ hd)), List.reverse_cons, List.append_assoc]
    · rfl
    · intro r hr
      exact absurd hr hreturn

/-- Without a line break the rest of a text is one line, or none if nothing is left. -/
theorem linesFrom_of_unbroken {t : List Char} (ht : ∀ c ∈ t, isLineBreak c = false)
    {current : List Char} (hne : current.reverse ++ t ≠ []) :
    linesFrom isLineBreak current t = [current.reverse ++ t] := by
  induction t generalizing current with
  | nil =>
    rw [List.append_nil] at hne ⊢
    rw [linesFrom, if_neg]
    rw [List.isEmpty_iff]
    rintro rfl
    exact hne rfl
  | cons c t ih =>
    have hc : isLineBreak c = false := ht c (.head _)
    have hreturn : c ≠ '\r' := by
      rintro rfl
      revert hc
      decide
    rw [linesFrom, if_neg (by rw [hc]; decide), ih (fun d hd => ht d (.tail _ hd)) (by simp),
      List.reverse_cons, List.append_assoc]
    · rfl
    · intro r hr
      exact absurd hr hreturn

/-- Lines without line breaks, each with a line feed behind it, are cut apart again. -/
theorem lines_join {ts : List String} (hts : ∀ t ∈ ts, ∀ c ∈ t.toList, isLineBreak c = false) :
    lines (String.join (ts.map (· ++ "\n"))) = ts := by
  have hfrom : linesFrom isLineBreak [] (ts.flatMap fun t => t.toList ++ ['\n']) =
      ts.map String.toList := by
    induction ts with
    | nil => rfl
    | cons t ts ih =>
      rw [List.flatMap_cons, List.append_assoc, List.singleton_append,
        linesFrom_append (hts t (.head _)), ih (fun t ht => hts t (.tail _ ht))]
      rfl
  rw [lines, String.toList_join, List.flatMap_map]
  simp only [String.toList_append]
  rw [show "\n".toList = ['\n'] from rfl, hfrom, List.map_map]
  simp only [Function.comp_def, String.ofList_toList, List.map_id']

/-- Lines without line breaks, with line feeds between them, are cut apart again if none is
empty. -/
theorem lines_intercalate {ts : List String} (hts : ∀ t ∈ ts, ∀ c ∈ t.toList, isLineBreak c = false)
    (hne : ∀ t ∈ ts, t ≠ "") : lines (String.intercalate "\n" ts) = ts := by
  have hfrom : linesFrom isLineBreak [] (String.intercalate "\n" ts).toList =
      ts.map String.toList := by
    induction ts with
    | nil => rfl
    | cons t rest ih =>
      have ht := hts t (.head _)
      cases rest with
      | nil =>
        rw [String.intercalate_singleton, linesFrom_of_unbroken ht]
        · rfl
        · exact fun h => hne t (.head _) (String.toList_eq_nil_iff.1 h)
      | cons u rest =>
        rw [String.intercalate_cons_cons, String.append_assoc, String.toList_append,
          String.toList_append, show "\n".toList = ['\n'] from rfl, List.singleton_append,
          linesFrom_append ht, ih (fun t h => hts t (.tail _ h)) (fun t h => hne t (.tail _ h))]
        rfl
  rw [lines, hfrom, List.map_map]
  simp only [Function.comp_def, String.ofList_toList, List.map_id']

end SuperChip.Text
