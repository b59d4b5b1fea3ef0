import SuperChip.Proofs.Asm.Item
import SuperChip.Proofs.Asm.Layout
import SuperChip.Proofs.Bytes

/-!
# Assembling lines that hold a word each

The layout of the lines and the emission of their items, put together. Such lines are assembled into
their words one behind the other (`assembleLines_words`), if every line is taken and every item is
encoded. A line that is not taken stops the assembler before anything is emitted
(`assembleLines_refused`); an expression without a value stops it after that
(`assembleLines_expression`).
-/

set_option autoImplicit false

namespace SuperChip.WordLine

variable {shiftsVy : Bool} {lines : List WordLine}

/-- No instructions leave a new assembler as it is. -/
theorem laid_nil (shiftsVy : Bool) : laid shiftsVy [] = { shiftsVy } := rfl

/-! ## Items of lines -/

section Items

variable (hok : ∀ l ∈ lines, ∃ item, l.outcome = .ok item)
include hok

/-- Each line leaves one item. -/
theorem length_items : (items lines).length = lines.length := by
  have hlength := congrArg List.length (map_some_items hok)
  rwa [List.length_map, List.length_map, List.length_zipIdx] at hlength

/-- The items of lines that are not refused are those of the lines, in order. -/
theorem exists_line_of_getElem?_items {k : Nat} {item : Item} (hk : (items lines)[k]? = some item) :
    ∃ l, lines[k]? = some l ∧ l.item? k = some item := by
  have hsome := congrArg (·[k]?) (map_some_items hok)
  simp only [List.getElem?_map, List.getElem?_zipIdx, Nat.zero_add, hk, Option.map_some,
    Option.map_map] at hsome
  obtain ⟨l, hl, hitem⟩ := Option.map_eq_some_iff.1 hsome.symm
  exact ⟨l, hl, hitem⟩

/-- The items of lines that are not refused stand one behind the other. -/
theorem consecutive_items : Item.Consecutive 0 (items lines) := by
  intro k item hk
  obtain ⟨l, -, hitem⟩ := exists_line_of_getElem?_items hok hk
  unfold item? at hitem
  split at hitem
  · cases hitem
    simp only [addressOf, Nat.zero_add, Nat.cast_mul, Nat.cast_ofNat]
  · cases hitem

end Items

/-! ## The whole source -/

section Assemble

variable (hreads : ∀ l ∈ lines, l.Reads shiftsVy) (hnodup : (names lines).Nodup)
include hreads hnodup

/-- If a line is refused, so is the source, with the cause of one of its lines. -/
theorem assembleLines_refused (hbad : ∃ l ∈ lines, ∃ cause, l.outcome = .error cause) :
    ∃ e, (Assembler.assembleLines shiftsVy (lines.map text)).2 = .error e ∧
      ∃ l ∈ lines, l.outcome = .error e.cause := by
  rw [← List.nil_append lines] at hnodup
  obtain ⟨a, notices, e, hrun, hcause⟩ := processLines_refused hreads hbad hnodup
  rw [laid_nil] at hrun
  refine ⟨e, ?_, hcause⟩
  rw [Assembler.assembleLines, hrun]

variable (hok : ∀ l ∈ lines, ∃ item, l.outcome = .ok item)
include hok

/-- Lines that are not refused are assembled into what the emission of their items gives. -/
theorem assembleLines_laid :
    (Assembler.assembleLines shiftsVy (lines.map text)).2 =
      match Item.writeAll (table lines) shiftsVy {} (items lines) with
      | (_, some e) => .error e
      | (image, none) => .ok image.toBytes := by
  rw [← List.nil_append lines] at hnodup
  have hrun := processLines_laid hreads hok hnodup
  rw [laid_nil, List.nil_append] at hrun
  rw [Assembler.assembleLines, hrun]
  dsimp only [Assembler.emit, laid]
  generalize Item.writeAll (table lines) shiftsVy {} (items lines) = written
  obtain ⟨image, result⟩ := written
  cases result <;> rfl

/-- If the items of the lines are encoded as words, the lines are assembled into these words. -/
theorem assembleLines_words {words : List Nat}
    (hencode : List.Forall₂ (fun (item : Item) w =>
      item.encode (table lines) shiftsVy = .ok (Bytes.ofWord w)) (items lines) words)
    (hfit : 2 * words.length ≤ programSize) :
    (Assembler.assembleLines shiftsVy (lines.map text)).2 =
      .ok (words.flatMap Bytes.ofWord).toArray := by
  obtain ⟨final, hfinal, hholds⟩ :=
    Item.writeAll_holds .empty hencode (consecutive_items hok)
      (by rwa [List.length_nil, Nat.zero_add])
  rw [List.nil_append] at hholds
  rw [assembleLines_laid hreads hnodup hok, hfinal]
  dsimp only
  rw [hholds.toBytes (by rwa [Bytes.length_flatMap_ofWord])]

/-- If an item has an expression without a value, and every other item its word, the lines are
refused for an expression. -/
theorem assembleLines_expression
    (hencode : ∀ item ∈ items lines,
      (∃ w, item.encode (table lines) shiftsVy = .ok (Bytes.ofWord w)) ∨
      ∃ cause, item.encode (table lines) shiftsVy = .error cause ∧ cause.isExpression = true)
    (hbad : ∃ item ∈ items lines, ∃ cause, item.encode (table lines) shiftsVy = .error cause)
    (hfit : 2 * lines.length ≤ programSize) :
    ∃ e, (Assembler.assembleLines shiftsVy (lines.map text)).2 = .error e ∧
      e.cause.isExpression = true := by
  rw [← length_items hok] at hfit
  obtain ⟨final, e, hfinal, hcause⟩ :=
    Item.writeAll_expression .empty hencode hbad (consecutive_items hok)
      (by rwa [List.length_nil, Nat.zero_add])
  refine ⟨e, ?_, hcause⟩
  rw [assembleLines_laid hreads hnodup hok, hfinal]

end Assemble

end SuperChip.WordLine
