import SuperChip.Listing.Listing
import SuperChip.Proofs.Asm.Source
import SuperChip.Proofs.Bytes
import SuperChip.Proofs.Listing.Walk

/-!
# The words of a listing as source lines

A program is the sequence of its words; an odd last byte makes a word with a zero byte behind it.
Each line of a listing puts one of these words into the program, under the label of its offset if it
has one, so that a listing is read as `WordLine`s.
-/

set_option autoImplicit false

namespace SuperChip

open SuperChip.Expr

/-! ## Words -/

namespace ProgramText

/-- The word at an offset within the program. -/
def wordAt (p : ProgramText) (o : Nat) : Nat :=
  Bytes.word (p.data.getD o 0) (p.data.getD (o + 1) 0)

/-- The number of words. -/
def wordCount (p : ProgramText) : Nat := (p.length + 1) / 2

/-- The words, in order. -/
def words (p : ProgramText) : List Nat := (List.range p.wordCount).map fun k => p.wordAt (2 * k)

/-- The bytes of the program, and a zero byte if their number is odd. -/
def evenBytes (p : ProgramText) : Bytes := if p.length % 2 = 0 then p.data else p.data.push 0

/-- There are as many words as are counted. -/
theorem length_words (p : ProgramText) : p.words.length = p.wordCount := by
  rw [words, List.length_map, List.length_range]

/-- A word has sixteen bits. -/
theorem wordAt_lt (p : ProgramText) (o : Nat) : p.wordAt o < 0x10000 := by
  have hhigh := (p.data.getD o 0).toNat_lt
  have hlow := (p.data.getD (o + 1) 0).toNat_lt
  unfold wordAt Bytes.word
  omega

/-- One byte behind the image reads as zero. -/
theorem getElem?_push_zero (p : ProgramText) {i : Nat} (h : i ≤ p.length) :
    (p.data.push 0)[i]? = some (p.data.getD i 0) := by
  rw [Array.getD_eq_getD_getElem?]
  obtain hlt | heq := Nat.lt_or_eq_of_le h
  · rw [Array.getElem?_push_lt hlt, Array.getElem?_eq_getElem hlt]
    rfl
  · subst heq
    rw [length, Array.getElem?_push_size, Array.getElem?_eq_none (Nat.le_refl _)]
    rfl

/-- Every offset within the image has a word. -/
theorem word?_eq_some {p : ProgramText} {o : Nat} (h : o < p.length) :
    p.word? (o : Int) = some (p.wordAt o) := by
  have hnext : (o : Int) + 1 = ((o + 1 : Nat) : Int) := rfl
  rw [word?, Bytes.word?, hnext, Cells.at?_natCast, Cells.at?_natCast,
    p.getElem?_push_zero (Nat.le_of_lt h), p.getElem?_push_zero h]
  rfl

/-- The image is filled up to whole words. -/
theorem size_evenBytes (p : ProgramText) : p.evenBytes.size = 2 * p.wordCount := by
  unfold evenBytes wordCount length
  split
  · omega
  · rw [Array.size_push]
    omega

/-- A zero byte may stand behind the program. -/
theorem getElem?_evenBytes (p : ProgramText) {i : Nat} (h : i < 2 * p.wordCount) :
    p.evenBytes[i]? = some (p.data.getD i 0) := by
  have hsize := p.size_evenBytes
  unfold evenBytes at hsize ⊢
  split
  · next heven =>
    rw [if_pos heven] at hsize
    have hlt : i < p.data.size := by omega
    rw [Array.getD_eq_getD_getElem?, Array.getElem?_eq_getElem hlt]
    rfl
  · next hodd =>
    rw [if_neg hodd, Array.size_push] at hsize
    exact p.getElem?_push_zero (by unfold length; omega)

/-- An instruction is unpacked from its word. -/
theorem instructionAt_eq_unpack (p : ProgramText) (o : Nat) :
    p.instructionAt o = .unpack (.ofWord (p.wordAt o) p.shiftsVy) (p.wordAt o) p.shiftsVy := by
  have hw : ((p.wordAt o : Int) % 0x10000).toNat = p.wordAt o := by
    have hlt := p.wordAt_lt o
    omega
  change Instruction.decode (p.wordAt o) p.shiftsVy = _
  rw [Instruction.decode, hw]

/-- An operation is that of its word. -/
theorem opAt_eq_ofWord (p : ProgramText) (o : Nat) :
    p.opAt o = .ofWord (p.wordAt o) p.shiftsVy := by
  rw [opAt, instructionAt_eq_unpack, Instruction.op_unpack]

/-- The bytes of a word of two bytes are these bytes. -/
theorem ofWord_word (high low : UInt8) : Bytes.ofWord (Bytes.word high low) = [high, low] := by
  have hhigh : (0x100 * high.toNat + low.toNat) / 0x100 = high.toNat := by
    have hlt := low.toNat_lt
    omega
  have hlow : UInt8.ofNat (0x100 * high.toNat + low.toNat) = low := by
    apply UInt8.toNat_inj.1
    have hlt := low.toNat_lt
    rw [UInt8.toNat_ofNat']
    omega
  rw [Bytes.word, Bytes.ofWord, hhigh, hlow, UInt8.ofNat_toNat]

/-- The bytes of all words are those of the filled image. -/
theorem flatMap_words (p : ProgramText) :
    p.words.flatMap Bytes.ofWord = p.evenBytes.toList := by
  have hrange : ∀ n, (List.range n).flatMap (fun k => Bytes.ofWord (p.wordAt (2 * k))) =
      (List.range (2 * n)).map fun i => p.data.getD i 0 := by
    intro n
    induction n with
    | zero => rfl
    | succ n ih =>
      rw [List.range_succ, List.flatMap_append, ih, List.flatMap_singleton, wordAt, ofWord_word,
        show 2 * (n + 1) = 2 * n + 1 + 1 from rfl, List.range_succ, List.range_succ,
        List.map_append, List.map_append, List.append_assoc]
      rfl
  -- the bytes are now given by their places, and the last one may lie behind the program
  rw [words, List.flatMap_map, hrange]
  apply List.ext_getElem?
  intro i
  have hright : p.evenBytes.toList[i]? = p.evenBytes[i]? := Array.getElem?_toList
  rw [List.getElem?_map, hright]
  by_cases hi : i < 2 * p.wordCount
  · rw [List.getElem?_range hi, p.getElem?_evenBytes hi]
    rfl
  · rw [List.getElem?_eq_none (by rw [List.length_range]; omega),
      Array.getElem?_eq_none (by rw [p.size_evenBytes]; omega)]
    rfl

end ProgramText

/-! ## Labels -/

namespace Listing

/-- A label as a name. -/
def label (n : Nat) : Name where
  first := 'L'
  rest := (Text.hex 3 n).toList
  start := by decide
  more := fun _ h => Text.isNameChar_of_isHexDigit (Text.isHexDigit_of_mem_hex h)

/-- A label is an L and the hexadecimal offset. -/
theorem toList_labelName (n : Nat) : (labelName n).toList = 'L' :: (Text.hex 3 n).toList := by
  rw [labelName, String.toList_append]
  rfl

/-- A label is a name of the assembler. -/
theorem labelName_eq_text (n : Nat) : labelName n = (label n).text := by
  rw [← String.toList_inj, toList_labelName, Name.text, String.toList_ofList]
  rfl

/-- Different offsets have different labels. -/
theorem labelName_injective {m n : Nat} (h : labelName m = labelName n) : m = n := by
  rw [← String.toList_inj, toList_labelName, toList_labelName] at h
  exact Text.hex_injective (String.toList_inj.1 (List.cons.inj h).2)

/-- A label is printed as a word. -/
theorem isWord_labelOf? (l : Listing) (i : Instruction) : ∀ s ∈ l.labelOf? i, IsWord s := by
  intro s hs
  simp only [labelOf?] at hs
  split at hs
  · next hif =>
    cases hs
    simp only [Bool.and_eq_true, decide_eq_true_eq] at hif
    obtain ⟨n, hn⟩ := Int.eq_ofNat_of_zero_le hif.1.2
    rw [hn]
    exact (labelName_eq_text n).symm ▸ isWord_name (label n)
  · cases hs

/-! ## Lines -/

/-- The label of an offset, if it has one. -/
def labelAt? (l : Listing) (o : Nat) : Option String :=
  if l.labels.contains o then some (labelName o) else none

/-- An offset that needs a label has its own. -/
theorem labelAt?_eq_some_iff {l : Listing} {o : Nat} {name : String} :
    l.labelAt? o = some name ↔ o ∈ l.labels ∧ labelName o = name := by
  unfold labelAt?
  rw [← List.contains_iff_mem]
  cases l.labels.contains o <;> simp

/-- The line of the word at an offset. -/
def wordLine (l : Listing) (o : Nat) : WordLine where
  text := l.column o ++ l.wordText o (l.program.wordAt o)
  label := l.labelAt? o
  outcome :=
    let i := l.program.instructionAt o
    if l.inData o then .ok (.word, ["#" ++ Text.hex 4 (l.program.wordAt o)])
    else if i.op = .invalid then .error (.invalidMnemonic "INVALID")
    else .ok (.instruction i.op, i.fieldTexts (l.labelOf? i) l.program.shiftsVy)

/-- The lines of all words. -/
def wordLines (l : Listing) : List WordLine :=
  (List.range l.program.wordCount).map fun k => l.wordLine (2 * k)

/-- There is a line for every word. -/
theorem length_wordLines (l : Listing) : l.wordLines.length = l.program.wordCount := by
  rw [wordLines, List.length_map, List.length_range]

/-- In front of a word stands its label or blanks. -/
theorem column_labelAt? (l : Listing) (o : Nat) :
    SourceLine.Column (l.labelAt? o) (l.column o) := by
  unfold labelAt? column
  split
  · rw [labelName_eq_text]
    exact .label (label o)
  · exact .blanks (List.all_eq_true.1 (by decide))

/-- Code is printed as its instruction. -/
theorem wordText_of_code {l : Listing} {o : Nat} (h : l.inData o = false) :
    l.wordText o (l.program.wordAt o) =
      (l.program.instructionAt o).text (l.labelOf? (l.program.instructionAt o))
        l.program.shiftsVy := by
  rw [wordText, if_neg (by rw [h]; decide)]
  rfl

/-- The text of a word that is data is a statement of that word. -/
theorem wordText_of_data {l : Listing} {o : Nat} (h : l.inData o = true) :
    l.wordText o (l.program.wordAt o) =
      Statement.written "DW" ["#" ++ Text.hex 4 (l.program.wordAt o)] := by
  rw [wordText, if_pos h, Statement.written, String.intercalate_singleton, ← String.append_assoc]
  · rfl
  · exact List.cons_ne_nil _ _

/-- The assembler reads a line of a listing as the item that it stands for. -/
theorem reads_wordLine (l : Listing) (o : Nat) :
    (l.wordLine o).Reads l.program.shiftsVy := by
  have hcolumn := l.column_labelAt? o
  have hfits : (l.program.instructionAt o).Fits := Instruction.fits_decode _ _
  cases hdata : l.inData o with
  | true =>
    simp only [wordLine, wordText_of_data hdata, hdata, if_true]
    exact WordLine.reads_word hcolumn (isWord_hex 4 (l.program.wordAt o)).isOperand
  | false =>
    simp only [wordLine, wordText_of_code hdata, hdata, Bool.false_eq_true, if_false]
    split
    · next hop => exact WordLine.reads_invalid hcolumn hfits hop _
    · next hop => exact WordLine.reads_instruction hcolumn hfits hop (l.isWord_labelOf? _)

/-- A line of a listing has no line break. -/
theorem unbroken_wordLine (l : Listing) (o : Nat) : Unbroken (l.wordLine o).text := by
  have hfits : (l.program.instructionAt o).Fits := Instruction.fits_decode _ _
  have hcolumn : Unbroken (l.column o) := by
    unfold column
    split
    · rw [labelName_eq_text]
      exact (isWord_name (label o)).unbroken.append (unbroken_of_any (by decide))
    · exact unbroken_of_any (by decide)
  refine hcolumn.append ?_
  cases hdata : l.inData o with
  | true =>
    rw [wordText_of_data hdata]
    refine unbroken_written (unbroken_of_any (by decide)) ?_
    exact List.forall_mem_singleton.2 (isWord_hex 4 (l.program.wordAt o)).unbroken
  | false =>
    rw [wordText_of_code hdata]
    by_cases hop : (l.program.instructionAt o).op = .invalid
    · rw [Instruction.text_eq_written_invalid hop]
      refine unbroken_written (unbroken_of_any (by decide)) ?_
      have hword := unbroken_hex 4 (l.program.instructionAt o).word.toNat
      rw [Int.toNat_of_nonneg hfits.word_nonneg] at hword
      refine List.forall_mem_singleton.2 (Unbroken.append (Unbroken.append ?_ hword) ?_)
      · exact unbroken_of_any (by decide)
      · exact unbroken_of_any (by decide)
    · exact hfits.unbroken_text hop (l.isWord_labelOf? _) l.program.shiftsVy

/-- The lines of a listing are those of its words, each with its offset. -/
theorem lines_eq (l : Listing) : l.lines =
    (List.range l.program.wordCount).map fun k => (2 * k, (l.wordLine (2 * k)).text) := by
  unfold lines offsets
  rw [List.filterMap_map, ← List.filterMap_eq_map]
  refine List.filterMap_congr fun k hk => ?_
  have hlt : 2 * k < l.program.length := by
    have hk' := List.mem_range.1 hk
    omega
  simp only [Function.comp_apply, textAt?, ProgramText.word?_eq_some hlt]
  rfl

/-- A listing has one line for each even offset of the program. -/
theorem mem_lines_iff {l : Listing} {o : Nat} {text : String} :
    (o, text) ∈ l.lines ↔ o % 2 = 0 ∧ o < l.program.length ∧ text = (l.wordLine o).text := by
  rw [lines_eq, ProgramText.wordCount, List.mem_map]
  simp only [List.mem_range, Prod.mk.injEq]
  constructor
  · rintro ⟨k, hk, rfl, rfl⟩
    exact ⟨by omega, by omega, rfl⟩
  · rintro ⟨heven, hlt, rfl⟩
    have htwo : 2 * (o / 2) = o := by omega
    exact ⟨o / 2, by omega, htwo, by rw [htwo]⟩

/-- A listing is cut into its lines again. -/
theorem lines_dump (l : Listing) : Text.lines l.dump = l.wordLines.map WordLine.text := by
  have hlines : l.lines.map Prod.snd = l.wordLines.map WordLine.text := by
    rw [lines_eq, wordLines, List.map_map, List.map_map]
    rfl
  have hdump : l.dump = String.join ((l.wordLines.map WordLine.text).map (· ++ "\n")) := by
    rw [dump, ← hlines, List.map_map]
    rfl
  rw [hdump, Text.lines_join]
  intro t ht
  obtain ⟨line, hline, rfl⟩ := List.mem_map.1 ht
  obtain ⟨k, -, rfl⟩ := List.mem_map.1 hline
  exact l.unbroken_wordLine (2 * k)

/-- No label stands in front of two lines. -/
theorem nodup_names (l : Listing) : (WordLine.names l.wordLines).Nodup := by
  unfold WordLine.names wordLines
  rw [List.filterMap_map]
  refine List.Nodup.filterMap ?_ List.nodup_range
  intro j k name hj hk
  have hj' := labelAt?_eq_some_iff.1 hj
  have hk' := labelAt?_eq_some_iff.1 hk
  have heq := labelName_injective (hj'.2.trans hk'.2.symm)
  omega

end Listing

end SuperChip
