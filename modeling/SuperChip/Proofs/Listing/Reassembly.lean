import SuperChip.Proofs.Asm.Assemble
import SuperChip.Proofs.Listing.ReachedCode
import SuperChip.Proofs.Listing.Words

/-!
# Listings assemble again

The text of a listing, given to the assembler, yields the program that was listed, with a zero byte
behind an odd last one. Two things may prevent it, and then the assembler refuses the text: a word
that is shown as code but is no instruction, and an instruction whose address is an odd offset with
a label, which stands in front of no line. `assemble_dump` is the whole statement; the bytes that
come out are never others than those that went in.
-/

set_option autoImplicit false

namespace SuperChip.Listing

open ProgramText SuperChip.Expr

/-- At an even offset that is no data stands a word that is no instruction. -/
def ShowsInvalid (l : Listing) (o : Nat) : Prop :=
  o % 2 = 0 ∧ o < l.program.length ∧ l.inData o = false ∧ l.program.opAt o = .invalid

/-- At an even offset that is no data stands an instruction whose address is an odd offset with a
label. -/
def RefersToOdd (l : Listing) (o : Nat) : Prop :=
  o % 2 = 0 ∧ o < l.program.length ∧ l.inData o = false ∧
    (l.program.opAt o).usesAddress = true ∧
    ∃ n ∈ l.labels, n % 2 = 1 ∧ l.program.targetAt o = n

/-- The program of a listing fits program memory, and its labels stand for offsets in the
program. -/
structure Bounded (l : Listing) : Prop where
  length_le : l.program.length ≤ programSize
  label_lt : ∀ n ∈ l.labels, n < l.program.length

/-- Every listing of a program is bounded. -/
theorem bounded_of_ofBytes {data : Bytes} {shiftsVy : Bool} {notices : List PathNotice}
    {l : Listing} (h : ofBytes data shiftsVy = (notices, .ok l)) : l.Bounded := by
  obtain ⟨s, hs, rfl⟩ := exists_survey_of_ofBytes h
  refine ⟨Survey.length_le_of_ofProgram hs, fun n hn => ?_⟩
  obtain ⟨-, -, -, -, -, -, -, hlt⟩ := ((Survey.tells_ofProgram hs).label_iff n).1 hn
  exact hlt

/-- The words of a bounded listing fit into program memory. -/
theorem Bounded.wordCount_le {l : Listing} (hl : l.Bounded) :
    2 * l.program.wordCount ≤ programSize := by
  have hle := hl.length_le
  have heven : programSize = 2 * (programSize / 2) := by decide
  unfold ProgramText.wordCount
  omega

/-! ## Addresses -/

section Target

variable {l : Listing}

/-- An address with a label is printed as that label. -/
theorem labelOf?_of_mem {i : Instruction} {n : Nat} (huses : i.usesAddress = true)
    (htarget : i.address - programStart = n) (hn : n ∈ l.labels) :
    l.labelOf? i = some (labelName n) := by
  have hcontains : l.labels.contains n = true := List.contains_iff_mem.2 hn
  simp only [labelOf?, huses, htarget, Int.toNat_natCast, hcontains, Int.natCast_nonneg,
    decide_true, Bool.and_self, if_true]

/-- An address without a label is printed as a number. -/
theorem labelOf?_of_not_mem {i : Instruction} (h : ∀ n ∈ l.labels, i.address - programStart ≠ n) :
    l.labelOf? i = none := by
  simp only [labelOf?]
  rw [if_neg]
  simp only [Bool.and_eq_true, decide_eq_true_eq, List.contains_iff_mem]
  rintro ⟨⟨-, hnonneg⟩, hmem⟩
  exact h _ hmem (Int.toNat_of_nonneg hnonneg).symm

/-- The assembler binds an even label to its own address. -/
theorem find?_label (hl : l.Bounded) {n : Nat} (hn : n ∈ l.labels) (heven : n % 2 = 0) :
    (WordLine.table l.wordLines).find? (label n).text = some ((programStart : Int) + n) := by
  have hlt := hl.label_lt n hn
  have hk : n / 2 < l.program.wordCount := by
    unfold wordCount
    omega
  have htwo : 2 * (n / 2) = n := by omega
  have hline : l.wordLines[n / 2]? = some (l.wordLine n) := by
    unfold wordLines
    rw [List.getElem?_map, List.getElem?_range hk, Option.map_some, htwo]
  have hlabel : (l.wordLine n).label = some (label n).text :=
    labelAt?_eq_some_iff.2 ⟨hn, labelName_eq_text n⟩
  rw [WordLine.find?_table l.nodup_names hline hlabel, WordLine.addressOf]
  congr 2
  omega

/-- The label of an odd offset stands in front of no line. -/
theorem find?_label_odd (l : Listing) {n : Nat} (hodd : n % 2 = 1) :
    (WordLine.table l.wordLines).find? (label n).text = none := by
  refine WordLine.find?_table_eq_none fun hmem => ?_
  obtain ⟨line, hline, hlabel⟩ := List.mem_filterMap.1 hmem
  obtain ⟨k, -, rfl⟩ := List.mem_map.1 hline
  have hname := (labelAt?_eq_some_iff.1 hlabel).2
  rw [← labelName_eq_text] at hname
  have heq := labelName_injective hname
  omega

/-- The address that an instruction was read with, as the number that is shown. -/
theorem address_instructionAt {p : ProgramText} {o : Nat} (h : (p.opAt o).layout = .address) :
    (p.instructionAt o).address = (p.wordAt o % 0x1000 : Nat) := by
  rw [opAt_eq_ofWord] at h
  rw [instructionAt_eq_unpack, Instruction.unpack, h]

/-- The text of an address has that address as its value, unless it is an odd label. -/
theorem value_target (hl : l.Bounded) {o : Nat} (haddress : (l.program.opAt o).layout = .address)
    (hodd : ¬∃ n ∈ l.labels, n % 2 = 1 ∧ l.program.targetAt o = n) :
    Item.value (WordLine.table l.wordLines)
        ((l.labelOf? (l.program.instructionAt o)).getD
          ("#" ++ Text.hex 3 (l.program.wordAt o % 0x1000 : Nat))) =
      .ok (l.program.wordAt o % 0x1000) := by
  have huses : (l.program.opAt o).usesAddress = true := by
    rw [Op.usesAddress, haddress]
    rfl
  by_cases hlabel : ∃ n ∈ l.labels, l.program.targetAt o = n
  · obtain ⟨n, hn, htarget⟩ := hlabel
    have heven : n % 2 = 0 := by
      have hne : n % 2 ≠ 1 := fun h => hodd ⟨n, hn, h, htarget⟩
      omega
    -- the label has the address of its line, which is the one the word was decoded with
    have hword : toWord ((programStart : Int) + n) = l.program.wordAt o % 0x1000 := by
      rw [targetAt, address_instructionAt haddress] at htarget
      unfold toWord wordSize
      omega
    rw [labelOf?_of_mem huses htarget hn, Option.getD_some, labelName_eq_text,
      Item.value_of_eval (eval_name (find?_label hl hn heven)), hword]
  · have hnone : ∀ n ∈ l.labels, (l.program.instructionAt o).address - programStart ≠ n :=
      fun n hn htarget => hlabel ⟨n, hn, htarget⟩
    rw [labelOf?_of_not_mem hnone, Option.getD_none]
    exact Item.value_hex (by omega)

/-- The text of an address that is an odd label has no value. -/
theorem value_target_odd {o n : Nat} (huses : (l.program.opAt o).usesAddress = true)
    (hn : n ∈ l.labels) (hodd : n % 2 = 1) (htarget : l.program.targetAt o = n) (shown : String) :
    ∃ cause, Item.value (WordLine.table l.wordLines)
        ((l.labelOf? (l.program.instructionAt o)).getD shown) = .error cause ∧
      cause.isExpression = true := by
  obtain ⟨e, he, hrefusal⟩ := eval_name_missing (l.find?_label_odd hodd)
  refine ⟨.operand (label n).text e, ?_, hrefusal⟩
  rw [labelOf?_of_mem huses htarget hn, Option.getD_some, labelName_eq_text,
    Item.value_of_eval_error he]

end Target

/-! ## Items -/

section Items

variable {l : Listing}

/-- The line of a data word leaves that word as an item. -/
theorem item?_of_data {o : Nat} (hdata : l.inData o = true) (k : Nat) :
    (l.wordLine o).item? k = some
      ⟨.word, WordLine.addressOf k, k + 1, ["#" ++ Text.hex 4 (l.program.wordAt o)]⟩ := by
  simp only [WordLine.item?, wordLine, hdata, if_true]

/-- The line of an instruction leaves that instruction as an item. -/
theorem item?_of_code {o : Nat} (hdata : l.inData o = false) (hop : l.program.opAt o ≠ .invalid)
    (k : Nat) :
    (l.wordLine o).item? k = some
      ⟨.instruction (l.program.opAt o), WordLine.addressOf k, k + 1,
        (l.program.instructionAt o).fieldTexts (l.labelOf? (l.program.instructionAt o))
          l.program.shiftsVy⟩ := by
  unfold ProgramText.opAt at hop ⊢
  simp only [WordLine.item?, wordLine, hdata, Bool.false_eq_true, if_false, hop]

/-- The item of a word is encoded as that word, unless it refers to an odd label. -/
theorem encode_wordLine (hl : l.Bounded) {o k : Nat} {item : Item}
    (hitem : (l.wordLine o).item? k = some item) (hinvalid : ¬l.ShowsInvalid o)
    (hodd : ¬l.RefersToOdd o) (heven : o % 2 = 0) (hlt : o < l.program.length) :
    item.encode (WordLine.table l.wordLines) l.program.shiftsVy =
      .ok (Bytes.ofWord (l.program.wordAt o)) := by
  have hw := l.program.wordAt_lt o
  cases hdata : l.inData o with
  | true =>
    rw [item?_of_data hdata] at hitem
    cases hitem
    exact Item.encode_word _ _ hw
  | false =>
    have hop : l.program.opAt o ≠ .invalid := fun hop => hinvalid ⟨heven, hlt, hdata, hop⟩
    -- only the address may be shown by a name; all other fields are shown by their numbers
    have htarget : (Op.ofWord (l.program.wordAt o) l.program.shiftsVy).layout = .address →
        Item.value (WordLine.table l.wordLines)
            ((l.labelOf? (l.program.instructionAt o)).getD
              ("#" ++ Text.hex 3 (l.program.wordAt o % 0x1000 : Nat))) =
          .ok (l.program.wordAt o % 0x1000) := by
      rw [← opAt_eq_ofWord]
      intro haddress
      refine value_target hl haddress fun hlabel => hodd ⟨heven, hlt, hdata, ?_, hlabel⟩
      rw [Op.usesAddress, haddress]
      rfl
    have hencode := Item.encode_instruction (WordLine.addressOf k) (k + 1) hw
      (by rwa [← opAt_eq_ofWord]) htarget
    rw [item?_of_code hdata hop] at hitem
    cases hitem
    rwa [← instructionAt_eq_unpack, ← opAt_eq_ofWord] at hencode

/-- The item of a word that refers to an odd label has an expression without a value. -/
theorem encode_wordLine_odd {o k : Nat} {item : Item}
    (hitem : (l.wordLine o).item? k = some item) (hodd : l.RefersToOdd o) :
    ∃ cause, item.encode (WordLine.table l.wordLines) l.program.shiftsVy = .error cause ∧
      cause.isExpression = true := by
  obtain ⟨-, -, hdata, huses, n, hn, hoddn, htarget⟩ := hodd
  have hlayout : (l.program.opAt o).layout = .address := beq_iff_eq.1 huses
  have hop : l.program.opAt o ≠ .invalid := by
    intro hop
    rw [hop] at hlayout
    cases hlayout
  obtain ⟨cause, hvalue, hcause⟩ := value_target_odd huses hn hoddn htarget
    ("#" ++ Text.hex 3 (l.program.wordAt o % 0x1000 : Nat))
  have hencode := Item.encode_instruction_error l.program.shiftsVy (WordLine.addressOf k) (k + 1)
    hlayout hvalue
  rw [item?_of_code hdata hop] at hitem
  cases hitem
  rw [opAt_eq_ofWord, ← instructionAt_eq_unpack, ← opAt_eq_ofWord] at hencode
  exact ⟨cause, hencode, hcause⟩

end Items

/-! ## The whole text -/

section Whole

variable {l : Listing}

/-- The lines are those of the even offsets. -/
theorem mem_wordLines_iff {line : WordLine} :
    line ∈ l.wordLines ↔ ∃ o, o % 2 = 0 ∧ o < l.program.length ∧ l.wordLine o = line := by
  unfold wordLines wordCount
  simp only [List.mem_map, List.mem_range]
  constructor
  · rintro ⟨k, hk, rfl⟩
    exact ⟨2 * k, by omega, by omega, rfl⟩
  · rintro ⟨o, heven, hlt, rfl⟩
    exact ⟨o / 2, by omega, by rw [Nat.mul_div_cancel' (Nat.dvd_of_mod_eq_zero heven)]⟩

/-- The assembler reads every line of a listing as an item. -/
theorem reads_of_mem_wordLines : ∀ line ∈ l.wordLines, line.Reads l.program.shiftsVy := by
  intro line hline
  obtain ⟨o, -, -, rfl⟩ := mem_wordLines_iff.1 hline
  exact l.reads_wordLine o

/-- The line of a word that is shown as code but is no instruction is refused. -/
theorem ShowsInvalid.outcome {o : Nat} (h : l.ShowsInvalid o) :
    (l.wordLine o).outcome = .error (.invalidMnemonic "INVALID") := by
  obtain ⟨-, -, hdata, hop⟩ := h
  unfold ProgramText.opAt at hop
  simp only [wordLine, hdata, hop, Bool.false_eq_true, if_false, if_true]

/-- A line is refused only if it shows an invalid word. -/
theorem showsInvalid_of_outcome {o : Nat} (heven : o % 2 = 0) (hlt : o < l.program.length)
    {cause : AsmCause} (h : (l.wordLine o).outcome = .error cause) : l.ShowsInvalid o := by
  refine ⟨heven, hlt, ?_⟩
  unfold ProgramText.opAt
  simp only [wordLine] at h
  split at h
  · cases h
  · next hdata =>
    split at h
    · next hop => exact ⟨Bool.eq_false_of_not_eq_true hdata, hop⟩
    · cases h

/-- A listing that shows an invalid word as code is refused, for no other cause. -/
theorem assemble_dump_invalid (h : ∃ o, l.ShowsInvalid o) :
    ∃ e, (Assembler.assemble l.program.shiftsVy l.dump).2 = .error e ∧
      e.cause = .invalidMnemonic "INVALID" := by
  obtain ⟨o, ho⟩ := h
  have hmem : l.wordLine o ∈ l.wordLines := mem_wordLines_iff.2 ⟨o, ho.1, ho.2.1, rfl⟩
  obtain ⟨e, herror, line, hline, hcause⟩ :=
    WordLine.assembleLines_refused reads_of_mem_wordLines l.nodup_names
      ⟨l.wordLine o, hmem, _, ho.outcome⟩
  refine ⟨e, by rwa [Assembler.assemble, lines_dump], ?_⟩
  obtain ⟨o', heven, hlt, rfl⟩ := mem_wordLines_iff.1 hline
  have hinvalid := (showsInvalid_of_outcome heven hlt hcause).outcome
  rw [hcause] at hinvalid
  exact Except.error.inj hinvalid

variable (hl : l.Bounded) (hinvalid : ¬∃ o, l.ShowsInvalid o)
include hinvalid

/-- Without an invalid word that is shown as code, no line is refused. -/
theorem exists_outcome : ∀ line ∈ l.wordLines, ∃ item, line.outcome = .ok item := by
  intro line hline
  obtain ⟨o, heven, hlt, rfl⟩ := mem_wordLines_iff.1 hline
  cases houtcome : (l.wordLine o).outcome with
  | ok item => exact ⟨item, rfl⟩
  | error cause => exact absurd ⟨o, showsInvalid_of_outcome heven hlt houtcome⟩ hinvalid

/-- There is an item for every word. -/
theorem length_items : (WordLine.items l.wordLines).length = l.program.wordCount := by
  rw [WordLine.length_items (exists_outcome hinvalid), length_wordLines]

/-- Each item is that of the line at its offset. -/
theorem item?_of_getElem?_items {k : Nat} {item : Item}
    (hk : (WordLine.items l.wordLines)[k]? = some item) :
    2 * k < l.program.length ∧ (l.wordLine (2 * k)).item? k = some item := by
  obtain ⟨line, hline, hitem⟩ :=
    WordLine.exists_line_of_getElem?_items (exists_outcome hinvalid) hk
  unfold wordLines at hline
  rw [List.getElem?_map] at hline
  obtain ⟨j, hj, rfl⟩ := Option.map_eq_some_iff.1 hline
  obtain ⟨hlt, rfl⟩ := List.getElem?_eq_some_iff.1 hj
  rw [List.length_range, ProgramText.wordCount] at hlt
  rw [List.getElem_range] at hitem
  exact ⟨by omega, hitem⟩

include hl

/-- A listing with a reference to an odd label is refused for an expression. -/
theorem assemble_dump_odd (h : ∃ o, l.RefersToOdd o) :
    ∃ e, (Assembler.assemble l.program.shiftsVy l.dump).2 = .error e ∧
      e.cause.isExpression = true := by
  rw [Assembler.assemble, lines_dump]
  refine WordLine.assembleLines_expression reads_of_mem_wordLines l.nodup_names
    (exists_outcome hinvalid) ?_ ?_ ?_
  · intro item hmem
    obtain ⟨k, hk⟩ := List.getElem?_of_mem hmem
    obtain ⟨hlt, hitem⟩ := item?_of_getElem?_items hinvalid hk
    by_cases hodd : l.RefersToOdd (2 * k)
    · exact .inr (encode_wordLine_odd hitem hodd)
    · have hvalid := not_exists.1 hinvalid (2 * k)
      exact .inl ⟨_, encode_wordLine hl hitem hvalid hodd (by omega) hlt⟩
  · obtain ⟨o, ho⟩ := h
    have htwo : 2 * (o / 2) = o := Nat.mul_div_cancel' (Nat.dvd_of_mod_eq_zero ho.1)
    have hk : o / 2 < (WordLine.items l.wordLines).length := by
      have hlt := ho.2.1
      rw [length_items hinvalid, ProgramText.wordCount]
      omega
    obtain ⟨-, hitem⟩ := item?_of_getElem?_items hinvalid (List.getElem?_eq_getElem hk)
    rw [htwo] at hitem
    obtain ⟨cause, hcause, -⟩ := encode_wordLine_odd hitem ho
    exact ⟨_, List.getElem_mem hk, cause, hcause⟩
  · rw [length_wordLines]
    exact hl.wordCount_le

/-- A listing without such words is assembled into the bytes of the program. -/
theorem assemble_dump_even (h : ¬∃ o, l.RefersToOdd o) :
    (Assembler.assemble l.program.shiftsVy l.dump).2 = .ok l.program.evenBytes := by
  have hwords := l.program.length_words
  have hencode : List.Forall₂ (fun (item : Item) w =>
      item.encode (WordLine.table l.wordLines) l.program.shiftsVy = .ok (Bytes.ofWord w))
      (WordLine.items l.wordLines) l.program.words := by
    refine List.forall₂_iff_get.2 ⟨by rw [hwords, length_items hinvalid], fun k hk hk' => ?_⟩
    obtain ⟨hlt, hitem⟩ := item?_of_getElem?_items hinvalid (List.getElem?_eq_getElem hk)
    have hword : l.program.words.get ⟨k, hk'⟩ = l.program.wordAt (2 * k) := by
      simp only [ProgramText.words, List.get_eq_getElem, List.getElem_map, List.getElem_range]
    have hvalid := not_exists.1 hinvalid (2 * k)
    rw [hword]
    exact encode_wordLine hl hitem hvalid (not_exists.1 h _) (by omega) hlt
  rw [Assembler.assemble, lines_dump,
    WordLine.assembleLines_words reads_of_mem_wordLines l.nodup_names (exists_outcome hinvalid)
      hencode (by rw [hwords]; exact hl.wordCount_le),
    ProgramText.flatMap_words]

end Whole

/-- The text of a listing is assembled into the program that was listed, and a zero byte if the
number of its bytes is odd, unless it is refused; and it is refused exactly for a word that is shown
as code but is no instruction, or else for a reference to an odd label. -/
theorem assemble_dump {data : Bytes} {shiftsVy : Bool} {notices : List PathNotice} {l : Listing}
    (h : ofBytes data shiftsVy = (notices, .ok l)) :
    ((∃ o, l.ShowsInvalid o) →
      ∃ e, (Assembler.assemble shiftsVy l.dump).2 = .error e ∧
        e.cause = .invalidMnemonic "INVALID") ∧
    ((¬∃ o, l.ShowsInvalid o) → (∃ o, l.RefersToOdd o) →
      ∃ e, (Assembler.assemble shiftsVy l.dump).2 = .error e ∧ e.cause.isExpression = true) ∧
    ((¬∃ o, l.ShowsInvalid o) → (¬∃ o, l.RefersToOdd o) →
      (Assembler.assemble shiftsVy l.dump).2 =
        .ok (if data.size % 2 = 0 then data else data.push 0)) ∧
    ∀ bytes, (Assembler.assemble shiftsVy l.dump).2 = .ok bytes →
      bytes = if data.size % 2 = 0 then data else data.push 0 := by
  have hl := bounded_of_ofBytes h
  have hprogram : l.program = ⟨data, shiftsVy⟩ := by
    obtain ⟨s, -, rfl⟩ := exists_survey_of_ofBytes h
    rfl
  have hinvalid := assemble_dump_invalid (l := l)
  have hodd := assemble_dump_odd hl
  have heven := assemble_dump_even hl
  rw [hprogram] at hinvalid hodd heven
  refine ⟨hinvalid, hodd, heven, fun bytes hbytes => ?_⟩
  by_cases hi : ∃ o, l.ShowsInvalid o
  · obtain ⟨e, herror, -⟩ := hinvalid hi
    rw [herror] at hbytes
    cases hbytes
  · by_cases ho : ∃ o, l.RefersToOdd o
    · obtain ⟨e, herror, -⟩ := hodd hi ho
      rw [herror] at hbytes
      cases hbytes
    · rw [heven hi ho] at hbytes
      exact (Except.ok.inj hbytes).symm

/-- A jump to the entry and a single byte behind it. -/
def jumpAndByte : Bytes := #[0x12, 0x00, 0xAB]

/-- The single byte comes back as a word. -/
theorem assemble_dump_jumpAndByte :
    ∃ notices l, ofBytes jumpAndByte false = (notices, .ok l) ∧
      (Assembler.assemble false l.dump).2 = .ok #[0x12, 0x00, 0xAB, 0x00] := by
  have heval : (ofBytes jumpAndByte false).2.toOption.map (fun l =>
      (l.program.length, l.program.opAt (0 : Nat), l.inData (2 : Nat), l.labels)) =
      some (3, .jump, true, [0]) := by
    cbv
  obtain ⟨notices, l, hl, hvalue⟩ := exists_of_ofBytes heval
  obtain ⟨hlength, hjump, hdata, hlabels⟩ : l.program.length = 3 ∧
      l.program.opAt (0 : Nat) = .jump ∧ l.inData (2 : Nat) = true ∧ l.labels = [0] := by
    simpa only [Prod.mk.injEq] using hvalue
  have hinvalid : ¬∃ o, l.ShowsInvalid o := by
    rintro ⟨o, heven, hlt, hcode, hop⟩
    obtain rfl | rfl : o = 0 ∨ o = 2 := by omega
    · rw [hjump] at hop
      cases hop
    · rw [hdata] at hcode
      cases hcode
  have hodd : ¬∃ o, l.RefersToOdd o := by
    rintro ⟨o, -, -, -, -, n, hn, hodd, -⟩
    rw [hlabels, List.mem_singleton] at hn
    omega
  obtain ⟨-, -, hsame, -⟩ := assemble_dump hl
  exact ⟨notices, l, hl, hsame hinvalid hodd⟩

end SuperChip.Listing
