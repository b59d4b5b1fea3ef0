import SuperChip.Proofs.Asm.Filling
import SuperChip.Proofs.Asm.LabelPart

/-!
# The two passes together

What the first pass knows of an item is what the second pass makes of it. The items that the lines
record stand one behind the other, so that the image is filled with them in order; and a label of a
line has the address of the next item from that line on, which is where the bytes of that item start
(`assemble_eq_filled`).
-/

set_option autoImplicit false

namespace SuperChip.Assembler

variable {a b : Assembler} {notices said : List AsmNotice} {text label : String} {k : Nat}

/-! ## What a line keeps -/

/-- The items stand one behind the other, and the next byte goes behind them. -/
def Laid (a : Assembler) : Prop := Item.Laid programStart a.items.toList a.address

/-- A step keeps the items one behind the other. -/
theorem Step.laid {texts : List String} (h : Step texts a b) (ha : a.Laid) : b.Laid := by
  cases h with
  | rest => exact ha
  | named => exact ha
  | @recorded kind operands free =>
    rw [Laid, Assembler.recorded, Array.toList_push]
    exact Item.Laid.concat ha rfl
  | moved => exact ha

/-- The label waits for the item of number `k`, or it has the address of that item. -/
def Names (a : Assembler) (label : String) (k : Nat) : Prop :=
  (a.pending = some label ∧ a.items.size = k) ∨
    ∃ item, a.items[k]? = some item ∧ a.labels.find? label = some item.address

/-- A step keeps a label that waits for an item, or is bound to it. -/
theorem Step.names {texts : List String} (h : Step texts a b) (ha : a.Names label k) :
    b.Names label k := by
  obtain ⟨hpending, hsize⟩ | ⟨item, hitem, hlabel⟩ := ha
  · cases h with
    | rest => exact .inl ⟨hpending, hsize⟩
    | named => exact .inl ⟨hpending, hsize⟩
    | @recorded kind operands free =>
      let item : Item := ⟨kind, kind.startFrom a.address, a.line, operands⟩
      refine .inr ⟨item, ?_, ?_⟩
      · rw [Assembler.recorded, ← hsize, Array.getElem?_push_size]
      · rw [Assembler.recorded, labelsAt, hpending, Labels.find?_insert,
          if_pos (beq_self_eq_true label)]
    | moved => exact .inl ⟨hpending, hsize⟩
  · have hstays : b.items[k]? = some item := by
      obtain ⟨more, hmore⟩ := h.isPrefix_items
      rw [← Array.getElem?_toList] at hitem ⊢
      obtain ⟨hlt, -⟩ := List.getElem?_eq_some_iff.1 hitem
      rwa [← hmore, List.getElem?_append_left hlt]
    exact .inr ⟨item, hstays, h.extends label _ hlabel⟩

/-! ## Lines -/

/-- A line keeps the items one behind the other. -/
theorem laid_of_processLine (ha : a.Laid) (h : a.processLine text = (b, .ok notices)) :
    b.Laid := by
  obtain ⟨pending, -, hstep⟩ := step_of_processLine h
  exact hstep.laid ha

/-- A waiting label waits on, since a line with one of its own would be refused. -/
theorem names_of_processLine (ha : a.Names label k) (h : a.processLine text = (b, .ok notices)) :
    b.Names label k := by
  obtain ⟨pending, hpending, hstep⟩ := step_of_processLine h
  refine hstep.names ?_
  obtain ⟨hwaits, hsize⟩ | hbound := ha
  · refine .inl ⟨?_, hsize⟩
    unfold pendingAfter at hpending
    split at hpending
    · obtain ⟨-, rfl⟩ | ⟨_, -, hnone, -⟩ := foldlM_addLabel_eq_ok_iff.1 hpending
      · exact hwaits
      · rw [hwaits] at hnone
        cases hnone
    · cases hpending
      exact hwaits
  · exact .inr hbound

/-- The label of an active line waits for the next item, or is bound to it. -/
theorem names_of_label (hactive : a.active = true)
    (hlabel : label ∈ (SourceLine.parse text).labels)
    (h : a.processLine text = (b, .ok notices)) : b.Names label a.items.size := by
  obtain ⟨pending, hpending, hstep⟩ := step_of_processLine h
  refine hstep.names (.inl ⟨?_, rfl⟩)
  have hactive' : active { a with line := a.line + 1 } = true := hactive
  rw [pendingAfter, if_pos hactive'] at hpending
  obtain ⟨hnil, -⟩ | ⟨found, hfound, -, rfl⟩ := foldlM_addLabel_eq_ok_iff.1 hpending
  · rw [hnil] at hlabel
    cases hlabel
  · rw [hfound] at hlabel
    rw [List.mem_singleton.1 hlabel]

/-- After all lines a label of one of them has the address of the next item. -/
theorem names_of_processLines {shiftsVy : Bool} {done rest : List String}
    (h : processLines { shiftsVy } [] (done ++ text :: rest) = (a, notices, none))
    (hdone : processLines { shiftsVy } [] done = (b, said, none)) (hactive : b.active = true)
    (hlabel : label ∈ (SourceLine.parse text).labels) : a.Names label b.items.size := by
  obtain ⟨c, m, hdone', hlines⟩ := processLines_append_eq_ok_iff.1 h
  cases hdone.symm.trans hdone'
  obtain ⟨c, more, htext, hrest⟩ := processLines_cons_eq_ok_iff.1 hlines
  refine processLines_induction (P := fun a => a.Names label b.items.size) ?_ hrest
    (names_of_label hactive hlabel htext)
  intro a b text notices
  exact names_of_processLine

/-- The items of lines stand one behind the other. -/
theorem laid_of_processLines {shiftsVy : Bool} {lines : List String}
    (h : processLines { shiftsVy } [] lines = (a, notices, none)) : a.Laid := by
  refine processLines_induction ?_ h .nil
  intro a b text notices
  exact laid_of_processLine

/-- Lines keep the way in which shifts are encoded. -/
theorem shiftsVy_of_processLines {shiftsVy : Bool} {lines : List String}
    (h : processLines { shiftsVy } [] lines = (a, notices, none)) : a.shiftsVy = shiftsVy := by
  refine processLines_induction (P := fun a => a.shiftsVy = shiftsVy) ?_ h rfl
  intro a b text notices ha hline
  rw [← ha, ← shiftsVy_processLine a text, hline]

/-! ## The source -/

/-- Source that is assembled is taken line by line, and then its items are written. -/
theorem assemble_eq_ok {shiftsVy : Bool} {source : String} {bytes : Bytes}
    (h : assemble shiftsVy source = (notices, .ok bytes)) :
    ∃ a said image, processLines { shiftsVy } [] (Text.lines source) = (a, said, none) ∧
      Item.writeAll a.labels shiftsVy {} a.items.toList = (image, none) ∧
      bytes = image.toBytes := by
  unfold assemble assembleLines at h
  split at h
  · cases h
  · next a said hlines =>
    generalize hwrite : Item.writeAll a.labels a.shiftsVy {} a.items.toList = written at h
    obtain ⟨image, result⟩ := written
    cases result with
    | some e =>
      rw [emit_of_refused hwrite] at h
      cases h
    | none =>
      rw [emit_of_written hwrite] at h
      cases h
      rw [shiftsVy_of_processLines hlines] at hwrite
      exact ⟨a, said, image, hlines, hwrite, rfl⟩

/-- A name that stands for a place in program memory has its address as its value. -/
theorem value_of_place {labels : Labels} {n : Expr.Name} {address : Int} {offset : Nat}
    (h : labels.find? n.text = some address) (haddress : address = programStart + (offset : Nat))
    (hoffset : offset < programSize) : Item.value labels n.text = .ok address.toNat := by
  rw [Item.value_of_eval (Expr.eval_name h), toWord, haddress]
  simp only [programSize, memorySize, programStart, wordSize] at *
  congr 1
  omega

/-- Where source is assembled, the image is filled with the recorded items in order, each
instruction at an even address and padded by zeros only, and a label has the address of the next
item from its line on, whether it is referred to before that line or behind it. -/
theorem assemble_eq_filled {shiftsVy : Bool} {source : String} {bytes : Bytes}
    (h : assemble shiftsVy source = (notices, .ok bytes)) :
    ∃ a said, processLines { shiftsVy } [] (Text.lines source) = (a, said, none) ∧
      Item.Fills a.labels shiftsVy a.items.toList bytes.toList ∧
      ∀ done text rest b before label item, Text.lines source = done ++ text :: rest →
        processLines { shiftsVy } [] done = (b, before, none) → b.active = true →
        label ∈ (SourceLine.parse text).labels → a.items[b.items.size]? = some item →
          a.labels.find? label = some item.address ∧
            Item.value a.labels label = .ok item.address.toNat := by
  obtain ⟨a, said, image, hlines, hwrite, rfl⟩ := assemble_eq_ok h
  have hlaid : Item.Laid programStart a.items.toList a.address := laid_of_processLines hlines
  obtain ⟨all, hfill, hfilled⟩ := Item.filled_of_writeAll .empty (by simpa using hlaid) hwrite
  have hfills := Item.fills_of_laid hlaid hfill
  have hbytes : image.toBytes.toList = all := by
    rw [hfilled.toBytes hfilled.fits]
  refine ⟨a, said, hlines, by rwa [hbytes], ?_⟩
  intro done text rest b before label item hsplit hdone hactive hlabel hitem
  rw [hsplit] at hlines
  have hnames := names_of_processLines hlines hdone hactive hlabel
  have hfound : a.labels.find? label = some item.address := by
    obtain ⟨-, hsize⟩ | ⟨other, hother, hfound⟩ := hnames
    · obtain ⟨hlt, -⟩ := Array.getElem?_eq_some_iff.1 hitem
      omega
    · cases hitem.symm.trans hother
      exact hfound
  obtain ⟨n, rfl⟩ := SourceLine.exists_name_of_mem_labels hlabel
  obtain ⟨front, data, behind, hall, -, hdata, haddress⟩ :=
    hfills.data item (Array.mem_toList_iff.2 (Array.mem_of_getElem? hitem))
  refine ⟨hfound, value_of_place hfound haddress ?_⟩
  -- the item has a byte at least, and all of its bytes are in program memory
  have hpos := item.kind.size_pos
  have hfits := hfilled.fits
  rw [hall, List.length_append, List.length_append] at hfits
  omega

/-- A jump to a label behind it, with a byte of padding in front. -/
theorem assemble_eq_filled_forwardJump :
    let source := "DB 1\nJP end\nend: DW end"
    assemble false source = ([.emitted 6], .ok #[0x01, 0x00, 0x12, 0x04, 0x02, 0x04]) ∧
      ∃ a said, processLines {} [] (Text.lines source) = (a, said, none) ∧
        Item.Fills a.labels false a.items.toList [0x01, 0x00, 0x12, 0x04, 0x02, 0x04] ∧
        a.labels.find? "end" = some 0x204 ∧ Item.value a.labels "end" = .ok 0x204 := by
  intro source
  have h : assemble false source = ([.emitted 6], .ok #[0x01, 0x00, 0x12, 0x04, 0x02, 0x04]) := by
    decide +kernel
  have hsource : Text.lines source = ["DB 1", "JP end"] ++ "end: DW end" :: [] := by decide +kernel
  obtain ⟨a, said, hlines, hfills, hlabels⟩ := assemble_eq_filled h
  refine ⟨h, a, said, hlines, hfills, ?_⟩
  -- two items stand before the label
  have hdone : (processLines {} [] ["DB 1", "JP end"]).2 = ([], none) := by decide +kernel
  have hsize : (processLines {} [] ["DB 1", "JP end"]).1.items.size = 2 := by decide +kernel
  have hitem : (processLines {} [] (Text.lines source)).1.items[2]? =
      some ⟨.word, 0x204, 3, ["end"]⟩ := by decide +kernel
  rw [hlines, ← hsize] at hitem
  exact hlabels _ _ _ _ _ "end" _ hsource (Prod.ext rfl hdone) (by decide +kernel)
    (by decide +kernel) hitem

end SuperChip.Assembler
