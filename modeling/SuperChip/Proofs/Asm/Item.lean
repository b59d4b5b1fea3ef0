import SuperChip.Asm.Emit
import SuperChip.Proofs.Asm.Form
import SuperChip.Proofs.Expr.Operand
import SuperChip.Proofs.Instruction.RoundTrip

/-!
# The bytes of items

An item whose operands are the texts of the fields of a decoded instruction is encoded as the word
that the instruction was decoded from. Only an address may be written as a label instead; if the
label has no value the item is refused. Items of a word each, written one behind the other, fill the
image without gaps.
-/

set_option autoImplicit false

namespace SuperChip

open SuperChip.Expr

namespace Item

variable {labels : Labels}

/-- An operand has the value of its expression. -/
theorem value_of_eval {operand : String} {v : Nat} (h : eval labels operand = .ok v) :
    value labels operand = .ok v := by
  rw [value, h]

/-- An operand without a value is refused with the reason. -/
theorem value_of_eval_error {operand : String} {e : ExprError}
    (h : eval labels operand = .error e) : value labels operand = .error (.operand operand e) := by
  rw [value, h]

/-- The name of a register is read as its number. -/
theorem register_register {x : Nat} (hx : x < 16) :
    register (Instruction.register x) = .ok x := by
  rw [register, (namesRegister_register hx).number]

/-- A hexadecimal operand has the value that was printed. -/
theorem value_hex {width n : Nat} (hn : n < 2 ^ 16) :
    value labels ("#" ++ Text.hex width n) = .ok n := by
  rw [value_of_eval (eval_hex labels width n), Nat.mod_eq_of_lt hn]

/-- A decimal operand has the value that was printed. -/
theorem value_toString {n : Nat} (hn : n < 2 ^ 16) : value labels (toString (n : Int)) = .ok n := by
  rw [value_of_eval (eval_toString labels hn)]

/-- The texts of the fields of an instruction are read as that instruction, if its address is. -/
theorem instruction_fieldTexts {op : Op} {w : Nat} {shiftsVy : Bool} {label : Option String}
    (hop : op.layout ≠ .word)
    (htarget : op.layout = .address →
      value labels (label.getD ("#" ++ Text.hex 3 (w % 0x1000 : Nat))) = .ok (w % 0x1000)) :
    instruction labels op ((Instruction.unpack op w shiftsVy).fieldTexts label shiftsVy) =
      .ok (Instruction.unpack op w shiftsVy) := by
  have hx := register_register (Nat.mod_lt (w / 0x100) (show 0x10 > 0 by decide))
  have hy := register_register (Nat.mod_lt (w / 0x10) (show 0x10 > 0 by decide))
  have hnibble : value labels (toString ((w % 0x10 : Nat) : Int)) = .ok (w % 0x10) :=
    value_toString (by omega)
  have hbyte : value labels ("#" ++ Text.hex 2 (w % 0x100 : Nat)) = .ok (w % 0x100) :=
    value_hex (by omega)
  unfold Instruction.unpack
  cases hl : op.layout with
  | word => exact absurd hl hop
  | shift =>
    cases shiftsVy <;>
      simp only [Instruction.fieldTexts, instruction, hl, hx, hy, if_true, if_false,
        Bool.false_eq_true] <;> rfl
  | address =>
    simp only [Instruction.fieldTexts, instruction, hl, htarget hl]
    rfl
  | _ =>
    simp only [Instruction.fieldTexts, instruction, hl, hx, hy, hnibble, hbyte]
    rfl

/-- An instruction whose address has no value is refused for that address. -/
theorem encode_instruction_error {op : Op} {w : Nat} {label : Option String} {cause : AsmCause}
    (shiftsVy : Bool) (address line : Int) (hop : op.layout = .address)
    (htarget :
      value labels (label.getD ("#" ++ Text.hex 3 (w % 0x1000 : Nat))) = .error cause) :
    encode labels shiftsVy
        ⟨.instruction op, address, line,
          (Instruction.unpack op w shiftsVy).fieldTexts label shiftsVy⟩ = .error cause := by
  unfold Instruction.unpack
  simp only [encode, Instruction.fieldTexts, instruction, hop, htarget]
  rfl

/-- An item of the fields of a decoded instruction is encoded as the word that was decoded. -/
theorem encode_instruction {w : Nat} {shiftsVy : Bool} {label : Option String}
    (address line : Int) (hw : w < 0x10000) (hop : Op.ofWord w shiftsVy ≠ .invalid)
    (htarget : (Op.ofWord w shiftsVy).layout = .address →
      value labels (label.getD ("#" ++ Text.hex 3 (w % 0x1000 : Nat))) = .ok (w % 0x1000)) :
    encode labels shiftsVy
        ⟨.instruction (.ofWord w shiftsVy), address, line,
          (Instruction.unpack (.ofWord w shiftsVy) w shiftsVy).fieldTexts label shiftsVy⟩ =
      .ok (Bytes.ofWord w) := by
  have hlayout : (Op.ofWord w shiftsVy).layout ≠ .word := by
    intro h
    apply hop
    revert h
    cases Op.ofWord w shiftsVy <;> simp [Op.layout]
  simp only [encode]
  rw [instruction_fieldTexts hlayout htarget]
  exact congrArg (fun w => Except.ok (Bytes.ofWord w)) (Instruction.encode_unpack shiftsVy hw)

/-- A data word is encoded as its two bytes. -/
theorem encode_word {w width : Nat} {shiftsVy : Bool} (address line : Int) (hw : w < 0x10000) :
    encode labels shiftsVy ⟨.word, address, line, ["#" ++ Text.hex width w]⟩ =
      .ok (Bytes.ofWord w) := by
  simp only [encode]
  rw [value_hex hw]
  rfl

end Item

/-! ## Images -/

/-- The part of an image that is in use holds just these bytes. -/
structure Image.Holds (image : Image) (bytes : List UInt8) : Prop where
  size : image.memory.size = programSize
  length : image.length = bytes.length
  byte : ∀ i < bytes.length, image.memory[i]? = bytes[i]?

namespace Image.Holds

variable {image : Image} {bytes : List UInt8}

/-- A new image holds no bytes. -/
theorem empty : Holds {} [] := ⟨Array.size_replicate, rfl, nofun⟩

/-- Bytes that are written behind those in use are put there, if they fit. -/
theorem write (h : image.Holds bytes) (data : List UInt8)
    (hfit : bytes.length + data.length ≤ programSize) :
    ∃ next, image.write bytes.length data = .ok next ∧ next.Holds (bytes ++ data) := by
  have hbounds : ¬((bytes.length : Int) < 0 ∨
      (programSize : Int) < (bytes.length : Int) + data.length) := by omega
  refine ⟨_, by rw [Image.write, if_neg hbounds], ?_⟩
  rw [Int.toNat_natCast]
  constructor
  · rw [Bytes.size_overwrite, h.size]
  · change max image.length (bytes.length + data.length) = (bytes ++ data).length
    rw [h.length, List.length_append]
    omega
  · intro i hi
    rw [List.length_append] at hi
    rw [Bytes.getElem?_overwrite, h.size]
    by_cases hold : i < bytes.length
    · rw [if_neg (by omega), h.byte i hold, List.getElem?_append_left hold]
    · rw [if_pos (by omega), List.getElem?_append_right (by omega)]

/-- The part of an image in use is the bytes that it holds. -/
theorem toBytes (h : image.Holds bytes) (hfit : bytes.length ≤ programSize) :
    image.toBytes = bytes.toArray := by
  have hsize : image.toBytes.size = bytes.length := by
    rw [Image.toBytes, Array.size_extract, h.size, h.length]
    omega
  apply Array.ext
  · rw [hsize, List.size_toArray]
  · intro i hi hi'
    rw [List.size_toArray] at hi'
    have hbyte := h.byte i hi'
    rw [List.getElem?_eq_getElem hi', Array.getElem?_eq_some_iff] at hbyte
    obtain ⟨_, hbyte⟩ := hbyte
    simp only [Image.toBytes, Array.getElem_extract, List.getElem_toArray, Nat.zero_add]
    exact hbyte

end Image.Holds

namespace Item

variable {labels : Labels} {shiftsVy : Bool} {image : Image} {bytes : List UInt8}

/-- A word that is written behind the bytes of an image is held there. -/
theorem write_holds {item : Item} {w : Nat} (himage : image.Holds bytes)
    (hitem : item.encode labels shiftsVy = .ok (Bytes.ofWord w))
    (haddress : item.address = programStart + (bytes.length : Nat))
    (hfit : bytes.length + 2 ≤ programSize) :
    ∃ next, item.write labels shiftsVy image = .ok next ∧
      next.Holds (bytes ++ Bytes.ofWord w) := by
  obtain ⟨next, hnext, hholds⟩ := himage.write (Bytes.ofWord w) hfit
  have hoffset : item.address - programStart = bytes.length := by
    rw [haddress]
    omega
  refine ⟨next, ?_, hholds⟩
  rw [Item.write, hitem]
  simp only [hoffset, hnext]

/-- The items stand one behind the other, two bytes each, from the offset `n` on. -/
def Consecutive (n : Nat) (items : List Item) : Prop :=
  ∀ k (item : Item), items[k]? = some item → item.address = programStart + (n + 2 * k : Nat)

/-- Behind the first item the others stand two bytes further on. -/
theorem Consecutive.tail {n : Nat} {item : Item} {items : List Item}
    (h : Consecutive n (item :: items)) : Consecutive (n + 2) items := by
  intro k other hk
  rw [h (k + 1) other hk]
  omega

/-- Items of a word each are written one behind the other. -/
theorem writeAll_holds {items : List Item} {words : List Nat} (himage : image.Holds bytes)
    (hencode : List.Forall₂ (fun (item : Item) w =>
      item.encode labels shiftsVy = .ok (Bytes.ofWord w)) items words)
    (haddress : Consecutive bytes.length items)
    (hfit : bytes.length + 2 * words.length ≤ programSize) :
    ∃ final, writeAll labels shiftsVy image items = (final, none) ∧
      final.Holds (bytes ++ words.flatMap Bytes.ofWord) := by
  induction hencode generalizing image bytes with
  | nil => exact ⟨image, rfl, by rwa [List.flatMap_nil, List.append_nil]⟩
  | @cons item w items words hitem hrest ih =>
    rw [List.length_cons] at hfit
    have hlength : (bytes ++ Bytes.ofWord w).length = bytes.length + 2 := List.length_append
    obtain ⟨next, hnext, hholds⟩ :=
      write_holds himage hitem (haddress 0 item rfl) (by omega)
    obtain ⟨final, hfinal, hall⟩ :=
      ih hholds (by rw [hlength]; exact haddress.tail) (by rw [hlength]; omega)
    refine ⟨final, ?_, ?_⟩
    · rw [writeAll, hnext]
      exact hfinal
    · rwa [List.append_assoc] at hall

/-- If an item has an expression without a value, and every other item has its word, the emission is
refused for an expression. -/
theorem writeAll_expression {items : List Item} (himage : image.Holds bytes)
    (hencode : ∀ item ∈ items, (∃ w, item.encode labels shiftsVy = .ok (Bytes.ofWord w)) ∨
      ∃ cause, item.encode labels shiftsVy = .error cause ∧ cause.isExpression = true)
    (hbad : ∃ item ∈ items, ∃ cause, item.encode labels shiftsVy = .error cause)
    (haddress : Consecutive bytes.length items)
    (hfit : bytes.length + 2 * items.length ≤ programSize) :
    ∃ final e, writeAll labels shiftsVy image items = (final, some e) ∧
      e.cause.isExpression = true := by
  induction items generalizing image bytes with
  | nil =>
    obtain ⟨item, hitem, -⟩ := hbad
    cases hitem
  | cons item items ih =>
    rw [List.length_cons] at hfit
    obtain ⟨w, hitem⟩ | ⟨cause, hitem, hcause⟩ := hencode item (.head _)
    · -- this item is written, so that the one without a value stands behind it
      have hlength : (bytes ++ Bytes.ofWord w).length = bytes.length + 2 := List.length_append
      obtain ⟨next, hnext, hholds⟩ :=
        write_holds himage hitem (haddress 0 item rfl) (by omega)
      have hbad' : ∃ item ∈ items, ∃ cause, item.encode labels shiftsVy = .error cause := by
        obtain ⟨cause, hcause⟩ | hrest := (List.exists_mem_cons_iff _ item items).1 hbad
        · rw [hitem] at hcause
          cases hcause
        · exact hrest
      obtain ⟨final, e, hfinal, he⟩ := ih hholds (fun item h => hencode item (.tail _ h)) hbad'
        (by rw [hlength]; exact haddress.tail) (by rw [hlength]; omega)
      refine ⟨final, e, ?_, he⟩
      rw [writeAll, hnext]
      exact hfinal
    · refine ⟨image, ⟨item.line, cause⟩, ?_, hcause⟩
      rw [writeAll, Item.write, hitem]

end Item

end SuperChip
