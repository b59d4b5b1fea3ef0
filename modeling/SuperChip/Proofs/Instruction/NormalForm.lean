import SuperChip.Instruction.Numbered
import SuperChip.Proofs.Instruction.RoundTrip

/-!
# Normal forms of instructions

A word has room for the fields that its operation uses, each up to its width, and for nothing else.
So an instruction with any fields at all is decoded from its own word as its normal form: the used
fields are cut to their widths, the others are zero, and an `invalid` instruction becomes what its
word names (`decode_encode`). The instructions in normal form are those that some word is decoded to
(`decode_encode_eq_self_iff`). `codec_normalForm` says all this of instructions given by number,
which are refused if no operation has the number.
-/

set_option autoImplicit false

namespace SuperChip

/-! ## Fields and fixed bits -/

/-- The parts of an instruction that have a place in the words of some operations. -/
inductive Field where
  | vx
  | vy
  | address
  | byte
  | nibble
  deriving DecidableEq, Repr

/-- How many values fit the place of a field. -/
def Field.size : Field → Nat
  | vx | vy | nibble => 0x10
  | byte => 0x100
  | address => 0x1000

/-- The fields that the words of a layout have room for. -/
def Layout.fields (shiftsVy : Bool) : Layout → List Field
  | word | plain => []
  | nibble => [.nibble]
  | address => [.address]
  | regByte => [.vx, .byte]
  | regReg => [.vx, .vy]
  | regRegNibble => [.vx, .vy, .nibble]
  | reg => [.vx]
  | shift => if shiftsVy then [.vx, .vy] else [.vx]

/-- A word without the fields of a layout. -/
def Layout.fixed (w : Nat) : Layout → Nat
  | word => 0
  | plain => w
  | nibble => w / 0x10 * 0x10
  | address | regByte | regRegNibble => w / 0x1000 * 0x1000
  | regReg | shift => w / 0x1000 * 0x1000 + w % 0x10
  | reg => w / 0x1000 * 0x1000 + w % 0x100

/-- The fields of an operation are clear in its base. -/
theorem Op.fixed_base (op : Op) : op.layout.fixed op.base = op.base := by
  cases op <;> rfl

/-- Only the operation of no instruction is laid out as a word. -/
theorem Op.layout_ne_word {op : Op} (hop : op ≠ .invalid) : op.layout ≠ .word := by
  revert hop
  cases op <;> decide

/-- The fixed bits of an operation name it, if a shift has no second register where shifts read only
one. -/
theorem Op.ofWord_of_fixed {op : Op} {w : Nat} {shiftsVy : Bool} (hop : op ≠ .invalid)
    (hfixed : op.layout.fixed w = op.base)
    (hsingle : op.layout = .shift → (shiftsVy || w / 0x10 % 0x10 == 0) = true) :
    ofWord w shiftsVy = op := by
  have hfamily : op.layout ≠ .word → w / 0x1000 = op.base / 0x1000 := by
    rw [← hfixed]
    intro hl
    cases hlayout : op.layout
    case word => exact absurd hlayout hl
    case plain => rfl
    all_goals
      simp only [Layout.fixed]
      omega
  have hnibble : op.layout = .regReg ∨ op.layout = .shift → w % 0x10 = op.base % 0x10 := by
    rw [← hfixed]
    rintro (hl | hl) <;> simp only [hl, Layout.fixed] <;> omega
  have hbyte : op.layout = .reg → w % 0x100 = op.base % 0x100 := by
    rw [← hfixed]
    intro hl
    simp only [hl, Layout.fixed]
    omega
  cases op
  case invalid => exact absurd rfl hop
  case clear | ret | scrollRight | scrollLeft | exit | lowRes | highRes =>
    cases hfixed
    rfl
  all_goals
    replace hfamily := hfamily (by decide)
  case scrollDown =>
    have hprefix : w / 0x10 = 0x00C := by
      simp only [layout, base, Layout.fixed] at hfixed
      omega
    simp only [ofWord, hfamily, base, Nat.reduceDiv, hprefix, if_true]
  case jump | call | skipEqByte | skipNeByte | loadByte | addByte | loadIndex | jumpV0 | random
      | draw =>
    simp only [ofWord, hfamily, base, Nat.reduceDiv]
  case shiftRight | shiftLeft =>
    simp only [ofWord, hfamily, hnibble (.inr rfl), hsingle rfl, base, Nat.reduceDiv, Nat.reduceMod,
      if_true]
  case loadReg | or | and | xor | addReg | sub | subReverse | skipEqReg | skipNeReg =>
    simp only [ofWord, hfamily, hnibble (.inl rfl), base, Nat.reduceDiv, Nat.reduceMod, if_true]
  all_goals
    simp only [ofWord, hfamily, hbyte rfl, base, Nat.reduceDiv, Nat.reduceMod]

namespace Instruction

/-! ## Normal forms -/

/-- A field as its operation leaves it: cut to its width if it is used, else zero. -/
def part (i : Instruction) (shiftsVy : Bool) (field : Field) (value : Int) : Int :=
  if field ∈ i.op.layout.fields shiftsVy then value % field.size else 0

/-- The normal form of an instruction: the fields that its operation uses, cut to their widths, and
zero in every other field. An `invalid` instruction is what its word names. -/
def normal (i : Instruction) (shiftsVy : Bool) : Instruction :=
  if i.op = .invalid then decode (i.word % 0x10000) shiftsVy
  else
    { op := i.op
      vx := i.part shiftsVy .vx i.vx
      vy := i.part shiftsVy .vy i.vy
      address := i.part shiftsVy .address i.address
      byte := i.part shiftsVy .byte i.byte
      nibble := i.part shiftsVy .nibble i.nibble }

/-- A number is cut to its remainder. -/
theorem natCast_cut (n : Int) {size : Nat} (h : 0 < size) : (cut n size : Int) = n % size := by
  unfold cut
  exact Int.toNat_of_nonneg (Int.emod_nonneg n (by omega))

/-- A word is decoded by unpacking the fields of its operation. -/
theorem decode_natCast {w : Nat} (shiftsVy : Bool) (hw : w < 0x10000) :
    decode w shiftsVy = unpack (.ofWord w shiftsVy) w shiftsVy := by
  have hcut : ((w : Int) % 0x10000).toNat = w := by omega
  simp only [decode, hcut]

/-- Only the lower sixteen bits of a number are decoded. -/
theorem decode_emod (word : Int) (shiftsVy : Bool) :
    decode (word % 0x10000) shiftsVy = decode word shiftsVy := by
  simp only [decode, Int.emod_emod]

section Places

variable {base x y n r : Nat}

/-- Fields that are put below the highest digit leave it as it was. -/
theorem fixed_above (hbase : base / 0x1000 * 0x1000 = base) (hr : r < 0x1000) :
    (base + r) / 0x1000 * 0x1000 = base := by
  have hhigh : (base + r) / 0x1000 = base / 0x1000 := by omega
  rw [hhigh, hbase]

/-- Fields that are put beside a fixed nibble leave the fixed bits as they were. -/
theorem fixed_beside_nibble (hbase : base / 0x1000 * 0x1000 + base % 0x10 = base)
    (hlow : r % 0x10 = 0) (hr : r < 0x1000) :
    (base + r) / 0x1000 * 0x1000 + (base + r) % 0x10 = base := by
  have hhigh : (base + r) / 0x1000 = base / 0x1000 := by omega
  have hnibble : (base + r) % 0x10 = base % 0x10 := by omega
  rw [hhigh, hnibble, hbase]

/-- A register that is put beside a fixed byte leaves the fixed bits as they were. -/
theorem fixed_beside_byte (hbase : base / 0x1000 * 0x1000 + base % 0x100 = base)
    (hx : x < 0x10) :
    (base + 0x100 * x) / 0x1000 * 0x1000 + (base + 0x100 * x) % 0x100 = base := by
  have hhigh : (base + 0x100 * x) / 0x1000 = base / 0x1000 := by omega
  have hbyte : (base + 0x100 * x) % 0x100 = base % 0x100 := by omega
  rw [hhigh, hbyte, hbase]

/-- Two registers that are put beside a fixed nibble are read back. -/
theorem regs_beside_nibble (hbase : base / 0x1000 * 0x1000 + base % 0x10 = base)
    (hx : x < 0x10) (hy : y < 0x10) :
    (base + 0x100 * x + 0x10 * y) / 0x100 % 0x10 = x ∧
      (base + 0x100 * x + 0x10 * y) / 0x10 % 0x10 = y := by
  constructor <;> omega

end Places

/-- The word of an instruction has the fixed bits of its operation. -/
theorem fixed_encode {i : Instruction} (shiftsVy : Bool) (hop : i.op.layout ≠ .word) :
    i.op.layout.fixed (i.encode shiftsVy) = i.op.base := by
  have hx := cut_lt i.vx 0x10 (by decide)
  have hy := cut_lt i.vy 0x10 (by decide)
  have hbyte := cut_lt i.byte 0x100 (by decide)
  have hnibble := cut_lt i.nibble 0x10 (by decide)
  have hbase := i.op.fixed_base
  unfold encode
  cases hlayout : i.op.layout
  case word => exact absurd hlayout hop
  all_goals
    simp only [hlayout, Layout.fixed] at hbase ⊢
  case nibble => omega
  case address => exact fixed_above hbase (cut_lt i.address 0x1000 (by decide))
  case regByte =>
    rw [Nat.add_assoc]
    exact fixed_above hbase (by omega)
  case regReg =>
    rw [Nat.add_assoc]
    exact fixed_beside_nibble hbase (by omega) (by omega)
  case regRegNibble =>
    rw [Nat.add_assoc, Nat.add_assoc]
    exact fixed_above hbase (by omega)
  case reg => exact fixed_beside_byte hbase hx
  case shift =>
    split
    · rw [Nat.add_assoc]
      exact fixed_beside_nibble hbase (by omega) (by omega)
    · exact fixed_beside_nibble hbase (by omega) (by omega)

/-- Where shifts read one register, their words have no second one. -/
theorem single_encode {i : Instruction} {shiftsVy : Bool} (hlayout : i.op.layout = .shift) :
    (shiftsVy || i.encode shiftsVy / 0x10 % 0x10 == 0) = true := by
  have hbase := i.op.fixed_base
  cases shiftsVy with
  | true => rfl
  | false =>
    simp only [encode, hlayout, Layout.fixed, Bool.false_eq_true, if_false, Bool.false_or,
      beq_iff_eq] at hbase ⊢
    omega

/-- The word of an instruction names its operation. -/
theorem ofWord_encode {i : Instruction} (shiftsVy : Bool) (hop : i.op ≠ .invalid) :
    Op.ofWord (i.encode shiftsVy) shiftsVy = i.op :=
  Op.ofWord_of_fixed hop (fixed_encode shiftsVy (Op.layout_ne_word hop)) single_encode

/-- The fields read from the word of an instruction are those of its normal form. -/
theorem unpack_encode {i : Instruction} (shiftsVy : Bool) (hop : i.op ≠ .invalid) :
    unpack i.op (i.encode shiftsVy) shiftsVy = i.normal shiftsVy := by
  have hx := cut_lt i.vx 0x10 (by decide)
  have hy := cut_lt i.vy 0x10 (by decide)
  have haddress := cut_lt i.address 0x1000 (by decide)
  have hbyte := cut_lt i.byte 0x100 (by decide)
  have hnibble := cut_lt i.nibble 0x10 (by decide)
  have hbase := i.op.fixed_base
  rw [normal, if_neg hop]
  simp only [part, Field.size, ← natCast_cut _ (show 0 < 0x10 by decide),
    ← natCast_cut _ (show 0 < 0x100 by decide), ← natCast_cut _ (show 0 < 0x1000 by decide)]
  unfold unpack encode
  cases hlayout : i.op.layout
  all_goals
    simp only [hlayout, Layout.fixed] at hbase ⊢
  case word => exact absurd hlayout (Op.layout_ne_word hop)
  case plain => rfl
  case nibble =>
    have hn : (i.op.base + cut i.nibble 0x10) % 0x10 = cut i.nibble 0x10 := by omega
    rw [hn]
    rfl
  case address =>
    have ha : (i.op.base + cut i.address 0x1000) % 0x1000 = cut i.address 0x1000 := by omega
    rw [ha]
    rfl
  case regByte =>
    generalize cut i.vx 0x10 = x, cut i.byte 0x100 = k at *
    have hx' : (i.op.base + 0x100 * x + k) / 0x100 % 0x10 = x := by omega
    have hk' : (i.op.base + 0x100 * x + k) % 0x100 = k := by omega
    rw [hx', hk']
    rfl
  case regReg =>
    obtain ⟨hx', hy'⟩ := regs_beside_nibble hbase hx hy
    rw [hx', hy']
    rfl
  case regRegNibble =>
    generalize cut i.vx 0x10 = x, cut i.vy 0x10 = y, cut i.nibble 0x10 = n at *
    have hx' : (i.op.base + 0x100 * x + 0x10 * y + n) / 0x100 % 0x10 = x := by omega
    have hy' : (i.op.base + 0x100 * x + 0x10 * y + n) / 0x10 % 0x10 = y := by omega
    have hn' : (i.op.base + 0x100 * x + 0x10 * y + n) % 0x10 = n := by omega
    rw [hx', hy', hn']
    rfl
  case reg =>
    have hx' : (i.op.base + 0x100 * cut i.vx 0x10) / 0x100 % 0x10 = cut i.vx 0x10 := by omega
    rw [hx']
    rfl
  case shift =>
    cases shiftsVy with
    | true =>
      obtain ⟨hx', hy'⟩ := regs_beside_nibble hbase hx hy
      simp only [if_true, hx', hy']
      rfl
    | false =>
      have hx' : (i.op.base + 0x100 * cut i.vx 0x10) / 0x100 % 0x10 = cut i.vx 0x10 := by omega
      simp only [Bool.false_eq_true, if_false, hx']
      rfl

/-- What is decoded from the word of an instruction is its normal form. -/
theorem decode_encode (i : Instruction) (shiftsVy : Bool) :
    decode (i.encode shiftsVy) shiftsVy = i.normal shiftsVy := by
  by_cases hop : i.op = .invalid
  · have hword : (i.encode shiftsVy : Int) = i.word % 0x10000 := by
      simp only [encode, hop, Op.layout]
      exact natCast_cut i.word (by decide)
    rw [normal, if_pos hop, hword]
  · rw [decode_natCast shiftsVy (encode_lt i shiftsVy), ofWord_encode shiftsVy hop,
      unpack_encode shiftsVy hop]

/-- The word of a decoded instruction is the word that it was decoded from. -/
theorem encode_decode (word : Int) (shiftsVy : Bool) :
    ((decode word shiftsVy).encode shiftsVy : Int) = word % 0x10000 := by
  rw [decode, encode_unpack shiftsVy (toNat_mod_lt word)]
  exact Int.toNat_of_nonneg (Int.emod_nonneg word (by decide))

/-- An instruction is decoded from its own word just if it is decoded from any word. -/
theorem decode_encode_eq_self_iff {i : Instruction} {shiftsVy : Bool} :
    decode (i.encode shiftsVy) shiftsVy = i ↔ ∃ word, i = decode word shiftsVy := by
  constructor
  · intro h
    exact ⟨_, h.symm⟩
  · rintro ⟨word, rfl⟩
    rw [encode_decode, decode_emod]

end Instruction

/-! ## Instructions by number -/

namespace NumberedInstruction

open Instruction

/-- The operations are numbered from zero on, without gaps. -/
theorem ofNumber?_eq_none_iff {number : Int} :
    Op.ofNumber? number = none ↔ number < 0 ∨ 44 ≤ number := by
  have hlength : Op.all.length = 44 := rfl
  unfold Op.ofNumber?
  split
  · simp_all
  · rw [List.getElem?_eq_none_iff, hlength]
    omega

/-- Only operations with unknown numbers cannot be encoded. -/
theorem encode_eq_error_iff {r : NumberedInstruction} {shiftsVy : Bool} {e : OpError} :
    r.encode shiftsVy = .error e ↔ e = .unknown r.number ∧ (r.number < 0 ∨ 44 ≤ r.number) := by
  rw [← ofNumber?_eq_none_iff, encode, toInstruction?]
  cases Op.ofNumber? r.number <;> simp [eq_comm]

/-- Exactly decoded instructions are decoded again from their words. -/
theorem redecodes_eq_true_iff {r : NumberedInstruction} {shiftsVy : Bool} :
    r.redecodes shiftsVy = .ok true ↔
      ∃ word, r.toInstruction? = some (decode word shiftsVy) := by
  unfold redecodes
  cases r.toInstruction? with
  | none => simp
  | some i => simp only [Except.ok.injEq, beq_iff_eq, Option.some.injEq, decode_encode_eq_self_iff]

/-- A numbered operation is the operation with that number. -/
theorem toInstruction?_number (op : Op) (fields : Instruction) :
    toInstruction? ⟨op.number, fields⟩ = some { fields with op } := by
  simp only [toInstruction?, Op.ofNumber?_number, Option.map_some]

/-- Numbered instructions are encoded and decoded through their normal forms, for both readings of
shifts. The word of a decoded instruction is the word that was decoded, cut to sixteen bits. A
record whose fields are any numbers is refused just if its number is not that of one of the
forty-four operations; else it has a word, and that word is decoded to its normal form. It is
decoded to the record itself just if some word is. -/
theorem codec_normalForm (shiftsVy : Bool) :
    (∀ word : Int, ((decode word shiftsVy).encode shiftsVy : Int) = word % 0x10000) ∧
    ∀ fields : Instruction,
      (∀ number e, encode ⟨number, fields⟩ shiftsVy = .error e ↔
        e = .unknown number ∧ (number < 0 ∨ 44 ≤ number)) ∧
      (∀ op : Op, ∃ w : Nat, encode ⟨op.number, fields⟩ shiftsVy = .ok w ∧
        decode w shiftsVy = normal { fields with op } shiftsVy) ∧
      ∀ number, redecodes ⟨number, fields⟩ shiftsVy = .ok true ↔
        ∃ word, toInstruction? ⟨number, fields⟩ = some (decode word shiftsVy) := by
  refine ⟨fun word => encode_decode word shiftsVy, fun fields => ⟨?_, ?_, ?_⟩⟩
  · intro number e
    exact encode_eq_error_iff
  · intro op
    refine ⟨_, ?_, decode_encode { fields with op } shiftsVy⟩
    rw [encode, toInstruction?_number]
  · intro number
    exact redecodes_eq_true_iff

end NumberedInstruction

end SuperChip
