import SuperChip.Proofs.Asm.Encoding
import SuperChip.Proofs.Asm.Item
import SuperChip.Proofs.Asm.Step

/-!
# Filling an image with items

The first pass fixes the address of an item by the item before it (`Item.Laid`); the second writes
its bytes at that address, wherever the bytes before it end. Both agree: the image is filled item by
item, with a zero byte only where an instruction would follow an odd number of bytes (`Item.fill`).
So the items neither overlap nor leave other gaps (`Item.Fills`).
-/

set_option autoImplicit false

namespace SuperChip

/-- The bytes between an item and the `length` bytes before it. -/
def ItemKind.padding (kind : ItemKind) (length : Nat) : List UInt8 :=
  match kind with
  | .instruction _ => if length % 2 = 1 then [0] else []
  | _ => []

/-- Padding is zero. -/
theorem ItemKind.eq_zero_of_mem_padding {kind : ItemKind} {length : Nat} :
    ∀ x ∈ kind.padding length, x = 0 := by
  unfold padding
  split
  · split <;> simp
  · simp

/-- The first pass leaves room for just these bytes. -/
theorem ItemKind.startFrom_natCast (kind : ItemKind) (length : Nat) :
    kind.startFrom (programStart + (length : Nat)) =
      programStart + ((length + (kind.padding length).length : Nat) : Int) := by
  unfold startFrom padding
  split
  · rw [Assembler.aligned, programStart]
    by_cases hodd : length % 2 = 1
    · rw [if_pos hodd, List.length_singleton]
      omega
    · rw [if_neg hodd, List.length_nil]
      omega
  · simp

/-- Every item takes up room. -/
theorem ItemKind.size_pos (kind : ItemKind) : 0 < kind.size := by
  cases kind <;> simp [size]

/-- An item starts at the address it is asked for or behind it. -/
theorem ItemKind.le_startFrom (kind : ItemKind) (address : Int) :
    address ≤ kind.startFrom address := by
  unfold startFrom
  split
  · rw [Assembler.aligned]
    omega
  · exact Int.le_refl _

namespace Item

/-! ## The first pass -/

/-- The address behind an item. -/
def stop (item : Item) : Int := item.address + item.kind.size

/-- The items stand one behind the other between two addresses, instructions at even ones. -/
inductive Laid : Int → List Item → Int → Prop where
  | nil {start : Int} : Laid start [] start
  | cons {start stop : Int} {item : Item} {rest : List Item}
      (hitem : item.address = item.kind.startFrom start)
      (hrest : Laid item.stop rest stop) : Laid start (item :: rest) stop

namespace Laid

variable {start stop : Int} {items : List Item}

/-- One more item stands behind the others. -/
theorem concat (h : Laid start items stop) {item : Item}
    (hitem : item.address = item.kind.startFrom stop) :
    Laid start (items ++ [item]) item.stop := by
  induction h with
  | nil => exact .cons hitem .nil
  | cons hfirst _ ih => exact .cons hfirst (ih hitem)

/-- No item stands in front of the start. -/
theorem le_address (h : Laid start items stop) : ∀ item ∈ items, start ≤ item.address := by
  induction h with
  | nil => nofun
  | @cons start stop item rest hitem _ ih =>
    have hstart : start ≤ item.address := by
      rw [hitem]
      exact item.kind.le_startFrom start
    intro other hother
    obtain rfl | hrest := List.mem_cons.1 hother
    · exact hstart
    · have hbehind := ih other hrest
      rw [Item.stop] at hbehind
      omega

/-- Of two items one ends before the other starts. -/
theorem pairwise (h : Laid start items stop) :
    items.Pairwise fun x y => x.stop ≤ y.address := by
  induction h with
  | nil => exact .nil
  | cons _ hrest ih => exact .cons hrest.le_address ih

/-- Instructions stand at even addresses. -/
theorem even (h : Laid start items stop) {op : Op} :
    ∀ item ∈ items, item.kind = .instruction op → item.address % 2 = 0 := by
  induction h with
  | nil => nofun
  | @cons start stop item rest hitem _ ih =>
    intro other hother hop
    obtain rfl | hrest := List.mem_cons.1 hother
    · rw [hitem, hop, ItemKind.startFrom, Assembler.aligned]
      omega
    · exact ih other hrest hop

/-- The items stop where the last of them does. -/
theorem stop_eq (h : Laid start items stop) :
    stop = (items.getLast?.map Item.stop).getD start := by
  induction h with
  | nil => rfl
  | @cons start stop item rest _ _ ih =>
    rw [List.getLast?_cons, Option.map_some, Option.getD_some]
    refine ih.trans ?_
    cases rest.getLast? <;> rfl

end Laid

/-! ## The bytes -/

variable {labels : Labels} {shiftsVy : Bool} {items : List Item} {bytes all : List UInt8}

/-- Bytes and behind them those of items. -/
def fill (labels : Labels) (shiftsVy : Bool) (bytes : List UInt8) (items : List Item) :
    Except AsmCause (List UInt8) :=
  items.foldlM (fun bytes item => do
    let data ← item.encode labels shiftsVy
    return bytes ++ item.kind.padding bytes.length ++ data) bytes

/-- The bytes of the first item come first, behind its padding. -/
theorem fill_cons_eq_ok_iff {item : Item} {rest : List Item} :
    fill labels shiftsVy bytes (item :: rest) = .ok all ↔
      ∃ data, item.encode labels shiftsVy = .ok data ∧
        fill labels shiftsVy (bytes ++ item.kind.padding bytes.length ++ data) rest = .ok all := by
  rw [fill, List.foldlM_cons, except_bind_eq_ok_iff]
  constructor
  · rintro ⟨_, hfirst, hrest⟩
    obtain ⟨data, hdata, hbytes⟩ := except_bind_eq_ok_iff.1 hfirst
    cases hbytes
    exact ⟨data, hdata, hrest⟩
  · rintro ⟨data, hdata, hrest⟩
    exact ⟨_, except_bind_eq_ok_iff.2 ⟨data, hdata, rfl⟩, hrest⟩

/-- The bytes that are there already stay in front. -/
theorem isPrefix_of_fill (hfill : fill labels shiftsVy bytes items = .ok all) : bytes <+: all := by
  induction items generalizing bytes with
  | nil =>
    cases hfill
    exact List.prefix_rfl
  | cons item rest ih =>
    obtain ⟨data, -, hrest⟩ := fill_cons_eq_ok_iff.1 hfill
    refine List.IsPrefix.trans ?_ (ih hrest)
    rw [List.append_assoc]
    exact List.prefix_append _ _

/-- Behind the bytes of an item the first pass goes on where the second does. -/
theorem stop_of_encode {item : Item} {data : List UInt8} {front : List UInt8}
    (haddress : item.address = programStart + (front.length : Nat))
    (hdata : item.encode labels shiftsVy = .ok data) :
    item.stop = programStart + ((front ++ data).length : Nat) := by
  rw [Item.stop, haddress, List.length_append, length_of_encode hdata]
  omega

/-- The first pass puts an item where the second pass puts its bytes. -/
theorem address_of_startFrom {item : Item}
    (h : item.address = item.kind.startFrom (programStart + (bytes.length : Nat))) :
    item.address = programStart + ((bytes ++ item.kind.padding bytes.length).length : Nat) := by
  rw [h, item.kind.startFrom_natCast, List.length_append]

section Fill

variable {stop : Int} (h : Laid (programStart + (bytes.length : Nat)) items stop)
  (hfill : fill labels shiftsVy bytes items = .ok all)
include h hfill

/-- The items stop where their bytes do. -/
theorem stop_of_fill : stop = programStart + (all.length : Nat) := by
  induction items generalizing bytes with
  | nil =>
    cases h
    cases hfill
    rfl
  | cons item rest ih =>
    obtain ⟨data, hdata, hrest⟩ := fill_cons_eq_ok_iff.1 hfill
    cases h with
    | cons hitem hlaid =>
      rw [stop_of_encode (address_of_startFrom hitem) hdata] at hlaid
      exact ih hlaid hrest

/-- The bytes of an item stand at its address. -/
theorem data_of_fill : ∀ item ∈ items, ∃ front data rest, all = front ++ data ++ rest ∧
    item.encode labels shiftsVy = .ok data ∧
      item.address = programStart + (front.length : Nat) := by
  induction items generalizing bytes with
  | nil => nofun
  | cons item rest ih =>
    obtain ⟨data, hdata, hrest⟩ := fill_cons_eq_ok_iff.1 hfill
    cases h with
    | cons hitem hlaid =>
      have haddress := address_of_startFrom hitem
      rw [stop_of_encode haddress hdata] at hlaid
      intro other hother
      obtain rfl | hother := List.mem_cons.1 hother
      · obtain ⟨behind, hbehind⟩ := isPrefix_of_fill hrest
        exact ⟨_, data, behind, hbehind.symm, hdata, haddress⟩
      · exact ih hlaid hrest other hother

/-- Between the items there are zeros. -/
theorem gap_of_fill {i : Nat} (hfront : bytes.length ≤ i) (hi : i < all.length)
    (hgap : ∀ item ∈ items, ¬(item.address ≤ programStart + (i : Nat) ∧
      programStart + (i : Nat) < item.stop)) : all[i]? = some 0 := by
  induction items generalizing bytes with
  | nil =>
    cases hfill
    omega
  | cons item rest ih =>
    obtain ⟨data, hdata, hrest⟩ := fill_cons_eq_ok_iff.1 hfill
    cases h with
    | cons hitem hlaid =>
      have haddress := address_of_startFrom hitem
      have hstop := stop_of_encode haddress hdata
      have hfirst := hgap item (.head _)
      by_cases hpadding : i < (bytes ++ item.kind.padding bytes.length).length
      · -- the place lies in the padding of this item
        obtain ⟨behind, rfl⟩ := isPrefix_of_fill hrest
        rw [List.append_assoc, List.getElem?_append_left hpadding,
          List.getElem?_append_right hfront]
        rw [List.length_append] at hpadding
        have hlt : i - bytes.length < (item.kind.padding bytes.length).length := by omega
        rw [List.getElem?_eq_getElem hlt]
        exact congrArg some (ItemKind.eq_zero_of_mem_padding _ (List.getElem_mem hlt))
      · rw [hstop] at hlaid
        refine ih hlaid hrest ?_ fun other hother => hgap other (.tail _ hother)
        omega

end Fill

/-- How items make up an image. -/
structure Fills (labels : Labels) (shiftsVy : Bool) (items : List Item) (bytes : List UInt8) :
    Prop where
  /-- The bytes are those of the items in order, each instruction at an even offset. -/
  fill : Item.fill labels shiftsVy [] items = .ok bytes
  /-- The bytes of an item stand at its address. -/
  data : ∀ item ∈ items, ∃ front data rest, bytes = front ++ data ++ rest ∧
    item.encode labels shiftsVy = .ok data ∧ data.length = item.kind.size ∧
      item.address = programStart + (front.length : Nat)
  even : ∀ item ∈ items, ∀ op, item.kind = .instruction op → item.address % 2 = 0
  /-- No item overlaps another. -/
  apart : items.Pairwise fun x y => x.stop ≤ y.address
  /-- What no item covers is zero. -/
  gap : ∀ i < bytes.length, (∀ item ∈ items, ¬(item.address ≤ programStart + (i : Nat) ∧
    programStart + (i : Nat) < item.stop)) → bytes[i]? = some 0
  /-- The image ends where its last item does. -/
  length : programStart + (bytes.length : Nat) =
    (items.getLast?.map Item.stop).getD programStart

/-- Items that stand one behind the other make up the image of their bytes. -/
theorem fills_of_laid {stop : Int} (h : Laid programStart items stop)
    (hfill : fill labels shiftsVy [] items = .ok all) : Fills labels shiftsVy items all := by
  have hlaid : Laid (programStart + (([] : List UInt8).length : Nat)) items stop := by
    simpa using h
  refine ⟨hfill, ?_, ?_, h.pairwise, ?_, ?_⟩
  · intro item hitem
    obtain ⟨front, data, rest, hall, hdata, haddress⟩ := data_of_fill hlaid hfill item hitem
    exact ⟨front, data, rest, hall, hdata, length_of_encode hdata, haddress⟩
  · intro item hitem op hop
    exact h.even item hitem hop
  · intro i hi hgap
    exact gap_of_fill hlaid hfill (Nat.zero_le i) hi hgap
  · rw [← stop_of_fill hlaid hfill]
    exact h.stop_eq

end Item

/-! ## The second pass -/

/-- The image holds these bytes and zeros behind them. -/
structure Image.Filled (image : Image) (bytes : List UInt8) : Prop extends image.Holds bytes where
  fits : bytes.length ≤ programSize
  rest : ∀ i < programSize, bytes.length ≤ i → image.memory[i]? = some 0

namespace Image.Filled

variable {image next : Image} {bytes : List UInt8}

/-- A new image holds no bytes, and zeros behind them. -/
theorem empty : Filled {} [] := by
  refine ⟨.empty, Nat.zero_le _, ?_⟩
  intro i hi _
  change (Array.replicate programSize 0)[i]? = some 0
  rw [Array.getElem?_replicate, if_pos hi]

/-- Bytes that are written behind those in use, with zeros between, are put there. -/
theorem write (h : image.Filled bytes) {padding data : List UInt8} (hpadding : ∀ x ∈ padding, x = 0)
    (hwrite : image.write ((bytes ++ padding).length : Nat) data = .ok next) :
    next.Filled (bytes ++ padding ++ data) := by
  unfold Image.write at hwrite
  split at hwrite
  · cases hwrite
  · next hbounds =>
    cases hwrite
    rw [Int.toNat_natCast]
    have hfit : (bytes ++ padding ++ data).length ≤ programSize := by
      rw [List.length_append]
      omega
    have hzero : ∀ i < programSize, bytes.length ≤ i → i < (bytes ++ padding).length →
        (bytes ++ padding)[i]? = image.memory[i]? := by
      intro i hi hfront hlt
      rw [List.getElem?_append_right hfront, h.rest i hi hfront]
      rw [List.length_append] at hlt
      have hlt' : i - bytes.length < padding.length := by omega
      rw [List.getElem?_eq_getElem hlt']
      exact congrArg some (hpadding _ (List.getElem_mem hlt'))
    refine ⟨⟨?_, ?_, ?_⟩, hfit, ?_⟩
    · rw [Bytes.size_overwrite, h.size]
    · simp only [h.length, List.length_append]
      omega
    · intro i hi
      rw [Bytes.getElem?_overwrite, h.size]
      by_cases hdata : (bytes ++ padding).length ≤ i
      · rw [if_pos ⟨by omega, hdata, by rwa [List.length_append] at hi⟩,
          List.getElem?_append_right hdata]
      · rw [if_neg (by omega), List.getElem?_append_left (by omega)]
        by_cases hfront : bytes.length ≤ i
        · exact (hzero i (by omega) hfront (by omega)).symm
        · rw [h.byte i (by omega), List.getElem?_append_left (by omega)]
    · intro i hi hbehind
      rw [List.length_append] at hbehind
      rw [Bytes.getElem?_overwrite, if_neg (by omega)]
      rw [List.length_append] at hbehind
      exact h.rest i hi (by omega)

end Image.Filled

namespace Item

variable {labels : Labels} {shiftsVy : Bool} {items : List Item} {image final : Image}
  {bytes : List UInt8} {stop : Int}

/-- Items that are written one behind the other fill the image. -/
theorem filled_of_writeAll (himage : image.Filled bytes)
    (h : Laid (programStart + (bytes.length : Nat)) items stop)
    (hwrite : writeAll labels shiftsVy image items = (final, none)) :
    ∃ all, fill labels shiftsVy bytes items = .ok all ∧ final.Filled all := by
  induction items generalizing image bytes with
  | nil =>
    cases hwrite
    exact ⟨bytes, rfl, himage⟩
  | cons item rest ih =>
    cases h with
    | cons hitem hlaid =>
      have haddress := address_of_startFrom hitem
      have hoffset : item.address - programStart =
          ((bytes ++ item.kind.padding bytes.length).length : Nat) := by
        rw [haddress]
        omega
      rw [writeAll, Item.write] at hwrite
      cases hdata : item.encode labels shiftsVy with
      | error cause =>
        rw [hdata] at hwrite
        cases hwrite
      | ok data =>
        simp only [hdata, hoffset] at hwrite
        cases hnext : image.write ((bytes ++ item.kind.padding bytes.length).length : Nat) data with
        | error cause =>
          rw [hnext] at hwrite
          cases hwrite
        | ok next =>
          rw [hnext] at hwrite
          rw [stop_of_encode haddress hdata] at hlaid
          have hfilled := himage.write ItemKind.eq_zero_of_mem_padding hnext
          obtain ⟨all, hfill, hfinal⟩ := ih hfilled hlaid hwrite
          exact ⟨all, fill_cons_eq_ok_iff.2 ⟨data, hdata, hfill⟩, hfinal⟩

end Item

end SuperChip
