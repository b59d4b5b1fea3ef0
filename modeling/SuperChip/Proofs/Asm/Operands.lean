import Mathlib.Data.List.Basic
import SuperChip.Proofs.Asm.Encoding
import SuperChip.Proofs.Expr.LongNumerals

/-!
# Operand counts

How many operands an item needs is settled by its kind. A form is only selected with as many
(`Form.takes_of_select`), and its operands are among those of the line (`Form.operands_of_select`).
An item that has them is never refused for its layout (`Item.documented_encode`), but only for an
operand that names no register or has no value; and it is no refusal only where an operand holds a
decimal number of more digits than can be read.
-/

set_option autoImplicit false

namespace SuperChip

/-- How many operands fill the fields of an operation. Nothing fills those of a word that is no
instruction. -/
def Op.operandCount? (shiftsVy : Bool) (op : Op) : Option Nat :=
  match op.layout with
  | .word => none
  | .plain => some 0
  | .nibble | .address | .reg => some 1
  | .regByte | .regReg => some 2
  | .regRegNibble => some 3
  | .shift => some (if shiftsVy then 2 else 1)

/-- How many operands an item has. -/
def ItemKind.operandCount? (shiftsVy : Bool) : ItemKind → Option Nat
  | .byte | .word => some 1
  | .instruction op => op.operandCount? shiftsVy

/-- The item has the operands that its kind needs. -/
def Item.Complete (shiftsVy : Bool) (item : Item) : Prop :=
  item.kind.operandCount? shiftsVy = some item.operands.length

/-- The source is refused for a documented cause, which is not an operation that its operands do not
fit, or the assembler fails at one of the operands, in which it comes to a decimal number of more
digits than can be read. -/
inductive AsmCause.Explained (operands : List String) : AsmCause → Prop where
  | refused {cause : AsmCause} (documented : cause ≠ .invalidOperation)
      (refusal : cause.isRefusal = true) : Explained operands cause
  | assigned {text : String} {n : Nat} (mem : text ∈ operands)
      (long : Expr.MeetsLong text.toList n) : Explained operands (.expression (.longNumeral n))
  | recorded {text : String} {n : Nat} (mem : text ∈ operands)
      (long : Expr.MeetsLong text.toList n) : Explained operands (.operand text (.longNumeral n))

/-- What some operands explain more of them explain. -/
theorem AsmCause.Explained.mono {few many : List String} {cause : AsmCause}
    (h : cause.Explained few) (hsubset : few ⊆ many) : cause.Explained many := by
  cases h with
  | refused documented refusal => exact .refused documented refusal
  | assigned mem long => exact .assigned (hsubset mem) long
  | recorded mem long => exact .recorded (hsubset mem) long

/-- Without operands there are only refusals. -/
theorem AsmCause.Explained.isRefusal {cause : AsmCause} (h : cause.Explained []) :
    cause.isRefusal = true := by
  cases h with
  | refused _ refusal => exact refusal
  | assigned mem => cases mem
  | recorded mem => cases mem

/-- What has no result is explained by the operands. -/
def Documented {α : Type} (operands : List String) (r : Except AsmCause α) : Prop :=
  ∀ cause, r = .error cause → cause.Explained operands

section Documented

variable {α β : Type} {few operands : List String}

/-- A result needs no explanation. -/
theorem documented_ok (v : α) : Documented operands (.ok v : Except AsmCause α) := nofun

/-- A refusal that needs no operand is explained by any. -/
theorem documented_error {cause : AsmCause} (h : cause ≠ .invalidOperation)
    (hrefusal : cause.isRefusal = true) :
    Documented operands (.error cause : Except AsmCause α) := by
  rintro _ ⟨⟩
  exact .refused h hrefusal

/-- More operands explain what fewer do. -/
theorem Documented.mono {r : Except AsmCause α} (h : Documented few r) (hsubset : few ⊆ operands) :
    Documented operands r := by
  intro cause hr
  exact (h cause hr).mono hsubset

/-- The operands explain a sequence if they explain its parts. -/
theorem Documented.bind {f : Except AsmCause α} {g : α → Except AsmCause β}
    (hf : Documented operands f) (hg : ∀ v, f = .ok v → Documented operands (g v)) :
    Documented operands (f >>= g) := by
  cases f with
  | ok v => exact hg v rfl
  | error cause =>
    rintro _ ⟨⟩
    exact hf cause rfl

end Documented

namespace Form

variable {shiftsVy : Bool} {written mnemonic : String} {operands : List String} {form : Form}

/-- Operands are as many as expected or they are refused. -/
theorem expect_eq_ok_iff {want : Nat} :
    Form.expect written want operands = .ok () ↔ operands.length = want := by
  unfold Form.expect
  by_cases hfew : operands.length < want
  · simp [hfew]
    omega
  · by_cases hmany : want < operands.length
    · simp [hfew, hmany]
      omega
    · simp [hfew, hmany]
      omega

/-- A wrong number of operands is refused. -/
theorem documented_expect (texts : List String) (want : Nat) :
    Documented texts (Form.expect written want operands) := by
  unfold Form.expect
  split
  · exact documented_error nofun rfl
  · split
    · exact documented_error nofun rfl
    · exact documented_ok ()

/-- The form of an operation with one form has as many operands as it takes. -/
theorem operandCount?_of_single? {op : Op} {count : Nat}
    (h : single? mnemonic = some (op, count)) : op.operandCount? shiftsVy = some count := by
  unfold single? at h
  split at h <;> cases h <;> rfl

/-- A load to a named target has one more operand. -/
theorem operandCount?_of_loadTo? {op : Op} (h : loadTo? mnemonic = some op) :
    op.operandCount? shiftsVy = some 1 := by
  unfold loadTo? at h
  split at h <;> cases h <;> rfl

/-- A load from a named source has one more operand. -/
theorem operandCount?_of_loadFrom? {op : Op} (h : loadFrom? mnemonic = some op) :
    op.operandCount? shiftsVy = some 1 := by
  unfold loadFrom? at h
  split at h <;> cases h <;> rfl

/-- The form has the operands that its operation needs. -/
def Takes (shiftsVy : Bool) (form : Form) : Prop :=
  form.op.operandCount? shiftsVy = some form.operands.length

/-- The forms of a skip take two operands. -/
theorem takes_selectSkip {byReg byByte : Op} (hreg : byReg.operandCount? shiftsVy = some 2)
    (hbyte : byByte.operandCount? shiftsVy = some 2) (h : operands.length = 2) :
    (selectSkip byReg byByte operands).Takes shiftsVy := by
  obtain ⟨first, second, rfl⟩ := List.length_eq_two.mp h
  unfold selectSkip
  dsimp only
  split
  · exact hreg
  · exact hbyte

/-- Every form of a load takes the operands that it is selected with. -/
theorem takes_selectLoad (first second : String) : (selectLoad first second).Takes shiftsVy := by
  unfold selectLoad
  split
  · next hto => exact operandCount?_of_loadTo? hto
  · split
    · rfl
    · split
      · next hfrom => exact operandCount?_of_loadFrom? hfrom
      · rfl

/-- Every form of an addition takes the operands that it is selected with. -/
theorem takes_selectAdd (first second : String) : (selectAdd first second).Takes shiftsVy := by
  unfold selectAdd
  split
  · rfl
  · split <;> rfl

/-- Every form of a jump takes the operands that it is selected with. -/
theorem takes_of_selectJump (h : selectJump written operands = .ok form) : form.Takes shiftsVy := by
  unfold selectJump at h
  split at h
  · cases h
  · cases h
    rfl
  · split at h <;> cases h
    rfl
  · cases h

/-- A form that is selected by two operands takes those that it is selected with. -/
theorem takes_of_pair {f : String → String → Form}
    (hf : ∀ first second, (f first second).Takes shiftsVy)
    (h : pair written operands f = .ok form) : form.Takes shiftsVy := by
  unfold pair at h
  split at h <;> cases h
  exact hf _ _

/-- A form that keeps all of the operands takes them if they were counted. -/
theorem takes_of_expect {want : Nat} {kept : Form}
    (hkept : operands.length = want → kept.Takes shiftsVy)
    (h : (do Form.expect written want operands; return kept) = .ok form) : form.Takes shiftsVy := by
  obtain ⟨_, hexpect, hreturn⟩ := except_bind_eq_ok_iff.1 h
  cases hreturn
  exact hkept (expect_eq_ok_iff.mp hexpect)

/-- A selected form has the operands that its operation needs. -/
theorem takes_of_select (h : select shiftsVy written mnemonic operands = .ok form) :
    form.Takes shiftsVy := by
  unfold select at h
  split at h
  · next op count hsingle =>
    refine takes_of_expect (fun hcount => ?_) h
    rw [Takes, operandCount?_of_single? hsingle, ← hcount]
  · split at h
    · exact takes_of_selectJump h
    · exact takes_of_expect (takes_selectSkip rfl rfl) h
    · exact takes_of_expect (takes_selectSkip rfl rfl) h
    · exact takes_of_pair takes_selectLoad h
    · exact takes_of_pair takes_selectAdd h
    · refine takes_of_expect ?_ h
      intro hcount
      exact congrArg some hcount.symm
    · refine takes_of_expect ?_ h
      intro hcount
      exact congrArg some hcount.symm
    · cases h

/-- A selected form keeps operands of the statement. -/
theorem operands_of_select (h : select shiftsVy written mnemonic operands = .ok form) :
    form.operands ⊆ operands := by
  have hpair : ∀ f : String → String → Form,
      (∀ first second, (f first second).operands ⊆ [first, second]) →
        pair written operands f = .ok form → form.operands ⊆ operands := by
    intro f hf hform
    unfold pair at hform
    split at hform <;> cases hform
    exact hf _ _
  have hexpect : ∀ want (kept : Form), kept.operands ⊆ operands →
      (do Form.expect written want operands; return kept) = Except.ok form →
        form.operands ⊆ operands := by
    intro want kept hkept hform
    obtain ⟨_, -, hreturn⟩ := except_bind_eq_ok_iff.1 hform
    cases hreturn
    exact hkept
  have hskip : ∀ byReg byByte, (selectSkip byReg byByte operands).operands ⊆ operands := by
    intro byReg byByte
    unfold selectSkip
    split <;> exact List.Subset.refl _
  unfold select at h
  split at h
  · exact hexpect _ _ (List.Subset.refl _) h
  · split at h
    · unfold selectJump at h
      split at h
      · cases h
      · cases h
        exact List.Subset.refl _
      · split at h <;> cases h
        simp
      · cases h
    · exact hexpect _ _ (hskip _ _) h
    · exact hexpect _ _ (hskip _ _) h
    · refine hpair _ (fun first second => ?_) h
      unfold selectLoad
      split
      · simp
      · split
        · exact List.Subset.refl _
        · split <;> simp
    · refine hpair _ (fun first second => ?_) h
      unfold selectAdd
      split
      · simp
      · split <;> exact List.Subset.refl _
    · exact hexpect _ _ (List.Subset.refl _) h
    · exact hexpect _ _ (List.Subset.refl _) h
    · cases h

/-- An operation without a form for its operands is refused. -/
theorem documented_select (texts : List String) (shiftsVy : Bool) (written mnemonic : String)
    (operands : List String) : Documented texts (select shiftsVy written mnemonic operands) := by
  -- most forms count their operands first
  have hexpect : ∀ want kept,
      Documented texts (do Form.expect written want operands; return (kept : Form)) :=
    fun want kept => (documented_expect texts want).bind fun _ _ => documented_ok kept
  have hpair : ∀ f, Documented texts (pair written operands f) := by
    intro f
    unfold pair
    split
    · exact documented_ok _
    · exact documented_error nofun rfl
    · exact documented_error nofun rfl
  unfold select
  split
  · exact hexpect _ _
  · split
    · unfold selectJump
      split
      · exact documented_error nofun rfl
      · exact documented_ok _
      · split
        · exact documented_ok _
        · exact documented_error nofun rfl
      · exact documented_error nofun rfl
    · exact hexpect _ _
    · exact hexpect _ _
    · exact hpair _
    · exact hpair _
    · exact hexpect _ _
    · exact hexpect _ _
    · exact documented_error nofun rfl

end Form

namespace Item

variable {labels : Labels} {shiftsVy : Bool}

variable {operands : List String}

/-- A register that cannot be read is explained by its operand. -/
theorem documented_register (operand : String) : Documented operands (register operand) := by
  unfold register
  split
  · exact documented_ok _
  · exact documented_error nofun rfl

/-- An operand without a value is refused, unless it holds a number that is too long. -/
theorem documented_value (labels : Labels) {operand : String} (hmem : operand ∈ operands) :
    Documented operands (value labels operand) := by
  unfold value
  split
  · exact documented_ok _
  · next heval =>
    obtain hrefusal | ⟨n, hmeets, rfl⟩ := Expr.refused_or_meetsLong heval
    · exact documented_error nofun hrefusal
    · rintro _ ⟨⟩
      exact .recorded hmem hmeets

/-- An operation is refused for its operands, but not for their number. -/
theorem documented_instruction {op : Op}
    (h : op.operandCount? shiftsVy = some operands.length) :
    Documented operands (instruction labels op operands) := by
  unfold Op.operandCount? at h
  cases hlayout : op.layout
  all_goals
    rw [hlayout] at h
    simp only [instruction, hlayout]
  case word => cases h
  case plain => exact documented_ok _
  case nibble | address =>
    obtain ⟨n, rfl⟩ := List.length_eq_one_iff.mp (Option.some.inj h).symm
    exact (documented_value labels (.head _)).bind fun _ _ => documented_ok _
  case reg =>
    obtain ⟨x, rfl⟩ := List.length_eq_one_iff.mp (Option.some.inj h).symm
    exact (documented_register x).bind fun _ _ => documented_ok _
  case regByte =>
    obtain ⟨x, kk, rfl⟩ := List.length_eq_two.mp (Option.some.inj h).symm
    exact (documented_register x).bind fun _ _ =>
      (documented_value labels (by simp)).bind fun _ _ => documented_ok _
  case regReg =>
    obtain ⟨x, y, rfl⟩ := List.length_eq_two.mp (Option.some.inj h).symm
    exact (documented_register x).bind fun _ _ =>
      (documented_register y).bind fun _ _ => documented_ok _
  case regRegNibble =>
    obtain ⟨x, y, n, rfl⟩ := List.length_eq_three.mp (Option.some.inj h).symm
    exact (documented_register x).bind fun _ _ => (documented_register y).bind fun _ _ =>
      (documented_value labels (by simp)).bind fun _ _ => documented_ok _
  case shift =>
    cases shiftsVy with
    | true =>
      obtain ⟨x, y, rfl⟩ := List.length_eq_two.mp (Option.some.inj h).symm
      exact (documented_register y).bind fun _ _ =>
        (documented_register x).bind fun _ _ => documented_ok _
    | false =>
      obtain ⟨x, rfl⟩ := List.length_eq_one_iff.mp (Option.some.inj h).symm
      exact (documented_register x).bind fun _ _ => documented_ok _

/-- An item with the operands that it needs is only refused for what they name. -/
theorem documented_encode {item : Item} (h : item.Complete shiftsVy) :
    Documented item.operands (item.encode labels shiftsVy) := by
  obtain ⟨kind, address, line, operands⟩ := item
  cases kind with
  | byte | word =>
    obtain ⟨text, rfl⟩ := List.length_eq_one_iff.mp (Option.some.inj h).symm
    exact (documented_value labels (.head _)).bind fun _ _ => documented_ok _
  | instruction op => exact (documented_instruction h).bind fun _ _ => documented_ok _

end Item

end SuperChip
