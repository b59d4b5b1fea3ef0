import SuperChip.Asm.Emit
import SuperChip.Proofs.Expr.Growth

/-!
# The bytes of items

An item that is encoded has as many bytes as its kind says, and it keeps them whatever names are
added to the label table. An emission is what writing its items comes to.
-/

set_option autoImplicit false

namespace SuperChip

/-- A sequence gives a result exactly if both parts do. -/
theorem except_bind_eq_ok_iff {ε α β : Type} {f : Except ε α} {g : α → Except ε β} {w : β} :
    f >>= g = .ok w ↔ ∃ v, f = .ok v ∧ g v = .ok w := by
  cases f with
  | ok v =>
    constructor
    · intro h
      exact ⟨v, rfl, h⟩
    · rintro ⟨_, ⟨⟩, h⟩
      exact h
  | error e =>
    constructor
    · intro h
      cases h
    · rintro ⟨_, ⟨⟩, _⟩

namespace Item

variable {labels more : Labels} {shiftsVy : Bool}

/-- An item that is encoded has the bytes that its kind asks for. -/
theorem length_of_encode {item : Item} {data : List UInt8}
    (h : item.encode labels shiftsVy = .ok data) : data.length = item.kind.size := by
  unfold encode at h
  split at h
  · next hkind _ =>
    obtain ⟨v, -, hdata⟩ := except_bind_eq_ok_iff.1 h
    cases hdata
    rw [hkind]
    rfl
  · next hkind _ =>
    obtain ⟨v, -, hdata⟩ := except_bind_eq_ok_iff.1 h
    cases hdata
    rw [hkind]
    rfl
  · next hkind =>
    obtain ⟨v, -, hdata⟩ := except_bind_eq_ok_iff.1 h
    cases hdata
    rw [hkind]
    rfl
  · cases h

/-! ## More names -/

/-- What succeeds with one result succeeds with the same as the other. -/
def Kept {α : Type} (f g : Except AsmCause α) : Prop := ∀ v, f = .ok v → g = .ok v

/-- Everything keeps its own results. -/
theorem Kept.refl {α : Type} (f : Except AsmCause α) : Kept f f := by
  intro v h
  exact h

/-- A sequence keeps the results that its parts keep. -/
theorem Kept.bind {α β : Type} {f g : Except AsmCause α} {k l : α → Except AsmCause β}
    (hf : Kept f g) (hk : ∀ v, Kept (k v) (l v)) : Kept (f >>= k) (g >>= l) := by
  intro w h
  obtain ⟨v, hv, hw⟩ := except_bind_eq_ok_iff.1 h
  exact except_bind_eq_ok_iff.2 ⟨v, hf v hv, hk v w hw⟩

variable (h : more.Extends labels)
include h

/-- More names keep the values of operands. -/
theorem kept_value (operand : String) : Kept (value labels operand) (value more operand) := by
  intro v hv
  rw [value] at hv ⊢
  cases heval : Expr.eval labels operand with
  | ok w =>
    rw [heval] at hv
    rw [Expr.eval_of_extends h heval]
    exact hv
  | error e =>
    rw [heval] at hv
    cases hv

/-- More names keep the fields of instructions. -/
theorem kept_instruction (op : Op) (operands : List String) :
    Kept (instruction labels op operands) (instruction more op operands) := by
  unfold instruction
  split
  · exact .refl _
  · exact (kept_value h _).bind fun _ => .refl _
  · exact (kept_value h _).bind fun _ => .refl _
  · exact (Kept.refl _).bind fun _ => (kept_value h _).bind fun _ => .refl _
  · exact .refl _
  · exact .refl _
  · exact .refl _
  · exact .refl _
  · exact (Kept.refl _).bind fun _ => (Kept.refl _).bind fun _ =>
      (kept_value h _).bind fun _ => .refl _
  · exact .refl _

/-- More names keep the bytes of items. -/
theorem kept_encode (shiftsVy : Bool) (item : Item) :
    Kept (encode labels shiftsVy item) (encode more shiftsVy item) := by
  unfold encode
  split
  · exact (kept_value h _).bind fun _ => .refl _
  · exact (kept_value h _).bind fun _ => .refl _
  · exact (kept_instruction h _ _).bind fun _ => .refl _
  · exact .refl _

end Item

/-! ## Emissions -/

namespace Assembler

variable {a : Assembler} {image final : Image}

/-- An emission that is refused keeps the assembler. -/
theorem emit_of_refused {e : AsmError}
    (h : Item.writeAll a.labels a.shiftsVy image a.items.toList = (final, some e)) :
    a.emit image = ⟨a, final, .error e⟩ := by
  simp only [emit, h]

/-- An emission that is completed drops the items. -/
theorem emit_of_written
    (h : Item.writeAll a.labels a.shiftsVy image a.items.toList = (final, none)) :
    a.emit image = ⟨{ a with items := #[] }, final,
      .ok ((if a.conditional.depth = 0 then [] else [.unclosedConditional a.line]) ++
        [.emitted final.length])⟩ := by
  simp only [emit, h]

end Assembler

end SuperChip
