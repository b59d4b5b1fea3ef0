import SuperChip.Proofs.Expr.Value
import SuperChip.Proofs.Text.Digits

/-!
# Operands that are a number or a name

A hexadecimal numeral behind its mark and a decimal numeral evaluate to their number, and a name to
the value that the label table has for it.
-/

set_option autoImplicit false

namespace SuperChip.Expr

open Text

/-- A text that is a single literal or name evaluates to its value. -/
theorem eval_lexeme (labels : Labels) {t : Tree} {x : Lexeme} {text : String}
    (hx : Renders 0 t [x]) (hreadable : x.Readable) (htext : text.toList = x.chars) :
    (t.value labels = none ∧ ∃ e, eval labels text = .error e ∧ e.isRefusal = true) ∨
      ∃ v, t.value labels = some v ∧ eval labels text = .ok v.toNat := by
  have hspaced : Spaced [x] text.toList := htext ▸ spaced_single x
  have hmarks : countMarks [x] < 100 :=
    Nat.lt_of_le_of_lt List.countP_le_length (show 1 < 100 by decide)
  have hoperands : countOperands [x] < 100 :=
    Nat.lt_of_le_of_lt List.countP_le_length (show 1 < 100 by decide)
  exact hx.eval labels hspaced (by simpa using hreadable) hmarks hoperands

/-- A literal evaluates to its number. -/
theorem eval_literal (labels : Labels) {l : Literal} {text : String} (hreadable : l.Readable)
    (htext : text.toList = l.chars) : eval labels text = .ok (l.value % 2 ^ 16) := by
  obtain ⟨hnone, -⟩ | ⟨v, hv, heval⟩ := eval_lexeme labels (.literal 0 l) hreadable htext
  · cases hnone
  · cases hv
    rw [heval, BitVec.toNat_ofNat]

/-- A hexadecimal numeral evaluates to its number, however many digits it has. -/
theorem eval_hex (labels : Labels) (width n : Nat) :
    eval labels ("#" ++ hex width n) = .ok (n % 2 ^ 16) := by
  have hread := ofDigits_hex width n
  rw [ofDigits_eq] at hread
  let l : Literal := ⟨.hexadecimal, (hex width n).toList, toList_hex_ne_nil,
    fun _ => isHexDigit_of_mem_hex⟩
  have hvalue : l.value = n := hread
  rw [eval_literal labels (l := l) nofun (by rw [String.toList_append]; rfl), hvalue]

/-- The decimal numeral of a sixteen-bit number evaluates to this number. -/
theorem eval_toString (labels : Labels) {n : Nat} (hn : n < 2 ^ 16) :
    eval labels (toString (n : Int)) = .ok n := by
  have hread := ofDigits_toString n
  rw [ofDigits_eq] at hread
  let l : Literal := ⟨.decimal, (toString (n : Int)).toList, toList_toString_ne_nil,
    fun _ => isDigit_of_mem_toString⟩
  have hvalue : l.value = n := hread
  have hreadable : l.Readable := by
    have hlength : (toString (n : Int)).length ≤ 5 :=
      Nat.repr_length n 5 (by decide) (Nat.lt_trans hn (by decide))
    intro _
    calc l.digits.length = (toString (n : Int)).length := String.length_toList
      _ ≤ 5 := hlength
      _ ≤ digitLimit := by decide
  rw [eval_literal labels hreadable rfl, hvalue, Nat.mod_eq_of_lt hn]

/-- A name with a value evaluates to it, cut to sixteen bits. -/
theorem eval_name {labels : Labels} {n : Name} {v : Int} (h : labels.find? n.text = some v) :
    eval labels n.text = .ok (toWord v) := by
  have htext : n.text.toList = (Lexeme.name n).chars := String.toList_ofList
  obtain ⟨hnone, -⟩ | ⟨w, hw, heval⟩ := eval_lexeme labels (.name 0 n) trivial htext
  · rw [Tree.value, h] at hnone
    cases hnone
  · rw [Tree.value, h, Option.map_some] at hw
    cases hw
    rw [heval, toWord_eq_toNat_ofInt]

/-- A name without a value is refused. -/
theorem eval_name_missing {labels : Labels} {n : Name} (h : labels.find? n.text = none) :
    ∃ e, eval labels n.text = .error e ∧ e.isRefusal = true := by
  have htext : n.text.toList = (Lexeme.name n).chars := String.toList_ofList
  obtain ⟨-, herror⟩ | ⟨w, hw, -⟩ := eval_lexeme labels (.name 0 n) trivial htext
  · exact herror
  · rw [Tree.value, h] at hw
    cases hw

end SuperChip.Expr
