import SuperChip.Proofs.Text.Scan
import SuperChip.Text.Hex

/-!
# Numerals read back

The digits that are printed for a number in a base up to sixteen, filled with zeros and in capitals
or not, are read as that number. So two numbers with the same digits are the same.
-/

set_option autoImplicit false

namespace SuperChip.Text

variable {base width n : Nat}

/-- The characters of a numeral are digits of its base. -/
theorem exists_digitChar_of_mem_toDigits (hb : 1 < base) {c : Char}
    (hc : c ∈ Nat.toDigits base n) : ∃ d < base, c = Nat.digitChar d := by
  induction n using Nat.strongRecOn with
  | ind n ih =>
    rw [Nat.toDigits_eq_if hb] at hc
    split at hc
    · next hlt => exact ⟨n, hlt, List.mem_singleton.1 hc⟩
    · next hle =>
      obtain hc | hc := List.mem_append.1 hc
      · exact ih (n / base) (Nat.div_lt_self (by omega) hb) hc
      · exact ⟨n % base, Nat.mod_lt _ (by omega), List.mem_singleton.1 hc⟩

/-- The characters of a padded numeral are digits of its base. -/
theorem exists_digitChar_of_mem_padded (hb : 1 < base) {c : Char}
    (hc : c ∈ padded base width n) : ∃ d < base, c = Nat.digitChar d := by
  unfold padded List.leftpad at hc
  obtain hc | hc := List.mem_append.1 hc
  · exact ⟨0, by omega, (List.mem_replicate.1 hc).2⟩
  · exact exists_digitChar_of_mem_toDigits hb hc

/-- A padded numeral is not empty. -/
theorem padded_ne_nil : padded base width n ≠ [] := by
  unfold padded List.leftpad
  intro h
  exact Nat.toDigits_ne_nil (List.append_eq_nil_iff.1 h).2

section Read

variable {f : Char → Char}

/-- Digits, each written as `f` writes it, are read as their number. -/
theorem ofDigits_map_toDigits (hb : 1 < base)
    (hf : ∀ d < base, digitValue (f (Nat.digitChar d)) = d) :
    ofDigits base ((Nat.toDigits base n).map f) = n := by
  induction n using Nat.strongRecOn with
  | ind n ih =>
    rw [Nat.toDigits_eq_if hb]
    split
    · next hlt =>
      rw [ofDigits, List.map_singleton, List.foldl_cons, List.foldl_nil, hf n hlt]
      omega
    · next hle =>
      have hquot := ih (n / base) (Nat.div_lt_self (by omega) hb)
      unfold ofDigits at hquot ⊢
      rw [List.map_append, List.foldl_append, hquot, List.map_singleton, List.foldl_cons,
        List.foldl_nil, hf _ (Nat.mod_lt _ (by omega))]
      exact Nat.div_add_mod n base

/-- Zeros in front do not change what digits are read as. -/
theorem ofDigits_map_padded (hb : 1 < base)
    (hf : ∀ d < base, digitValue (f (Nat.digitChar d)) = d) :
    ofDigits base ((padded base width n).map f) = n := by
  have hzeros : ∀ k, ofDigits base ((List.replicate k '0').map f) = 0 := by
    intro k
    induction k with
    | zero => rfl
    | succ k ih =>
      have hzero : digitValue (f '0') = 0 := hf 0 (by omega)
      unfold ofDigits at ih ⊢
      rw [List.replicate_succ, List.map_cons, List.foldl_cons, hzero]
      exact ih
  have hdigits := ofDigits_map_toDigits (n := n) hb hf
  unfold ofDigits at hzeros hdigits ⊢
  unfold padded List.leftpad
  rw [List.map_append, List.foldl_append, hzeros, hdigits]

end Read

/-- A hexadecimal numeral is a padded one in capitals. -/
theorem toList_hex (width n : Nat) :
    (hex width n).toList = (padded 16 width n).map Char.toUpper := by
  unfold hex numeral
  rw [String.toList_ofList, if_neg (by omega)]
  rfl

/-- A hexadecimal numeral is read back. -/
theorem ofDigits_hex (width n : Nat) : ofDigits 16 (hex width n).toList = n := by
  rw [toList_hex]
  exact ofDigits_map_padded (by decide) (by decide)

/-- The characters of a hexadecimal numeral are hexadecimal digits. -/
theorem isHexDigit_of_mem_hex {c : Char} (hc : c ∈ (hex width n).toList) : isHexDigit c = true := by
  have hdigit : ∀ d < 16, isHexDigit (Nat.digitChar d).toUpper = true := by decide
  rw [toList_hex] at hc
  obtain ⟨d, hd, rfl⟩ := List.mem_map.1 hc
  obtain ⟨k, hk, rfl⟩ := exists_digitChar_of_mem_padded (by decide) hd
  exact hdigit k hk

/-- A hexadecimal numeral is not empty. -/
theorem toList_hex_ne_nil : (hex width n).toList ≠ [] := by
  rw [toList_hex]
  intro h
  exact padded_ne_nil (List.map_eq_nil_iff.1 h)

/-- Numbers with one hexadecimal numeral are the same. -/
theorem hex_injective {m : Nat} (h : hex width m = hex width n) : m = n := by
  rw [← ofDigits_hex width m, h, ofDigits_hex]

/-- The two digits of a byte are read back. -/
theorem ofDigits_hexByte (b : UInt8) : ofDigits 16 (hexByte b).toList = b.toNat := by
  have hread : ofDigits 16 ((padded 16 2 b.toNat).map id) = b.toNat :=
    ofDigits_map_padded (by decide) (by decide)
  rw [List.map_id] at hread
  rw [hexByte, String.toList_ofList, hread]

/-- The characters of a byte are hexadecimal digits. -/
theorem isHexDigit_of_mem_hexByte {b : UInt8} {c : Char} (hc : c ∈ (hexByte b).toList) :
    isHexDigit c = true := by
  have hdigit : ∀ d < 16, isHexDigit (Nat.digitChar d) = true := by decide
  rw [hexByte, String.toList_ofList] at hc
  obtain ⟨d, hd, rfl⟩ := exists_digitChar_of_mem_padded (by decide) hc
  exact hdigit d hd

/-- A decimal numeral is read back. -/
theorem ofDigits_toString (n : Nat) : ofDigits 10 (toString (n : Int)).toList = n := by
  have hread := ofDigits_map_toDigits (f := id) (n := n) (show 1 < 10 by decide) (by decide)
  rw [List.map_id] at hread
  rw [show toString (n : Int) = n.repr from rfl, Nat.toList_repr, hread]

/-- The characters of a decimal numeral are digits. -/
theorem isDigit_of_mem_toString {c : Char} (hc : c ∈ (toString (n : Int)).toList) :
    c.isDigit = true := by
  rw [show toString (n : Int) = n.repr from rfl, Nat.toList_repr] at hc
  exact Nat.isDigit_of_mem_toDigits (by decide) (by decide) hc

/-- A decimal numeral is not empty. -/
theorem toList_toString_ne_nil : (toString (n : Int)).toList ≠ [] := by
  rw [show toString (n : Int) = n.repr from rfl, Nat.toList_repr]
  exact Nat.toDigits_ne_nil

end SuperChip.Text
