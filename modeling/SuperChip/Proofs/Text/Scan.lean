import SuperChip.Text.Blank
import SuperChip.Text.Name

/-!
# Scanning a text to the end of a word

Reading a run of characters of a class stops where the text goes on with a character of another
class, or ends; `Stops p r` says so of the text `r` that follows. The classes of digits and names
lie in ASCII, so that a fact about all their characters is checked for the 128 code points.
-/

set_option autoImplicit false

namespace SuperChip.Text

/-- What holds for every ASCII code point holds for every ASCII character. -/
theorem of_ascii {p : Char → Bool} (h : ∀ n : Fin 128, p (Char.ofNat n.val) = true) {c : Char}
    (hc : c.toNat < 128) : p c = true := by
  have hn := h ⟨c.toNat, hc⟩
  rwa [Char.ofNat_toNat] at hn

/-- What does not exceed an ASCII character is one. -/
theorem toNat_lt_of_le {c d : Char} (h : c ≤ d) (hd : d.toNat < 128) : c.toNat < 128 :=
  Nat.lt_of_le_of_lt (UInt32.le_iff_toNat_le.1 h) hd

/-- The characters of names are ASCII. -/
theorem toNat_lt_of_isNameChar {c : Char} (h : isNameChar c = true) : c.toNat < 128 := by
  delta isNameChar Char.isAlphanum Char.isAlpha Char.isUpper Char.isLower Char.isDigit at h
  simp only [Bool.or_eq_true, Bool.and_eq_true, decide_eq_true_eq, beq_iff_eq] at h
  obtain ((h | h) | h) | h := h
  · exact toNat_lt_of_le (d := 'Z') h.2 (by decide)
  · exact toNat_lt_of_le (d := 'z') h.2 (by decide)
  · exact toNat_lt_of_le (d := '9') h.2 (by decide)
  · rw [h]
    decide

/-- A space is blank. -/
theorem isBlank_of_mem_space : ∀ c ∈ [' '], isBlank c = true :=
  List.forall_mem_singleton.2 (by decide)

/-- What begins a name goes on in one. -/
theorem isNameChar_of_isNameStart {c : Char} (h : isNameStart c = true) : isNameChar c = true := by
  simp only [isNameStart, isNameChar, Char.isAlphanum, Bool.or_eq_true] at h ⊢
  exact h.imp_left .inl

/-- Digits go on in names. -/
theorem isNameChar_of_isDigit {c : Char} (h : c.isDigit = true) : isNameChar c = true := by
  simp only [isNameChar, Char.isAlphanum, Bool.or_eq_true]
  exact .inl (.inr h)

/-- Hexadecimal digits go on in names. -/
theorem isNameChar_of_isHexDigit {c : Char} (h : isHexDigit c = true) : isNameChar c = true := by
  have hc : c.toNat < 128 := by
    simp only [isHexDigit, Bool.or_eq_true, Bool.and_eq_true, decide_eq_true_eq] at h
    obtain (h | h) | h := h
    · exact toNat_lt_of_isNameChar (isNameChar_of_isDigit h)
    · exact toNat_lt_of_le h.2 (by decide)
    · exact toNat_lt_of_le h.2 (by decide)
  have himp := of_ascii (p := fun c => !isHexDigit c || isNameChar c) (by decide) hc
  simpa [h] using himp

/-- The characters of names are not blank. -/
theorem isBlank_of_isNameChar {c : Char} (h : isNameChar c = true) : isBlank c = false := by
  have himp := of_ascii (p := fun c => !isNameChar c || !isBlank c) (by decide)
    (toNat_lt_of_isNameChar h)
  simpa [h] using himp

/-- The text does not go on with a character of the class. -/
def Stops (p : Char → Bool) (r : List Char) : Prop := ∀ c ∈ r.head?, p c = false

/-- Where a scan stops, one that takes fewer characters does. -/
theorem Stops.mono {p q : Char → Bool} {r : List Char} (h : Stops p r)
    (hpq : ∀ c, q c = true → p c = true) : Stops q r := by
  intro c hc
  have hp := h c hc
  cases hq : q c with
  | false => rfl
  | true => exact absurd (hpq c hq) (by rw [hp]; decide)

/-- A run of a class ends where the text stops the class. -/
theorem takeWhile_append_stops {p : Char → Bool} {w r : List Char} (hw : ∀ c ∈ w, p c = true)
    (hr : Stops p r) : (w ++ r).takeWhile p = w := by
  rw [List.takeWhile_append_of_pos hw]
  cases r with
  | nil => rw [List.takeWhile_nil, List.append_nil]
  | cons c r => rw [List.takeWhile_cons_of_neg (by rw [hr c rfl]; decide), List.append_nil]

/-- Behind a run of a class stands the text that stops it. -/
theorem dropWhile_append_stops {p : Char → Bool} {w r : List Char} (hw : ∀ c ∈ w, p c = true)
    (hr : Stops p r) : (w ++ r).dropWhile p = r := by
  rw [List.dropWhile_append_of_pos hw]
  cases r with
  | nil => rfl
  | cons c r => rw [List.dropWhile_cons_of_neg (by rw [hr c rfl]; decide)]

end SuperChip.Text
