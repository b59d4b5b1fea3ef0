import Mathlib.Data.Nat.Find
import SuperChip.Proofs.Listing.ReachedCode
import SuperChip.Proofs.Listing.Words

/-!
# Only walked words are shown as code

What a listing shows as an instruction was decoded by a walk from one of its recorded starts. A word
that no such walk comes to lies behind the last start before it, and the walk from that start comes
to every second offset until it stops. So it stops before the word, with a leaving boundary and no
start behind that, and the word is shown as data (`unwalked_shown_as_data`).
-/

set_option autoImplicit false

namespace SuperChip

namespace ProgramText

/-- A walk comes to the `k`-th word behind its start, unless it stops before. -/
theorem walks_or_stops {p : ProgramText} {s k : Nat} (hlt : s + 2 * k < p.length) :
    (∃ b, p.Walks s false (s + 2 * k) b) ∨
      ∃ e b, s ≤ e ∧ e < s + 2 * k ∧ p.Walks s false e b ∧ p.Stops e b := by
  induction k with
  | zero => exact .inl ⟨false, .here hlt⟩
  | succ k ih =>
    rcases ih (by omega) with ⟨b, hw⟩ | ⟨e, b, hse, hek, hw, hstop⟩
    · by_cases hstop : p.Stops (s + 2 * k) b
      · exact .inr ⟨s + 2 * k, b, by omega, by omega, hw, hstop⟩
      · exact .inl ⟨_, hw.extend hstop hlt⟩
    · exact .inr ⟨e, b, hse, by omega, hw, hstop⟩

end ProgramText

open ProgramText

/-- An even offset that no walk from a recorded start comes to is data. -/
theorem Survey.Tells.inData_of_unwalked {p : ProgramText} {s : Survey} (h : Tells p s []) {o : Nat}
    (heven : o % 2 = 0) (hlt : o < p.length)
    (hunwalked : ∀ x b, s.boundaries.contains ⟨x, .resume⟩ = true → ¬ p.WalksFrom x o b) :
    s.boundaries.inData o = true := by
  let starts (n : Nat) : Prop := s.boundaries.contains ⟨n, .resume⟩ = true
  -- starts before the program are passed over, as the entry is none of them
  have hentry : starts 0 := (h.resume_iff 0).mpr (.inl rfl)
  obtain ⟨x, hx, hle, hlast⟩ : ∃ x, starts x ∧ x ≤ o ∧ ∀ n, x < n → n ≤ o → ¬ starts n :=
    ⟨Nat.findGreatest starts o, Nat.findGreatest_spec (Nat.zero_le o) hentry,
      Nat.findGreatest_le o, fun _ => Nat.findGreatest_is_greatest⟩
  have hxeven := h.start_even ((h.resume_iff x).mp hx)
  obtain ⟨k, rfl⟩ : ∃ k, o = x + 2 * k := ⟨(o - x) / 2, by omega⟩
  rcases walks_or_stops hlt with ⟨b, hw⟩ | ⟨e, b, hxe, heo, hw, hstop⟩
  · exact absurd (walksFrom_natCast.mpr hw) (hunwalked x b hx)
  · rw [Boundaries.inData_iff h.sorted]
    have hleave : s.boundaries.contains ⟨e, .leave⟩ = true :=
      (h.leave_iff e).mpr ⟨x, hx, e, b, rfl, walksFrom_natCast.mpr hw, hstop⟩
    refine ⟨e, hleave, by omega, fun r hr her => ?_⟩
    obtain ⟨n, rfl⟩ := Int.eq_ofNat_of_zero_le (show 0 ≤ r by omega)
    have hbehind : ¬ n ≤ x + 2 * k := fun hno => hlast n (by omega) hno hr
    omega

namespace Listing

/-- A word at an even offset that no walk from a recorded start comes to is data, and the one line
at its offset shows it as such. -/
theorem unwalked_shown_as_data {data : Bytes} {shiftsVy : Bool} {notices : List PathNotice}
    {l : Listing} (h : ofBytes data shiftsVy = (notices, .ok l)) {o : Nat} (heven : o % 2 = 0)
    (hlt : o < data.size)
    (hunwalked : ∀ x b, l.boundaries.contains ⟨x, .resume⟩ = true →
      ¬ WalksFrom ⟨data, shiftsVy⟩ x o b) :
    l.inData o = true ∧ ∀ text, (o, text) ∈ l.lines ↔
      text = l.column o ++ ("DW #" ++ Text.hex 4 (wordAt ⟨data, shiftsVy⟩ o)) := by
  obtain ⟨s, hs, rfl⟩ := exists_survey_of_ofBytes h
  have hdata := (Survey.tells_ofProgram hs).inData_of_unwalked heven hlt hunwalked
  refine ⟨hdata, fun text => ?_⟩
  rw [mem_lines_iff, wordLine, wordText, if_pos (show inData ⟨_, _, _⟩ o = true from hdata)]
  exact ⟨fun hline => hline.2.2, fun htext => ⟨heven, hlt, htext⟩⟩

/-- A call to an address before the program, a computed jump, and data. -/
def callBeforeProgram : Bytes := #[0x21, 0xFE, 0xB2, 0x00, 0xFF, 0xFF]

/-- The walk from the entry leaves at the computed jump, and none goes on from the call's target. -/
theorem unwalked_shown_as_data_callBeforeProgram :
    ∃ notices l, ofBytes callBeforeProgram false = (notices, .ok l) ∧
      (∀ x b, l.boundaries.contains ⟨x, .resume⟩ = true →
        ¬ WalksFrom ⟨callBeforeProgram, false⟩ x (4 : Nat) b) ∧
      l.inData (4 : Nat) = true ∧ (4, "      DW #FFFF") ∈ l.lines := by
  have heval : (ofBytes callBeforeProgram false).2.toOption.map (fun l =>
      (l.labels, l.boundaries.toList)) =
      some ([0], [⟨-2, .resume⟩, ⟨0, .resume⟩, ⟨2, .leave⟩]) := by
    cbv
  obtain ⟨notices, l, hl, hvalue⟩ := exists_of_ofBytes heval
  obtain ⟨hlabels, hboundaries⟩ := Prod.mk.inj hvalue
  have hunwalked : ∀ x b, l.boundaries.contains ⟨x, .resume⟩ = true →
      ¬ WalksFrom ⟨callBeforeProgram, false⟩ x (4 : Nat) b := by
    intro x b hx hw
    have hx' : x = -2 ∨ x = 0 := by
      simpa [Boundaries.contains_iff, hboundaries] using hx
    rcases hx' with rfl | rfl
    · exact not_walksFrom_of_neg (by decide) _ _ hw
    · have hw := walksFrom_natCast.mp hw
      rcases (walks_iff.mp hw).2 with ⟨hzero, -⟩ | ⟨-, hw⟩
      · cases hzero
      · have hstops : Stops ⟨callBeforeProgram, false⟩ 2 false := ⟨by decide, rfl⟩
        cases (hw.eq_of_stops hstops).1
  obtain ⟨hdata, hline⟩ := unwalked_shown_as_data hl (o := 4) rfl (by decide) hunwalked
  refine ⟨notices, l, hl, hunwalked, hdata, (hline _).mpr ?_⟩
  rw [column, hlabels]
  decide +kernel

end Listing

end SuperChip
