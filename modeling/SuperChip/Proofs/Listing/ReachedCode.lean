import Mathlib.Algebra.Module.Submodule.Lattice
import Mathlib.Data.List.Permutation
import SuperChip.Listing.Listing
import SuperChip.Proofs.Listing.Survey

/-!
# Reached offsets that are taken for data

A listing decides by the boundaries around an offset whether control comes to it. One path may pass
over an instruction that ends paths, because a conditional skip stands before it, while another
starts at that very instruction and leaves there. What the first path goes on to is then reached,
yet lies behind a leaving boundary. `inData_iff_of_reached` says that this is the only way: a
reached offset is taken for data exactly if the last start of a path before it holds an instruction
that ends paths, and no path starts at the offset itself.
-/

set_option autoImplicit false

namespace SuperChip

open ProgramText

namespace Survey

variable {p : ProgramText} {s : Survey}

/-- Where no jump or call goes to an odd address, targets are even offsets. -/
theorem targetAt_even {o : Nat} (h : Path.misaligned? (p.instructionAt o) = none)
    (hstart : (p.opAt o).startsPath = true) : p.targetAt o % 2 = 0 := by
  have heven := misaligned?_eq_none_iff.mp h hstart
  simp only [ProgramText.targetAt, programStart]
  omega

/-- The paths of a survey that was not refused start at even offsets. -/
theorem Tells.start_even (h : Tells p s []) {x : Int} (hx : p.IsStart x) : x % 2 = 0 := by
  rcases hx with rfl | ⟨o, ho, hlt, hstart, rfl⟩
  · rfl
  · obtain ⟨y, b, hy, hw⟩ := (reached_iff_walksFrom hlt).mp ho
    exact targetAt_even (h.aligned y ((h.resume_iff y).mpr hy) o b hw) hstart

/-- Where one walk stops and another goes on, a path starts: past its first offset, a walk is behind
a skip or not whatever its start. -/
theorem isStart_of_stops_of_passes {x y : Int} {e : Nat} {b c : Bool} (hx : p.IsStart x)
    (hstops : p.WalksFrom x e b) (hstop : p.Stops e b) (hpasses : p.WalksFrom y e c)
    (hgo : ¬ p.Stops e c) : p.IsStart e := by
  obtain ⟨s, rfl, hs⟩ := hstops
  obtain ⟨t, rfl, ht⟩ := hpasses
  have hb := hstop.2
  have hc : c = true := by
    cases c with
    | true => rfl
    | false => exact absurd ⟨hstop.1, rfl⟩ hgo
  rcases hs.afterSkip_eq with ⟨rfl, -⟩ | ⟨-, hskip⟩
  · exact hx
  · rcases ht.afterSkip_eq with ⟨-, hfalse⟩ | ⟨-, hskip'⟩
    · rw [hc] at hfalse
      cases hfalse
    · rw [hb] at hskip
      rw [hc, ← hskip] at hskip'
      cases hskip'

/-- A reached offset is data exactly if a path starts at an instruction before it that ends paths,
and none starts after that, up to the offset itself. -/
theorem Tells.inData_iff_of_reached (h : Tells p s []) {o : Nat} (ho : p.Reached o)
    (hlt : o < p.length) :
    s.boundaries.inData o = true ↔
      ∃ e : Nat, e < o ∧ p.IsStart e ∧ (p.opAt e).endsPath = true ∧
        ∀ r, p.IsStart r → (e : Int) < r → (o : Int) < r := by
  rw [Boundaries.inData_iff h.sorted]
  simp only [h.leave_iff_stops, h.resume_iff]
  constructor
  · rintro ⟨_, ⟨x, hx, e, b, rfl, hstops, hstop⟩, hlto, hno⟩
    obtain ⟨y, c, hy, hw⟩ := (reached_iff_walksFrom hlt).mp ho
    refine ⟨e, by omega, ?_, hstop.1, hno⟩
    -- the walk to `o` started at or before `e`, so it went past `e`
    have hex := h.start_even hx
    have hey := h.start_even hy
    obtain ⟨t, rfl, ht⟩ := hw
    obtain ⟨u, rfl, hu⟩ := id hstops
    have hto := ht.le_and_even
    have hue := hu.le_and_even
    have hte : t ≤ e := by
      apply Nat.le_of_not_lt
      intro hlt'
      have := hno t hy (by omega)
      omega
    obtain ⟨c', hpasses, hgo⟩ := ht.passes hte (by omega) (by omega)
    exact isStart_of_stops_of_passes hx hstops hstop (walksFrom_natCast.mpr hpasses) hgo
  · rintro ⟨e, hlto, he, hend, hno⟩
    exact ⟨e, ⟨e, he, e, false, rfl, walksFrom_natCast.mpr (.here (by omega)), hend, rfl⟩,
      by omega, hno⟩

end Survey

namespace Listing

/-- The survey that a listing was made from. -/
theorem exists_survey_of_ofBytes {data : Bytes} {shiftsVy : Bool} {notices : List PathNotice}
    {l : Listing} (h : ofBytes data shiftsVy = (notices, .ok l)) :
    ∃ s, Survey.ofProgram ⟨data, shiftsVy⟩ = (notices, .ok s) ∧
      l = ⟨⟨data, shiftsVy⟩, s.boundaries, s.labels⟩ := by
  unfold ofBytes at h
  dsimp only at h
  split at h
  · next s heq =>
    cases h
    exact ⟨s, heq, rfl⟩
  · cases h

/-- What is computed of a listing is true of a listing. -/
theorem exists_of_ofBytes {α : Type} {data : Bytes} {shiftsVy : Bool} {f : Listing → α} {v : α}
    (h : (ofBytes data shiftsVy).2.toOption.map f = some v) :
    ∃ notices l, ofBytes data shiftsVy = (notices, .ok l) ∧ f l = v := by
  generalize ofBytes data shiftsVy = result at h ⊢
  obtain ⟨notices, result⟩ := result
  cases result with
  | error e => cases h
  | ok l => exact ⟨notices, l, rfl, Option.some.inj h⟩

/-- A reached offset of a listed program is taken for data exactly if a path starts at an
instruction before it that ends paths, and no path starts after that, up to the offset itself. In
every other case the offset is no data, as its being reached demands. -/
theorem reached_inData_iff {data : Bytes} {shiftsVy : Bool} {notices : List PathNotice}
    {l : Listing} (h : ofBytes data shiftsVy = (notices, .ok l)) {o : Nat}
    (ho : Reached ⟨data, shiftsVy⟩ o) (hlt : o < data.size) :
    l.inData o = true ↔
      ∃ e : Nat, e < o ∧ IsStart ⟨data, shiftsVy⟩ e ∧ (opAt ⟨data, shiftsVy⟩ e).endsPath = true ∧
        ∀ r, IsStart ⟨data, shiftsVy⟩ r → (e : Int) < r → (o : Int) < r := by
  obtain ⟨s, hs, rfl⟩ := exists_survey_of_ofBytes h
  exact (Survey.tells_ofProgram hs).inData_iff_of_reached ho hlt

/-- A skip over a jump to the entry, and behind it a jump to that jump. -/
def jumpBehindSkip : Bytes := #[0x30, 0x00, 0x12, 0x00, 0x12, 0x02]

/-- The skip at the entry may skip to offset 4. -/
theorem reached_jumpBehindSkip : Reached ⟨jumpBehindSkip, false⟩ (4 : Nat) :=
  Reached.skip (o := 0) .entry (by decide) (by decide)

/-- The program has a listing, in which offset 4 is data. -/
theorem exists_inData_jumpBehindSkip :
    ∃ notices l, ofBytes jumpBehindSkip false = (notices, .ok l) ∧ l.inData 4 = true :=
  exists_of_ofBytes (f := (·.inData 4)) (by cbv)

/-- Reached code may be taken for data: the jump at offset 2 is passed over behind the skip, but it
is the start of a path too, which leaves there. -/
theorem reached_inData_jumpBehindSkip :
    ¬ ∀ (data : Bytes) (shiftsVy : Bool) (notices : List PathNotice) (l : Listing),
      ofBytes data shiftsVy = (notices, .ok l) → ∀ o : Nat, Reached ⟨data, shiftsVy⟩ o →
        o < data.size → l.inData o = false := by
  intro hall
  obtain ⟨notices, l, hl, hdata⟩ := exists_inData_jumpBehindSkip
  have := hall jumpBehindSkip false notices l hl 4 reached_jumpBehindSkip (by decide)
  rw [show ((4 : Nat) : Int) = 4 from rfl, hdata] at this
  cases this

/-- At offset 4 of this program the two sides are true, by the start of a path at offset 2. -/
theorem reached_inData_iff_jumpBehindSkip :
    ∃ notices l, ofBytes jumpBehindSkip false = (notices, .ok l) ∧
      Reached ⟨jumpBehindSkip, false⟩ (4 : Nat) ∧ 4 < jumpBehindSkip.size ∧
      (l.inData (4 : Nat) = true ↔
        ∃ e : Nat, e < 4 ∧ IsStart ⟨jumpBehindSkip, false⟩ e ∧
          (opAt ⟨jumpBehindSkip, false⟩ e).endsPath = true ∧
          ∀ r, IsStart ⟨jumpBehindSkip, false⟩ r → (e : Int) < r → ((4 : Nat) : Int) < r) := by
  obtain ⟨notices, l, hl, -⟩ := exists_inData_jumpBehindSkip
  exact ⟨notices, l, hl, reached_jumpBehindSkip, by decide,
    reached_inData_iff hl reached_jumpBehindSkip (by decide)⟩

end Listing

end SuperChip
