import Mathlib.Algebra.GroupWithZero.Nat
import SuperChip.Tone

/-!
# The tone without a seam

However the samples of a tone are fetched, in blocks longer or shorter than its period or even
empty, they are one stream: fetching block after block is fetching all samples at once
(`fills_eq_fill`), since the ring stands after each block where the stream goes on. So the stream
has the period of the ring, and neither it nor the place where it ends depends on how it was cut
(`tone_has_no_seam`). A volume never asks for a sample that does not fit.
-/

set_option autoImplicit false

namespace SuperChip

namespace ToneRing

/-- The blocks fetched by one count after the other, and the ring after them. -/
def fills (r : ToneRing) : List Nat → List (List Int) × ToneRing
  | [] => ([], r)
  | count :: rest =>
    let (block, next) := r.fill count
    let (blocks, last) := next.fills rest
    (block :: blocks, last)

variable {r : ToneRing}

/-- A block is the samples from the position, which moves on around the ring. -/
theorem fill_natCast (r : ToneRing) (count : Nat) :
    r.fill count = ((List.range count).map r.sampleAt,
      { r with position := (r.position + count) % r.length }) := by
  rw [fill, Int.toNat_natCast, ← Int.natCast_add, ← Int.natCast_emod, Int.toNat_natCast]

/-- The ring after a block goes on where the block ended. -/
theorem sampleAt_after (r : ToneRing) (count n : Nat) :
    (r.fill count).2.sampleAt n = r.sampleAt (count + n) := by
  have hplace : ((r.position + count) % r.length + n) % r.length =
      (r.position + (count + n)) % r.length := by
    rw [Nat.mod_add_mod, Nat.add_assoc]
  rw [fill_natCast, sampleAt, sampleAt, ← hplace]
  rfl

/-- After a block the position lies on the ring. -/
theorem position_after_lt (h : 0 < r.length) (count : Nat) :
    (r.fill count).2.position < (r.fill count).2.length := by
  rw [fill_natCast]
  exact Nat.mod_lt _ h

/-- A block of two lengths is the blocks of both, one after the other. -/
theorem fill_add (r : ToneRing) (first second : Nat) :
    r.fill (first + second : Nat) =
      ((r.fill first).1 ++ ((r.fill first).2.fill second).1, ((r.fill first).2.fill second).2) := by
  have hblock : (List.range second).map (fun n => r.sampleAt (first + n)) =
      (List.range second).map (r.fill first).2.sampleAt :=
    List.map_congr_left fun n _ => (r.sampleAt_after first n).symm
  have hposition : (r.position + (first + second)) % r.length =
      ((r.position + first) % r.length + second) % r.length := by
    rw [Nat.mod_add_mod, Nat.add_assoc]
  rw [fill_natCast, fill_natCast (r.fill first).2, ← hblock, fill_natCast r first]
  dsimp only
  rw [List.range_add, List.map_append, List.map_map, hposition]
  rfl

/-- Each block has as many samples as were asked for. -/
theorem map_length_fills (r : ToneRing) (counts : List Nat) :
    (r.fills counts).1.map List.length = counts := by
  induction counts generalizing r with
  | nil => rfl
  | cons count rest ih =>
    have hblock : (r.fill count).1.length = count := by
      rw [fill_natCast, List.length_map, List.length_range]
    rw [fills, List.map_cons, ih, hblock]

/-- The blocks together are the one block of all their samples. -/
theorem fills_eq_fill (h : r.position < r.length) (counts : List Nat) :
    (r.fills counts).1.flatten = (r.fill counts.sum).1 ∧
      (r.fills counts).2 = (r.fill counts.sum).2 := by
  induction counts generalizing r with
  | nil =>
    rw [fill_natCast, List.sum_nil, Nat.add_zero, Nat.mod_eq_of_lt h]
    exact ⟨rfl, rfl⟩
  | cons count rest ih =>
    obtain ⟨hblocks, hlast⟩ := ih (position_after_lt (Nat.zero_lt_of_lt h) count)
    rw [List.sum_cons, fill_add, fills]
    exact ⟨congrArg ((r.fill count).1 ++ ·) hblocks, hlast⟩

/-- A block that starts at the front of the ring reads its samples around and around. -/
theorem getElem?_fill (hstart : r.position = 0) (hlength : 0 < r.length) {count j : Nat}
    (hj : j < count) : (r.fill count).1[j]? = r.samples[j % r.length]? := by
  have hplace : j % r.length < r.samples.size := Nat.mod_lt j hlength
  rw [fill_natCast, List.getElem?_map, List.getElem?_range hj, Option.map_some, sampleAt, hstart,
    Nat.zero_add, Array.getElem?_eq_getElem hplace]
  exact congrArg some (Array.getElem_eq_getD 0).symm

/-! ## Square waves -/

/-- A frequency up to the rate has a ring for each amplitude that fits with both signs. -/
theorem square_eq_ok {rate frequency amplitude : Int} (hpositive : 0 < frequency)
    (hrate : frequency ≤ rate) (hhigh : fits amplitude = true) (hlow : fits (-amplitude) = true) :
    ∃ r, square rate frequency amplitude = .ok r ∧ r.position = 0 ∧
      ∀ k < r.length,
        r.samples[k]? = some (if k < r.length / 2 then amplitude else -amplitude) := by
  have hfrequency : ¬(frequency ≤ 0 ∨ rate < frequency) := by omega
  unfold square
  rw [if_neg hfrequency, hhigh, hlow]
  refine ⟨_, rfl, rfl, fun k hk => ?_⟩
  have hlength : (rate / frequency).toNat / 2 + ((rate / frequency).toNat -
      (rate / frequency).toNat / 2) = (rate / frequency).toNat := by omega
  rw [length, Array.size_append, Array.size_replicate, Array.size_replicate, hlength] at hk ⊢
  rw [Array.getElem?_append, Array.size_replicate]
  by_cases hfirst : k < (rate / frequency).toNat / 2
  · rw [if_pos hfirst, if_pos hfirst, Array.getElem?_replicate, if_pos hfirst]
  · rw [if_neg hfirst, if_neg hfirst, Array.getElem?_replicate, if_pos (by omega)]

/-- A square wave that can be made has samples. -/
theorem length_pos {rate frequency amplitude : Int} (hpositive : 0 < frequency)
    (hrate : frequency ≤ rate) (h : square rate frequency amplitude = .ok r) : 0 < r.length := by
  have hperiod : 1 ≤ rate / frequency := (Int.le_ediv_iff_mul_le hpositive).mpr (by omega)
  rw [length_square h]
  omega

/-- A sample fits when it is a signed number of sixteen bits. -/
theorem fits_iff (value : Int) : fits value = true ↔ -32768 ≤ value ∧ value ≤ 32767 := by
  rw [fits, Bool.and_eq_true, decide_eq_true_eq, decide_eq_true_eq]
  rfl

/-- The amplitude of a volume fits with both signs. -/
theorem fits_ofVolume (volume : Int) :
    fits (max 0 (min 100 volume) * sampleMax / 100) = true ∧
      fits (-(max 0 (min 100 volume) * sampleMax / 100)) = true := by
  simp only [fits_iff, sampleMax]
  omega

/-- Every sample of a square wave fits. -/
theorem fits_of_mem_square {rate frequency amplitude : Int}
    (h : square rate frequency amplitude = .ok r) {sample : Int} (hsample : sample ∈ r.samples) :
    fits sample = true := by
  unfold square at h
  split at h
  · cases h
  · split at h
    · cases h
    · next hhigh =>
      split at h
      · cases h
      · next hlow =>
        cases h
        rw [Array.mem_append, Array.mem_replicate, Array.mem_replicate] at hsample
        obtain ⟨-, rfl⟩ | ⟨-, rfl⟩ := hsample
        · simpa using hhigh
        · simpa using hlow

/-- A volume is refused for its frequency only. -/
theorem ofVolume_cases (rate frequency volume : Int) :
    (frequency ≤ 0 ∨ rate < frequency) ∧
        ofVolume rate frequency volume = .error (.frequency frequency) ∨
      ∃ r, ofVolume rate frequency volume = .ok r ∧ ∀ sample ∈ r.samples, fits sample = true := by
  by_cases hfrequency : frequency ≤ 0 ∨ rate < frequency
  · exact .inl ⟨hfrequency, if_pos hfrequency⟩
  · obtain ⟨hpositive, hrate⟩ : 0 < frequency ∧ frequency ≤ rate := by omega
    obtain ⟨hhigh, hlow⟩ := fits_ofVolume volume
    obtain ⟨r, hr, -, -⟩ := square_eq_ok hpositive hrate hhigh hlow
    exact .inr ⟨r, hr, fun _ => fits_of_mem_square hr⟩

/-- The tone of a frequency up to the rate, at an amplitude that fits with both signs, is a square
wave with as many samples in a period as fit between two beats. Blocks of any lengths fetched one
after the other are its periods without a gap, and leave the ring where the stream goes on; how the
samples are cut into blocks changes neither. At a volume, whichever it is, every sample fits. -/
theorem tone_has_no_seam {rate frequency amplitude : Int} (hpositive : 0 < frequency)
    (hrate : frequency ≤ rate) (hhigh : fits amplitude = true) (hlow : fits (-amplitude) = true) :
    (∃ r, square rate frequency amplitude = .ok r ∧
      (r.length : Int) = rate / frequency ∧ 1 ≤ r.length ∧
      (∀ k < r.length, r.samples[k]? = some (if k < r.length / 2 then amplitude else -amplitude)) ∧
      ∀ counts : List Nat,
        (r.fills counts).1.map List.length = counts ∧
        (∀ j < counts.sum, (r.fills counts).1.flatten[j]? = r.samples[j % r.length]?) ∧
        (r.fills counts).2 = { r with position := counts.sum % r.length } ∧
        ∀ others : List Nat, others.sum = counts.sum →
          (r.fills others).1.flatten = (r.fills counts).1.flatten ∧
            (r.fills others).2 = (r.fills counts).2) ∧
      ∀ anyRate anyFrequency volume : Int,
        (anyFrequency ≤ 0 ∨ anyRate < anyFrequency) ∧
            ofVolume anyRate anyFrequency volume = .error (.frequency anyFrequency) ∨
          ∃ r, ofVolume anyRate anyFrequency volume = .ok r ∧
            ∀ sample ∈ r.samples, fits sample = true := by
  refine ⟨?_, ofVolume_cases⟩
  obtain ⟨r, hr, hstart, hsamples⟩ := square_eq_ok hpositive hrate hhigh hlow
  have hlength : (r.length : Int) = rate / frequency := by
    rw [length_square hr]
    exact Int.toNat_of_nonneg (Int.ediv_nonneg (by omega) (by omega))
  have hpos : 0 < r.length := length_pos hpositive hrate hr
  have honce := fills_eq_fill (show r.position < r.length by rwa [hstart])
  refine ⟨r, hr, hlength, hpos, hsamples, fun counts => ⟨map_length_fills r counts, ?_, ?_, ?_⟩⟩
  · intro j hj
    rw [(honce counts).1]
    exact getElem?_fill hstart hpos hj
  · rw [(honce counts).2, fill_natCast, hstart, Nat.zero_add]
  · intro others hsum
    rw [(honce others).1, (honce others).2, (honce counts).1, (honce counts).2, hsum]
    exact ⟨rfl, rfl⟩

/-- Three samples in a period, fetched in a short block, an empty one and one longer than the
period. -/
theorem tone_has_no_seam_threeSamples : (0 : Int) < 2 ∧ (2 : Int) ≤ 7 ∧ fits 5 = true ∧
    fits (-5) = true ∧ ∃ r, square 7 2 5 = .ok r ∧ r.samples = #[5, -5, -5] ∧
      (r.fills [2, 0, 5]).1 = [[5, -5], [], [-5, 5, -5, -5, 5]] ∧
      (∀ j < 7, (r.fills [2, 0, 5]).1.flatten[j]? = r.samples[j % 3]?) ∧
      (r.fills [2, 0, 5]).2.position = 1 ∧
      (r.fills [7]).1.flatten = (r.fills [2, 0, 5]).1.flatten := by
  have hpositive : (0 : Int) < 2 := by decide
  have hrate : (2 : Int) ≤ 7 := by decide
  have hhigh : fits 5 = true := by decide
  have hlow : fits (-5) = true := by decide
  obtain ⟨⟨r, hr, -, -, -, hfills⟩, -⟩ := tone_has_no_seam hpositive hrate hhigh hlow
  obtain ⟨-, hperiod, -, hcut⟩ := hfills [2, 0, 5]
  have hring : r = { samples := #[5, -5, -5] } := by
    have hsquare : square 7 2 5 = .ok { samples := #[5, -5, -5] } := by rfl
    exact Except.ok.inj (hr.symm.trans hsquare)
  have hone := (hcut [7] rfl).1
  subst hring
  exact ⟨hpositive, hrate, hhigh, hlow, _, hr, rfl, by decide, hperiod, by decide, hone⟩

end ToneRing

end SuperChip
