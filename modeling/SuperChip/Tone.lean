/-!
# The tone

The buzzer's tone is a square wave: one period of samples, read around and around. Samples are
signed 16-bit numbers.
-/

set_option autoImplicit false

namespace SuperChip

/-- Why there is no tone. -/
inductive ToneError where
  /-- The frequency is not positive, or beyond the sample rate. -/
  | frequency (hertz : Int)
  /-- A sample does not fit sixteen bits. -/
  | sample (value : Int)
  deriving DecidableEq, Repr

/-- The wording of each refusal. -/
def ToneError.message : ToneError → String
  | .frequency hertz => s!"Tone frequency out of range: {hertz}"
  | .sample value => s!"Python integer {value} out of bounds for int16"

/-- One period of samples and the place of the next one. -/
structure ToneRing where
  samples : Array Int
  position : Nat := 0
  deriving DecidableEq, Repr, Inhabited

namespace ToneRing

/-- The greatest sample. -/
def sampleMax : Int := 32767

/-- Whether a number fits a sample. -/
def fits (value : Int) : Bool := -sampleMax - 1 ≤ value && value ≤ sampleMax

/-- The ring of a square wave: the first half of a period at the amplitude, the rest at its
negative. -/
def square (rate frequency amplitude : Int) : Except ToneError ToneRing :=
  if frequency ≤ 0 ∨ rate < frequency then .error (.frequency frequency)
  else if !fits amplitude then .error (.sample amplitude)
  else if !fits (-amplitude) then .error (.sample (-amplitude))
  else
    let period := (rate / frequency).toNat
    .ok { samples := Array.replicate (period / 2) amplitude ++
            Array.replicate (period - period / 2) (-amplitude) }

/-- The ring of a square wave at a volume in percent of the greatest sample, cut to `0 .. 100`. -/
def ofVolume (rate frequency volume : Int) : Except ToneError ToneRing :=
  square rate frequency (max 0 (min 100 volume) * sampleMax / 100)

/-- The number of samples in a period. -/
def length (r : ToneRing) : Nat := r.samples.size

/-- A period has as many samples as fit between two beats of the frequency. -/
theorem length_square {rate frequency amplitude : Int} {r : ToneRing}
    (h : square rate frequency amplitude = .ok r) : r.length = (rate / frequency).toNat := by
  unfold square at h
  split at h
  · cases h
  · split at h
    · cases h
    · split at h
      · cases h
      · cases h
        simp [length]
        omega

/-- The sample `n` places after the present one. -/
def sampleAt (r : ToneRing) (n : Nat) : Int := r.samples.getD ((r.position + n) % r.length) 0

/-- The next `count` samples, and the ring after them. A negative count gives none and turns the
ring back. -/
def fill (r : ToneRing) (count : Int) : List Int × ToneRing :=
  ((List.range count.toNat).map r.sampleAt,
   { r with position := ((r.position + count) % r.length).toNat })

end ToneRing

/-- A buzzer that plays a tone once its output is open. -/
structure ToneSink where
  ring : ToneRing
  rate : Int
  playing : Bool := false
  deriving Repr, Inhabited

namespace ToneSink

/-- The frequency of a tone unless it is told. -/
def defaultFrequency : Int := 440

/-- The volume of a tone unless it is told. -/
def defaultVolume : Int := 10

/-- The sample rate unless it is told. -/
def defaultRate : Int := 48000

/-- A sink that is not playing. -/
def make (frequency volume rate : Int) : Except ToneError ToneSink :=
  (ToneRing.ofVolume rate frequency volume).map fun ring => { ring, rate }

/-- The sink set to play or not. -/
def set (s : ToneSink) (on : Bool) : ToneSink := { s with playing := on }

end ToneSink

end SuperChip
