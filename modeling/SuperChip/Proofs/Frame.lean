import SuperChip.Frame
import SuperChip.Proofs.Machine.Sprite

/-!
# Frames are enlarged displays

Stretching a row and then the rows shows each pixel as a square, so the colour at a place is that of
the pixel found by dividing the place by the side of the square (`ofDisplay_enlarges`). Both
resolutions fill frames of one size, since low resolution has half the columns and rows and squares
of twice the side.
-/

set_option autoImplicit false

namespace SuperChip

namespace Frame

variable {α : Type}

/-- A stretched list is so many times as long. -/
theorem length_stretch (n : Nat) (xs : List α) : (stretch n xs).length = n * xs.length := by
  induction xs with
  | nil => rfl
  | cons x xs ih =>
    rw [stretch, List.flatMap_cons, List.length_append, List.length_replicate, ← stretch, ih,
      List.length_cons, Nat.mul_succ, Nat.add_comm]

/-- The element at a place of a stretched list is found by dividing the place. -/
theorem getElem?_stretch {n : Nat} (hn : 0 < n) (xs : List α) (i : Nat) :
    (stretch n xs)[i]? = xs[i / n]? := by
  induction xs generalizing i with
  | nil => rfl
  | cons x xs ih =>
    rw [stretch, List.flatMap_cons, List.getElem?_append, List.length_replicate, ← stretch]
    by_cases hfirst : i < n
    · rw [if_pos hfirst, List.getElem?_replicate, if_pos hfirst, Nat.div_eq_of_lt hfirst]
      rfl
    · obtain ⟨j, rfl⟩ : ∃ j, i = j + n := ⟨i - n, by omega⟩
      rw [if_neg hfirst, Nat.add_sub_cancel, ih, Nat.add_div_right j hn, List.getElem?_cons_succ]

/-- A place in a stretched list holds what stands at its quotient. -/
theorem getElem?_stretch_range {n count i : Nat} (f : Nat → α) (hi : i < n * count) :
    (stretch n ((List.range count).map f))[i]? = some (f (i / n)) := by
  have hn : 0 < n := Nat.pos_of_lt_mul_right hi
  have hplace : i / n < count := Nat.div_lt_of_lt_mul hi
  rw [getElem?_stretch hn, List.getElem?_map, List.getElem?_range hplace, Option.map_some]

/-! ## The squares of a resolution -/

/-- Both resolutions have frames of the same width. -/
theorem factor_mul_shownColumns (highRes : Bool) (scale : Nat) :
    factor highRes scale * shownColumns highRes = displayWidth * scale := by
  cases highRes
  · exact Nat.mul_right_comm 2 scale 64
  · exact Nat.mul_comm _ _

/-- Both resolutions have frames of the same height. -/
theorem factor_mul_shownRows (highRes : Bool) (scale : Nat) :
    factor highRes scale * shownRows highRes = displayHeight * scale := by
  cases highRes
  · exact Nat.mul_right_comm 2 scale 32
  · exact Nat.mul_comm _ _

/-- The rows of a frame: each pixel that a resolution shows is stretched both ways. -/
theorem ofDisplay_natCast (d : Display) (highRes : Bool) (scale : Nat) :
    ofDisplay d highRes scale = .ok {
      width := displayWidth * scale
      height := displayHeight * scale
      rows := stretch (factor highRes scale) ((List.range (shownRows highRes)).map fun y =>
        stretch (factor highRes scale)
          ((List.range (shownColumns highRes)).map fun x => d.lit x y)) } := by
  have hscale : ¬(scale : Int) < 0 := by omega
  rw [← factor_mul_shownColumns highRes scale, ← factor_mul_shownRows highRes scale]
  exact if_neg hscale

section Rows

variable {f : Frame} {n columns rows : Nat} {lit : Nat → Nat → Bool}

/-- All rows of a frame have its width. -/
theorem length_of_mem_stretch {row : List Bool}
    (hrow : row ∈ stretch n ((List.range rows).map fun y =>
      stretch n ((List.range columns).map fun x => lit x y))) : row.length = n * columns := by
  obtain ⟨shown, hshown, hcopy⟩ := List.mem_flatMap.mp hrow
  obtain ⟨y, -, rfl⟩ := List.mem_map.mp hshown
  rw [List.eq_of_mem_replicate hcopy, length_stretch, List.length_map, List.length_range]

/-- A pixel of a frame has the color of the one that it enlarges. -/
theorem colorAt?_of_rows (hrows : f.rows = stretch n ((List.range rows).map fun y =>
      stretch n ((List.range columns).map fun x => lit x y)))
    {x y : Nat} (hx : x < n * columns) (hy : y < n * rows) :
    f.colorAt? x y = some (color (lit (x / n) (y / n))) := by
  have hrow : f.rows[y]? = some (stretch n ((List.range columns).map fun x => lit x (y / n))) := by
    rw [hrows, getElem?_stretch_range _ hy]
  rw [colorAt?, hrow, Option.bind_some, getElem?_stretch_range _ hx, Option.map_some]

end Rows

/-- Low resolution shows the upper left quarter only. -/
theorem ofDisplay_congr {d e : Display}
    (h : ∀ x < displayWidth / 2, ∀ y < displayHeight / 2, e.lit x y = d.lit x y) (scale : Nat) :
    ofDisplay e false scale = ofDisplay d false scale := by
  have hrow (y : Nat) (hy : y < shownRows false) :
      (List.range (shownColumns false)).map (fun x => e.lit x y) =
        (List.range (shownColumns false)).map fun x => d.lit x y :=
    List.map_congr_left fun x hx => h x (List.mem_range.mp hx) y hy
  have hrows : (List.range (shownRows false)).map (fun y => stretch (factor false scale)
        ((List.range (shownColumns false)).map fun x => e.lit x y)) =
      (List.range (shownRows false)).map fun y => stretch (factor false scale)
        ((List.range (shownColumns false)).map fun x => d.lit x y) :=
    List.map_congr_left fun y hy => congrArg _ (hrow y (List.mem_range.mp hy))
  rw [ofDisplay_natCast, ofDisplay_natCast, hrows]

/-- A frame has one size in both resolutions. Each pixel of it is white or black as the pixel of the
display is lit or dark that is found by dividing by the scale, or by twice the scale in low
resolution. So pixels outside the upper left quarter do not matter there. -/
theorem ofDisplay_enlarges (d : Display) (highRes : Bool) (scale : Nat) :
    (∃ f, ofDisplay d highRes scale = .ok f ∧
      f.width = displayWidth * scale ∧ f.height = displayHeight * scale ∧
      f.rows.length = f.height ∧ (∀ row ∈ f.rows, row.length = f.width) ∧
      ∀ x < displayWidth * scale, ∀ y < displayHeight * scale,
        f.colorAt? x y = some (
          if highRes then if d.lit (x / scale) (y / scale) then .white else .black
          else if d.lit (x / (2 * scale)) (y / (2 * scale)) then .white else .black)) ∧
      ∀ e : Display, (∀ x < displayWidth / 2, ∀ y < displayHeight / 2, e.lit x y = d.lit x y) →
        ofDisplay e false scale = ofDisplay d false scale := by
  refine ⟨?_, fun e h => ofDisplay_congr h scale⟩
  have hcolumns := factor_mul_shownColumns highRes scale
  have hrows := factor_mul_shownRows highRes scale
  refine ⟨_, ofDisplay_natCast d highRes scale, rfl, rfl, ?_, ?_, ?_⟩
  · rw [length_stretch, List.length_map, List.length_range, hrows]
  · intro row hrow
    rw [length_of_mem_stretch hrow, hcolumns]
  · intro x hx y hy
    rw [← hcolumns] at hx
    rw [← hrows] at hy
    rw [colorAt?_of_rows rfl hx hy]
    cases highRes <;> rfl

/-- In low resolution at scale 2 a lit pixel is a square of side 4, and one outside the quarter that
is shown makes no difference. -/
theorem ofDisplay_enlarges_corner :
    let d := Display.blank.light 1 0
    let e := d.light 70 40
    (∃ f, ofDisplay d false (2 : Nat) = .ok f ∧ 7 < displayWidth * 2 ∧ 3 < displayHeight * 2 ∧
      f.colorAt? 7 3 = some .white ∧ f.colorAt? 8 3 = some .black) ∧
      (∀ x < displayWidth / 2, ∀ y < displayHeight / 2, e.lit x y = d.lit x y) ∧
      ofDisplay e false (2 : Nat) = ofDisplay d false (2 : Nat) := by
  intro d e
  obtain ⟨⟨f, hf, -, -, -, -, hcolor⟩, hquarter⟩ := ofDisplay_enlarges d false 2
  have hsame : ∀ x < displayWidth / 2, ∀ y < displayHeight / 2, e.lit x y = d.lit x y := by
    intro x _ y hy
    have hother : ¬(40 = y ∧ y < displayHeight) := fun h => absurd hy (h.1 ▸ by decide)
    change ((d.light 70 40).row y).getMsbD x = (d.row y).getMsbD x
    rw [Display.light, Display.row_setRow, if_neg hother]
  have hlit : d.lit (7 / (2 * 2)) (3 / (2 * 2)) = true := by decide
  have hdark : d.lit (8 / (2 * 2)) (3 / (2 * 2)) = false := by decide
  have hwhite := hcolor 7 (by decide) 3 (by decide)
  have hblack := hcolor 8 (by decide) 3 (by decide)
  rw [hlit] at hwhite
  rw [hdark] at hblack
  exact ⟨⟨f, hf, by decide, by decide, hwhite, hblack⟩, hsame, hquarter e hsame⟩

end Frame

end SuperChip
