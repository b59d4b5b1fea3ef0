import Mathlib.Data.List.Basic
import SuperChip.Proofs.Machine.Loading

/-!
# Sprites

A sprite is added to the display pixel by pixel, by exclusive or, and is cut off at the right and at
the bottom edge (`drawSprite_clips`). The rows are added one below the other, so each pixel is
touched once: in `lit_drawRows` and `hit_drawRows` the induction is on the rows, and a pixel in the
topmost lies in none of the others. What is drawn twice is gone.
-/

set_option autoImplicit false

namespace SuperChip

/-! ## Rows of pixels -/

namespace Display

variable {d : Display} {rows : List PixelRow} {px py : Nat}

/-- A pixel that is lit lies on the display. -/
theorem lt_of_lit (h : d.lit px py = true) : px < displayWidth ∧ py < displayHeight := by
  constructor
  · by_contra hout
    rw [lit, BitVec.getMsbD_of_ge _ _ (Nat.not_lt.mp hout)] at h
    cases h
  · by_contra hout
    rw [lit, row_eq_zero d (Nat.not_lt.mp hout), show (0 : PixelRow).getMsbD px = false from
      BitVec.getMsbD_zero] at h
    cases h

/-- No pixel of a blank display is lit. -/
@[simp] theorem lit_blank (px py : Nat) : blank.lit px py = false := by
  have hrow : blank.row py = 0 := by
    by_cases hpy : py < displayHeight
    · simp [blank, row, Vector.getD, hpy]
    · exact row_eq_zero blank (Nat.not_lt.mp hpy)
  rw [lit, hrow]
  exact BitVec.getMsbD_zero

/-- Displays with the same pixels are the same. -/
theorem eq_of_lit {d e : Display}
    (h : ∀ px < displayWidth, ∀ py < displayHeight, d.lit px py = e.lit px py) : d = e := by
  have hrows : d.rows = e.rows := by
    ext1 y hy
    refine BitVec.eq_of_getMsbD_eq fun x hx => ?_
    simpa [lit, row, Vector.getD, hy] using h x hx y hy
  cases d
  cases e
  exact congrArg _ hrows

/-- The pixel in column `px` of row `py`, where the uppermost of `rows` is row `y`. -/
def rowsPixel (y : Nat) (rows : List PixelRow) (px py : Nat) : Bool :=
  decide (y ≤ py) && (rows.getD (py - y) 0).getMsbD px

/-- Above the uppermost row there is no pixel. -/
theorem rowsPixel_of_lt {y : Nat} (h : py < y) : rowsPixel y rows px py = false := by
  simp [rowsPixel, Nat.not_le.mpr h]

/-- The topmost row covers one row of the display, and the rows below it cover others. -/
theorem rowsPixel_cons (y : Nat) (r : PixelRow) (rest : List PixelRow) (px py : Nat) :
    rowsPixel y (r :: rest) px py =
      if y = py then r.getMsbD px else rowsPixel (y + 1) rest px py := by
  rcases Nat.lt_trichotomy py y with hlt | rfl | hlt
  · have hne : y ≠ py := by omega
    have habove : ¬y + 1 ≤ py := by omega
    simp [rowsPixel, hne, habove, Nat.not_le.mpr hlt]
  · simp [rowsPixel]
  · obtain ⟨n, rfl⟩ := Nat.exists_eq_add_of_lt hlt
    have hfirst : y + n + 1 - y = n + 1 := by omega
    have hrest : y + n + 1 - (y + 1) = n := by omega
    have hbelow : y + 1 ≤ y + n + 1 := by omega
    simp [rowsPixel, Nat.ne_of_lt hlt, Nat.le_of_lt hlt, hfirst, hrest, hbelow]

/-- The pixels of a row of a sprite are its bits, cut off at the right edge. -/
theorem getMsbD_spriteRow {width : Nat} (hwidth : width ≤ displayWidth) (x bits i : Nat) :
    (spriteRow width x bits).getMsbD i =
      (decide (i < displayWidth ∧ x ≤ i ∧ i < x + width) &&
        bits.testBit (width - 1 - (i - x))) := by
  rw [spriteRow, BitVec.getMsbD_ushiftRight, BitVec.getMsbD_shiftLeft, BitVec.getMsbD_eq_getLsbD,
    BitVec.getLsbD_ofNat]
  by_cases hi : i < displayWidth ∧ x ≤ i ∧ i < x + width
  · obtain ⟨hlt, hx, hend⟩ := hi
    have hinside : i - x + (displayWidth - width) < displayWidth := by omega
    have hbit : displayWidth - 1 - (i - x + (displayWidth - width)) = width - 1 - (i - x) := by
      omega
    have hsmall : width - 1 - (i - x) < displayWidth := by omega
    simp [hlt, hx, hend, hinside, hbit, hsmall, Nat.not_lt.mpr hx]
  · have hout : ¬(i < displayWidth ∧ ¬i < x ∧ i - x + (displayWidth - width) < displayWidth) := by
      omega
    rw [decide_eq_false hi, Bool.false_and]
    by_contra hlit
    simp only [Bool.not_eq_false, Bool.and_eq_true, Bool.not_eq_true', decide_eq_true_eq,
      decide_eq_false_iff_not] at hlit
    exact hout ⟨hlit.1, hlit.2.1, hlit.2.2.1⟩

/-- The pixels of a row that is set. -/
theorem lit_setRow_self (d : Display) (r : PixelRow) (px : Nat) (hpy : py < displayHeight) :
    (d.setRow py r).lit px py = r.getMsbD px := by
  rw [lit, row_setRow, if_pos ⟨rfl, hpy⟩]

/-- Setting a row leaves the pixels of the others. -/
theorem lit_setRow_of_ne (d : Display) {y : Nat} (r : PixelRow) (px : Nat) (h : y ≠ py) :
    (d.setRow y r).lit px py = d.lit px py := by
  rw [lit, row_setRow, if_neg fun hy => h hy.1]
  rfl

/-- A pixel on the display is added to by the row that covers it. -/
theorem lit_drawRows (hit : Bool) (y : Nat) (px : Nat) (hpy : py < displayHeight) :
    (d.drawRows hit y rows).1.lit px py = (d.lit px py ^^ rowsPixel y rows px py) := by
  induction rows generalizing d hit y with
  | nil => simp [drawRows, rowsPixel]
  | cons r rest ih =>
    rw [drawRows, ih, rowsPixel_cons]
    split
    · next hy =>
      -- none of the rows below covers this one
      subst hy
      rw [lit_setRow_self d _ px hpy, rowsPixel_of_lt (Nat.lt_succ_self y), BitVec.getMsbD_xor,
        Bool.xor_false]
      rfl
    · next hy => rw [lit_setRow_of_ne d _ px hy]

/-- A row is not dark exactly if one of its pixels is lit. -/
theorem ne_zero_iff {r : PixelRow} : r ≠ 0 ↔ ∃ px, r.getMsbD px = true := by
  constructor
  · intro hne
    by_contra hdark
    refine hne (BitVec.eq_of_getMsbD_eq fun px _ => ?_)
    rw [Bool.eq_false_iff.mpr fun hlit => hdark ⟨px, hlit⟩]
    exact BitVec.getMsbD_zero.symm
  · rintro ⟨px, hlit⟩ rfl
    rw [show (0 : PixelRow).getMsbD px = false from BitVec.getMsbD_zero] at hlit
    cases hlit

/-- There is a hit when a pixel that was lit is in one of the rows. -/
theorem hit_drawRows (hit : Bool) (y : Nat) :
    (d.drawRows hit y rows).2 = true ↔
      hit = true ∨ ∃ px py, d.lit px py = true ∧ rowsPixel y rows px py = true := by
  induction rows generalizing d hit y with
  | nil => simp [drawRows, rowsPixel]
  | cons r rest ih =>
    have hfirst : (d.row y &&& r != 0) = true ↔
        ∃ px, d.lit px y = true ∧ rowsPixel y (r :: rest) px y = true := by
      simp only [bne_iff_ne, ne_zero_iff, BitVec.getMsbD_and, Bool.and_eq_true, rowsPixel_cons,
        if_true, lit]
    -- the rows below meet the display as it was
    have hrest : ∀ s px py, (d.setRow y s).lit px py = true ∧ rowsPixel (y + 1) rest px py = true ↔
        y ≠ py ∧ d.lit px py = true ∧ rowsPixel y (r :: rest) px py = true := by
      intro s px py
      by_cases hy : y = py
      · subst hy
        simp [rowsPixel_of_lt (Nat.lt_succ_self y)]
      · rw [lit_setRow_of_ne d s px hy, rowsPixel_cons, if_neg hy]
        exact (and_iff_right hy).symm
    rw [drawRows, ih, Bool.or_eq_true, hfirst, or_assoc]
    refine or_congr_right ?_
    simp only [hrest]
    constructor
    · rintro (⟨px, hlit, hpixel⟩ | ⟨px, py, -, hlit, hpixel⟩)
      · exact ⟨px, y, hlit, hpixel⟩
      · exact ⟨px, py, hlit, hpixel⟩
    · rintro ⟨px, py, hlit, hpixel⟩
      by_cases hy : y = py
      · exact .inl ⟨px, hy ▸ hlit, hy ▸ hpixel⟩
      · exact .inr ⟨px, py, hy, hlit, hpixel⟩

end Display

namespace Machine

variable {m : Machine} {x y height px py : Nat}

/-- How many pixels wide a sprite is. -/
def spriteWidth (height : Nat) : Nat := if height = 0 then 16 else 8

/-- How many rows a sprite has. -/
def spriteHeight (height : Nat) : Nat := if height = 0 then 16 else height

/-- A row of the sprite at the index register: its bytes, the first of them the most significant. -/
def spriteBits (m : Machine) (height row : Nat) : Nat :=
  let rowBytes := spriteWidth height / 8
  (List.range rowBytes).foldl
    (fun bits k => 0x100 * bits + m.byteAt (m.index + row * rowBytes + k)) 0

/-- Whether the sprite, its upper left corner in column `x` of row `y`, has a pixel in column `px`
of row `py`. -/
def spritePixel (m : Machine) (x y height px py : Nat) : Bool :=
  decide ((x ≤ px ∧ px < x + spriteWidth height) ∧ y ≤ py ∧ py < y + spriteHeight height) &&
    (m.spriteBits height (py - y)).testBit (spriteWidth height - 1 - (px - x))

/-- The rows of a sprite are its rows of bits. -/
theorem sprite_eq (m : Machine) (height : Nat) :
    m.sprite height = (List.range (spriteHeight height)).map (m.spriteBits height) := by
  unfold sprite spriteHeight
  split
  · next hzero =>
    refine List.map_congr_left fun row _ => ?_
    simp [spriteBits, spriteWidth, hzero, List.range_succ, Nat.mul_comm row 2]
  · next hbyte =>
    refine List.map_congr_left fun row _ => ?_
    simp [spriteBits, spriteWidth, hbyte, List.range_succ]

/-- The rows that are drawn hold the pixels of the sprite, but for those past the right edge. -/
theorem rowsPixel_sprite (m : Machine) (x y height py : Nat) (hpx : px < displayWidth) :
    Display.rowsPixel y ((m.sprite height).map (Display.spriteRow (spriteWidth height) x)) px py =
      m.spritePixel x y height px py := by
  have hwidth : spriteWidth height ≤ displayWidth := by
    unfold spriteWidth
    split <;> decide
  rw [Display.rowsPixel, spritePixel, sprite_eq, List.getD_eq_getElem?_getD, List.map_map,
    List.getElem?_map]
  by_cases hrow : py - y < spriteHeight height
  · have hinside : y ≤ py → py < y + spriteHeight height := by omega
    rw [List.getElem?_range hrow]
    by_cases hy : y ≤ py
    · simp [Display.getMsbD_spriteRow hwidth, hpx, hy, hinside hy]
    · simp [hy]
  · have hbelow : ¬(y ≤ py ∧ py < y + spriteHeight height) := by omega
    rw [List.getElem?_eq_none (by simpa using hrow)]
    simp [hbelow]

/-- What drawing the sprite makes of the display, pixel by pixel, and when it hits. -/
theorem exists_draw (m : Machine) (x y height : Nat) : ∃ (d : Display) (hit : Bool),
    m.display.draw x y (spriteWidth height) (m.sprite height) = (d, hit) ∧
      (∀ (px : Fin displayWidth) (py : Fin displayHeight),
        d.lit px py = (m.display.lit px py ^^ m.spritePixel x y height px py)) ∧
      (hit = true ↔ ∃ (px : Fin displayWidth) (py : Fin displayHeight),
        m.display.lit px py = true ∧ m.spritePixel x y height px py = true) := by
  refine ⟨_, _, rfl, fun px py => ?_, ?_⟩
  · rw [← rowsPixel_sprite m x y height py px.isLt]
    exact Display.lit_drawRows false y px py.isLt
  · refine (Display.hit_drawRows false y).trans ?_
    simp only [Bool.false_eq_true, false_or]
    constructor
    · rintro ⟨px, py, hlit, hpixel⟩
      obtain ⟨hpx, hpy⟩ := Display.lt_of_lit hlit
      exact ⟨⟨px, hpx⟩, ⟨py, hpy⟩, hlit, rowsPixel_sprite m x y height py hpx ▸ hpixel⟩
    · rintro ⟨px, py, hlit, hpixel⟩
      exact ⟨px, py, hlit, (rowsPixel_sprite m x y height py px.isLt).trans hpixel⟩

/-- The machine after a sprite is drawn, by what drawing makes of the display. -/
theorem drawSprite_of_draw {d : Display} {hit : Bool}
    (h : m.display.draw x y (spriteWidth height) (m.sprite height) = (d, hit)) :
    m.drawSprite x y height = (m.present d).setReg flagRegister hit.toNat := by
  rw [spriteWidth] at h
  rw [drawSprite, h]

/-- Where memory is as long as the address space, an instruction draws the sprite as `draw` does. -/
theorem effect_drawSprite_of_draw {d : Display} {hit : Bool} (hm : memorySize ≤ m.memory.size)
    (h : m.display.draw x y (spriteWidth height) (m.sprite height) = (d, hit)) :
    Effect.drawSprite x y height m = .ok hit (m.present d) := by
  rw [spriteWidth] at h
  rw [Effect.drawSprite_eq hm, h]

/-- A sprite is added to the display by exclusive or, pixel by pixel where it lies on the display,
and the flag register tells whether a pixel went out. Nothing else changes but that a refresh is
due. So the sprite drawn a second time restores the display, and then the flag register tells
whether the sprite has a pixel on the display that was not lit at first. Where memory is as long as
the address space, drawing it does this without a fault. -/
theorem drawSprite_clips (m : Machine) (x y height : Nat) : ∃ (d : Display) (hit again : Bool),
    (memorySize ≤ m.memory.size → Effect.drawSprite x y height m = .ok hit (m.present d) ∧
      Effect.drawSprite x y height (m.present d) = .ok again (m.present m.display)) ∧
    m.drawSprite x y height = (m.present d).setReg flagRegister hit.toNat ∧
      (∀ (px : Fin displayWidth) (py : Fin displayHeight),
        d.lit px py = (m.display.lit px py ^^ m.spritePixel x y height px py)) ∧
      (hit = true ↔ ∃ (px : Fin displayWidth) (py : Fin displayHeight),
        m.display.lit px py = true ∧ d.lit px py = false) ∧
      (m.drawSprite x y height).drawSprite x y height =
        (m.present m.display).setReg flagRegister again.toNat ∧
      (again = true ↔ ∃ (px : Fin displayWidth) (py : Fin displayHeight),
        m.spritePixel x y height px py = true ∧ m.display.lit px py = false) := by
  obtain ⟨d, hit, hfirst, hlit, hhit⟩ := m.exists_draw x y height
  obtain ⟨d', again, hsecond, hlit', hagain⟩ := (m.present d).exists_draw x y height
  -- the first draw leaves the sprite as it was
  have hsame : ∀ px py, (m.present d).spritePixel x y height px py =
      m.spritePixel x y height px py := fun _ _ => rfl
  have hdisplay : (m.present d).display = d := rfl
  simp only [hsame, hdisplay, hlit] at hlit' hagain
  have hrestored : d' = m.display := Display.eq_of_lit fun px hpx py hpy => by
    simpa using hlit' ⟨px, hpx⟩ ⟨py, hpy⟩
  rw [hrestored] at hsecond
  have hdrawn := drawSprite_of_draw hfirst
  refine ⟨d, hit, again, fun hm => ⟨effect_drawSprite_of_draw hm hfirst,
    effect_drawSprite_of_draw (m := m.present d) hm hsecond⟩, hdrawn, hlit, hhit.trans ?_, ?_,
    hagain.trans ?_⟩
  · refine exists_congr fun px => exists_congr fun py => and_congr_right fun hbefore => ?_
    rw [hlit, hbefore, Bool.true_xor, Bool.not_eq_false']
  · have hagain : (m.drawSprite x y height).display.draw x y (spriteWidth height)
        ((m.drawSprite x y height).sprite height) = (m.display, again) := by
      rw [hdrawn]
      exact hsecond
    rw [drawSprite_of_draw hagain, hdrawn]
    simp [setReg, present]
  · refine exists_congr fun px => exists_congr fun py => ?_
    cases m.display.lit px py <;> cases m.spritePixel x y height px py <;> simp

/-- The first digit of the font, drawn on a blank display, hits nothing. -/
theorem drawSprite_clips_digit : memorySize ≤ (powerOn 0).memory.size ∧
    ∃ d : Display, Effect.drawSprite 0 0 5 (powerOn 0) = .ok false ((powerOn 0).present d) ∧
      ∀ (px : Fin displayWidth) (py : Fin displayHeight),
        d.lit px py = ((powerOn 0).display.lit px py ^^ (powerOn 0).spritePixel 0 0 5 px py) := by
  have hmemory : memorySize ≤ (powerOn 0).memory.size := Nat.le_of_eq size_bareMemory.symm
  obtain ⟨d, hit, again, heffect, -, hlit, hhit, -⟩ := drawSprite_clips (powerOn 0) 0 0 5
  have hdark : hit = false := by
    refine Bool.eq_false_iff.mpr fun htrue => ?_
    obtain ⟨px, py, hbefore, -⟩ := hhit.mp htrue
    exact absurd hbefore (Bool.eq_false_iff.mp (Display.lit_blank px py))
  exact ⟨hmemory, d, hdark ▸ (heffect hmemory).1, hlit⟩

end Machine
end SuperChip
