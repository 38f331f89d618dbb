/-
  Where the console writes.

  `Seated` is the invariant: the region lies in the target, the cursor stands on a column of
  cells and its cell lies in the region. Every character keeps it and changes pixels of the
  region only (`consolePutc_confined`), so a console whose region was accepted never leaves it
  (`console_output_confined`). The sums of the cursor with a cell are taken in 32 bits, and
  `roomX` and `roomY` say that none of them wraps around.
-/
import ArgusOs.Console.Model

namespace ArgusOs.Console

open Lib Display

variable {k k' : State} {p : Picture} {height width x y : UInt32}

/-! ## Glyphs -/

/-- Only the target changed, and it shows the picture. -/
def Draws (k k' : State) (p : Picture) : Prop :=
  ∃ t h, k' = { k with target := t, usable := h } ∧ Paints k.target t p

theorem Draws.congr {q : Picture} (h : Draws k k' p)
    (hpq : ∀ x < k.target.width.toNat, ∀ y, p x y = q x y) : Draws k k' q := by
  obtain ⟨t, ht, rfl, hp⟩ := h
  exact ⟨t, ht, rfl, hp.congr hpq⟩

theorem State.fillRect_draws (h : k.target.Drawable) (r : Rect) (color : UInt32) :
    Draws k (k.fillRect r.x r.y r.width r.height color)
      (fillArea r k.target.width k.target.height color k.target.picture) :=
  ⟨_, _, rfl, Target.fillRect_paints h r color⟩

theorem State.scrollRectUp_draws (h : k.target.Drawable) (r : Rect) (pixels fillColor : UInt32) :
    Draws k (k.scrollRectUp r.x r.y r.width r.height pixels fillColor)
      (scrollAreaUp r k.target.width k.target.height pixels fillColor k.target.picture) :=
  ⟨_, _, rfl, Target.scrollRectUp_paints h r pixels fillColor⟩

theorem State.cell_cases (h : k.framebufferMode = true) :
    (k.scale.toNat = 1 ∧ k.cellW.toNat = 6 ∧ k.cellH.toNat = 9) ∨
      (k.scale.toNat = 2 ∧ k.cellW.toNat = 12 ∧ k.cellH.toNat = 18) := by
  obtain ⟨hscale | hscale, hw, hh⟩ := k.scaled h
  · exact .inl (by rw [hw, hh, hscale]; decide)
  · exact .inr (by rw [hw, hh, hscale]; decide)

/-- The font has a dot in this column and row of the character. -/
def dot (c : UInt8) (col row : Nat) : Prop :=
  (col < 5 ∧ row < 7) ∧ (font5x7Row c row).toNat.testBit (4 - col) = true

instance (c : UInt8) (col row : Nat) : Decidable (dot c col row) :=
  inferInstanceAs (Decidable (_ ∧ _))

def State.cellAt (k : State) (x y : UInt32) : Rect := ⟨x, y, k.cellW, k.cellH⟩

/-- The picture with the dots of a glyph that satisfy a condition in the cell at `(x, y)`. -/
def dotArea (k : State) (c : UInt8) (x y : UInt32) (drawn : Nat → Nat → Prop)
    [∀ i j, Decidable (drawn i j)] (p : Picture) : Picture := fun px py =>
  if (k.cellAt x y).Covers px py then
    let col := (px - x.toNat) / k.scale.toNat
    let row := (py - y.toNat) / k.scale.toNat
    if dot c col row ∧ drawn col row then k.fg else k.bg
  else p px py

/-- The picture with the glyph of a character in the cell at `(x, y)`. -/
def glyphArea (k : State) (c : UInt8) (x y : UInt32) (p : Picture) : Picture :=
  dotArea k c x y (fun _ _ => True) p

theorem dotArea_congr {c : UInt8} {drawn drawn' : Nat → Nat → Prop} [∀ i j, Decidable (drawn i j)]
    [∀ i j, Decidable (drawn' i j)] (h : ∀ i j, dot c i j → (drawn i j ↔ drawn' i j)) (p : Picture)
    (px py : Nat) : dotArea k c x y drawn p px py = dotArea k c x y drawn' p px py := by
  unfold dotArea
  refine ite_congr rfl (fun _ => ?_) fun _ => rfl
  exact if_congr (and_congr_right fun hdot => h _ _ hdot) rfl rfl

/-- The square of one dot, by columns and rows of dots. -/
theorem square_clipped (hmode : k.framebufferMode = true) (hr : (k.cellAt x y).Within width height)
    {i j : Nat} (hi : i < 5) (hj : j < 7) (px py : Nat) :
    Rect.Clipped ⟨x + UInt32.ofNat i * k.scale, y + UInt32.ofNat j * k.scale, k.scale, k.scale⟩
        width height px py ↔
      (k.cellAt x y).Covers px py ∧ (px - x.toNat) / k.scale.toNat = i ∧
        (py - y.toNat) / k.scale.toNat = j := by
  have hofNat : ∀ n < 7, (UInt32.ofNat n).toNat = n := fun n hn => by
    rw [UInt32.toNat_ofNat', Nat.mod_eq_of_lt (by omega)]
  have hwidth := width.toNat_lt
  have hheight := height.toNat_lt
  simp only [Rect.Within, Rect.Clipped, Rect.Covers, State.cellAt, UInt32.toNat_add,
    UInt32.toNat_mul, hofNat i (by omega), hofNat j hj] at hr ⊢
  rcases k.cell_cases hmode with ⟨hs, hw, hh⟩ | ⟨hs, hw, hh⟩ <;>
    simp only [hs, hw, hh] at hr ⊢ <;> omega

theorem dotArea_next (hmode : k.framebufferMode = true) (hr : (k.cellAt x y).Within width height)
    {c : UInt8} {i j : Nat} (hi : i < 5) (hj : j < 7) (p : Picture) (px py : Nat) :
    dotArea k c x y (fun i' j' => j' < j ∨ j' = j ∧ i' < i + 1) p px py =
      if (font5x7Row c j).toNat.testBit (4 - i) then
        fillArea ⟨x + UInt32.ofNat i * k.scale, y + UInt32.ofNat j * k.scale, k.scale, k.scale⟩
          width height k.fg
          (dotArea k c x y (fun i' j' => j' < j ∨ j' = j ∧ i' < i) p) px py
      else dotArea k c x y (fun i' j' => j' < j ∨ j' = j ∧ i' < i) p px py := by
  simp only [fillArea, square_clipped hmode hr hi hj, dotArea]
  by_cases hcell : (k.cellAt x y).Covers px py
  · generalize (px - x.toNat) / k.scale.toNat = col
    generalize (py - y.toNat) / k.scale.toNat = row
    by_cases hthis : col = i ∧ row = j
    · obtain ⟨rfl, rfl⟩ := hthis
      simp [hcell, dot, hi, hj]
    · have hsame : (row < j ∨ row = j ∧ col < i + 1) ↔ (row < j ∨ row = j ∧ col < i) := by omega
      simp only [hcell, hthis, hsame, and_false, if_true, if_false, ite_self]
  · simp [hcell]

theorem drawGlyph_draws (hmode : k.framebufferMode = true) (hd : k.target.Drawable)
    (hr : (k.cellAt x y).Within k.target.width k.target.height) (c : UInt8) :
    Draws k (drawGlyph k c x y) (glyphArea k c x y k.target.picture) := by
  have hrun : Draws k (drawGlyph k c x y)
      (dotArea k c x y (fun i j => j < 7 ∨ j = 7 ∧ i < 0) k.target.picture) := by
    refine sweep_progress (fun j i k' => Draws k k'
      (dotArea k c x y (fun i' j' => j' < j ∨ j' = j ∧ i' < i) k.target.picture)) ?_ ?_ ?_
    · apply (k.fillRect_draws hd (k.cellAt x y) k.bg).congr
      intro px _ py
      simp [fillArea, Rect.clipped_of_within hr, dotArea]
    · rintro j hj i hi _ ⟨t, ht, rfl, hp⟩
      have hnext := dotArea_next hmode hr (c := c) hi hj k.target.picture
      refine Draws.congr ?_ fun px _ py => (hnext px py).symm
      split
      · have hfill := Target.fillRect_paints hp.drawable
          ⟨x + UInt32.ofNat i * k.scale, y + UInt32.ofNat j * k.scale, k.scale, k.scale⟩ k.fg
        refine ⟨_, _, rfl, (hp.trans hfill).congr ?_⟩
        intro px hpx py
        simp only [fillArea, hp.width, hp.height, hp.shows px hpx py]
      · exact ⟨t, ht, rfl, hp⟩
    · intro j _ k' hk'
      apply hk'.congr
      intro px _ py
      apply dotArea_congr
      intro i' j' hdot
      have := hdot.1.1
      omega
  apply hrun.congr
  intro px _ py
  apply dotArea_congr
  intro i j hdot
  exact ⟨fun _ => trivial, fun _ => .inl hdot.1.2⟩

/-! ## The cursor and its region -/

def State.region (k : State) : Rect := ⟨k.regionX, k.regionY, k.regionW, k.regionH⟩

/-- The region lies in the target, and its ends leave room for the sums with a cell. -/
structure Fits (k : State) : Prop where
  mode : k.framebufferMode = true
  drawable : k.target.Drawable
  inside : k.region.Within k.target.width k.target.height
  roomX : k.regionX.toNat + k.regionW.toNat + k.cellW.toNat < 2 ^ 32
  roomY : k.regionY.toNat + k.regionH.toNat + k.cellH.toNat < 2 ^ 32

/-- The point is the corner of a cell of the region, in a column of cells; in a region of whole
    rows of cells it is in such a row as well. -/
structure OnGrid (k : State) (x y : Nat) : Prop where
  left : k.regionX.toNat ≤ x
  right : x + k.cellW.toNat ≤ k.regionX.toNat + k.regionW.toNat
  top : k.regionY.toNat ≤ y
  bottom : y + k.cellH.toNat ≤ k.regionY.toNat + k.regionH.toNat
  column : (x - k.regionX.toNat) % k.cellW.toNat = 0
  row : k.regionH.toNat % k.cellH.toNat = 0 → (y - k.regionY.toNat) % k.cellH.toNat = 0

structure Seated (k : State) : Prop where
  fits : Fits k
  cursor : OnGrid k k.cursorX.toNat k.cursorY.toNat

theorem Fits.moveTo (h : Fits k) (x y : UInt32) : Fits (k.moveTo x y) :=
  ⟨h.mode, h.drawable, h.inside, h.roomX, h.roomY⟩

theorem Seated.moveTo (h : Fits k) (hxy : OnGrid k x.toNat y.toNat) : Seated (k.moveTo x y) :=
  ⟨h.moveTo x y, ⟨hxy.left, hxy.right, hxy.top, hxy.bottom, hxy.column, hxy.row⟩⟩

theorem Seated.draws (h : Seated k) (hd : Draws k k' p) : Seated k' := by
  obtain ⟨t, ht, rfl, hp⟩ := hd
  obtain ⟨⟨hmode, -, hin, hx, hy⟩, hc⟩ := h
  exact ⟨⟨hmode, hp.drawable, hp.within hin, hx, hy⟩,
    ⟨hc.left, hc.right, hc.top, hc.bottom, hc.column, hc.row⟩⟩

theorem Seated.cell_within (h : Seated k) :
    (k.cellAt k.cursorX k.cursorY).Within k.target.width k.target.height :=
  ⟨h.cursor.right.trans h.fits.inside.1, h.cursor.bottom.trans h.fits.inside.2⟩

theorem Fits.beyond (h : Fits k) (hx : x.toNat ≤ k.regionX.toNat + k.regionW.toNat) :
    x + k.cellW > k.regionX + k.regionW ↔
      k.regionX.toNat + k.regionW.toNat < x.toNat + k.cellW.toNat := by
  have hroom := h.roomX
  rw [gt_iff_lt, UInt32.lt_iff_toNat_lt, UInt32.toNat_add, UInt32.toNat_add]
  omega

theorem Fits.below (h : Fits k) (hy : y.toNat ≤ k.regionY.toNat + k.regionH.toNat) :
    y + k.cellH > k.regionY + k.regionH ↔
      k.regionY.toNat + k.regionH.toNat < y.toNat + k.cellH.toNat := by
  have hroom := h.roomY
  rw [gt_iff_lt, UInt32.lt_iff_toNat_lt, UInt32.toNat_add, UInt32.toNat_add]
  omega

theorem Seated.next_toNat (h : Seated k) :
    (k.cursorX + k.cellW).toNat = k.cursorX.toNat + k.cellW.toNat ∧
      (k.cursorY + k.cellH).toNat = k.cursorY.toNat + k.cellH.toNat := by
  have hx := h.fits.roomX
  have hy := h.fits.roomY
  have hright := h.cursor.right
  have hbottom := h.cursor.bottom
  rw [UInt32.toNat_add, UInt32.toNat_add]
  omega

theorem ensureCursorVisible_self (h : Seated k) : ensureCursorVisible k = k := by
  have hright := h.cursor.right
  have hbottom := h.cursor.bottom
  unfold ensureCursorVisible
  rw [if_neg (by rw [h.fits.beyond (by omega)]; omega)]
  exact if_neg (by rw [h.fits.below (by omega)]; omega)

/-- The region scrolled by one row of cells. -/
def State.scrolled (k : State) : State :=
  k.scrollRectUp k.regionX k.regionY k.regionW k.regionH k.cellH k.bg

theorem ensureRowVisible_moveTo (k : State) (x y : UInt32) :
    ensureRowVisible (k.moveTo x y) =
      if y + k.cellH > k.regionY + k.regionH then
        k.scrolled.moveTo x (k.regionY + k.regionH - k.cellH)
      else k.moveTo x y := rfl

theorem ensureCursorVisible_moveTo (k : State) (x y : UInt32) :
    ensureCursorVisible (k.moveTo x y) =
      if x + k.cellW > k.regionX + k.regionW then
        ensureRowVisible (k.moveTo k.regionX (y + k.cellH))
      else ensureRowVisible (k.moveTo x y) := by
  show ensureRowVisible (if x + k.cellW > k.regionX + k.regionW then _ else _) = _
  split <;> rfl

section

variable (h : Seated k)

include h

/-- A new line is the next row of cells, or the last one after scrolling. -/
theorem newLine_eq :
    ensureRowVisible (k.moveTo k.regionX (k.cursorY + k.cellH)) =
      if k.cursorY.toNat + 2 * k.cellH.toNat ≤ k.regionY.toNat + k.regionH.toNat then
        k.moveTo k.regionX (k.cursorY + k.cellH)
      else k.scrolled.moveTo k.regionX (k.regionY + k.regionH - k.cellH) := by
  have hbottom := h.cursor.bottom
  have hnext := h.next_toNat.2
  have hrow : k.cursorY + k.cellH + k.cellH > k.regionY + k.regionH ↔
      ¬k.cursorY.toNat + 2 * k.cellH.toNat ≤ k.regionY.toNat + k.regionH.toNat := by
    rw [h.fits.below (by omega), hnext]
    omega
  rw [ensureRowVisible_moveTo, if_congr hrow rfl rfl, ite_not]

theorem ensureCursorVisible_first (y : UInt32) :
    ensureCursorVisible (k.moveTo k.regionX y) = ensureRowVisible (k.moveTo k.regionX y) := by
  have hleft := h.cursor.left
  have hright := h.cursor.right
  rw [ensureCursorVisible_moveTo, if_neg]
  rw [h.fits.beyond (by omega)]
  omega

/-- After a glyph the cursor is in the next column, or in a new line. -/
theorem advance_eq :
    ensureCursorVisible (k.moveTo (k.cursorX + k.cellW) k.cursorY) =
      if k.cursorX.toNat + 2 * k.cellW.toNat ≤ k.regionX.toNat + k.regionW.toNat then
        k.moveTo (k.cursorX + k.cellW) k.cursorY
      else ensureRowVisible (k.moveTo k.regionX (k.cursorY + k.cellH)) := by
  have hright := h.cursor.right
  have hbottom := h.cursor.bottom
  have hnext := h.next_toNat.1
  have hcolumn : k.cursorX + k.cellW + k.cellW > k.regionX + k.regionW ↔
      ¬k.cursorX.toNat + 2 * k.cellW.toNat ≤ k.regionX.toNat + k.regionW.toNat := by
    rw [h.fits.beyond (by omega), hnext]
    omega
  have hrow : ¬k.cursorY + k.cellH > k.regionY + k.regionH := by
    rw [h.fits.below (by omega)]
    omega
  rw [ensureCursorVisible_moveTo, if_congr hcolumn rfl rfl, ite_not,
    ensureRowVisible_moveTo k _ k.cursorY, if_neg hrow]

theorem Seated.next
    (hfit : k.cursorX.toNat + 2 * k.cellW.toNat ≤ k.regionX.toNat + k.regionW.toNat) :
    OnGrid k (k.cursorX + k.cellW).toNat k.cursorY.toNat := by
  rw [h.next_toNat.1]
  obtain ⟨hl, hr, ht, hb, hc, hrow⟩ := h.cursor
  refine ⟨by omega, by omega, ht, hb, ?_, hrow⟩
  rw [Nat.sub_add_comm hl, Nat.add_mod_right, hc]

theorem Seated.lineStart : OnGrid k k.regionX.toNat k.cursorY.toNat := by
  obtain ⟨hl, hr, ht, hb, hc, hrow⟩ := h.cursor
  exact ⟨Nat.le_refl _, by omega, ht, hb, by rw [Nat.sub_self, Nat.zero_mod], hrow⟩

theorem Seated.down
    (hfit : k.cursorY.toNat + 2 * k.cellH.toNat ≤ k.regionY.toNat + k.regionH.toNat) :
    OnGrid k k.regionX.toNat (k.cursorY + k.cellH).toNat := by
  rw [h.next_toNat.2]
  obtain ⟨hl, hr, ht, hb, hc, hrow⟩ := h.lineStart
  refine ⟨hl, hr, by omega, by omega, hc, fun hrows => ?_⟩
  rw [Nat.sub_add_comm ht, Nat.add_mod_right, hrow hrows]

theorem Seated.last_toNat : (k.regionY + k.regionH - k.cellH).toNat =
    k.regionY.toNat + k.regionH.toNat - k.cellH.toNat := by
  have hroom := h.fits.roomY
  have ht := h.cursor.top
  have hb := h.cursor.bottom
  have hsum : (k.regionY + k.regionH).toNat = k.regionY.toNat + k.regionH.toNat := by
    rw [UInt32.toNat_add, Nat.mod_eq_of_lt (by omega)]
  rw [toNat_sub32 (by omega), hsum]

theorem Seated.last : OnGrid k k.regionX.toNat (k.regionY + k.regionH - k.cellH).toNat := by
  rw [h.last_toNat]
  obtain ⟨hl, hr, ht, hb, hc, -⟩ := h.lineStart
  refine ⟨hl, hr, by omega, by omega, hc, fun hrows => ?_⟩
  rw [show k.regionY.toNat + k.regionH.toNat - k.cellH.toNat - k.regionY.toNat =
    k.regionH.toNat - k.cellH.toNat by omega, ← Nat.mod_eq_sub_mod (by omega), hrows]

end

theorem Fits.sum_le_iff (h : Fits k) (x y : UInt32) :
    (x ≥ k.regionX + k.cellW ↔ k.regionX.toNat + k.cellW.toNat ≤ x.toNat) ∧
      (y ≥ k.regionY + k.cellH ↔ k.regionY.toNat + k.cellH.toNat ≤ y.toNat) := by
  have hx := h.roomX
  have hy := h.roomY
  rw [ge_iff_le, ge_iff_le, UInt32.le_iff_toNat_le, UInt32.le_iff_toNat_le, UInt32.toNat_add,
    UInt32.toNat_add, Nat.mod_eq_of_lt (by omega), Nat.mod_eq_of_lt (by omega)]
  exact ⟨.rfl, .rfl⟩

/-- The last column of cells, as backspace computes it. -/
theorem Seated.lastColumn (h : Seated k) :
    k.regionX + k.regionW / k.cellW * k.cellW ≥ k.regionX + k.cellW ∧
      1 * k.cellW.toNat ≤ k.regionW.toNat / k.cellW.toNat * k.cellW.toNat ∧
      (k.regionX + k.regionW / k.cellW * k.cellW - k.cellW).toNat + k.cellW.toNat =
        k.regionX.toNat + k.regionW.toNat / k.cellW.toNat * k.cellW.toNat := by
  obtain ⟨hl, hr, ht, hb, -, -⟩ := h.cursor
  have hroom := h.fits.roomX
  have hpos : 0 < k.cellW.toNat := by
    rcases k.cell_cases h.fits.mode with ⟨-, hw, -⟩ | ⟨-, hw, -⟩ <;> omega
  have hwhole := Nat.div_mul_le_self k.regionW.toNat k.cellW.toNat
  have hone : 1 * k.cellW.toNat ≤ k.regionW.toNat / k.cellW.toNat * k.cellW.toNat :=
    Nat.mul_le_mul_right _ (Nat.div_pos (by omega) hpos)
  have hsum : (k.regionX + k.regionW / k.cellW * k.cellW).toNat =
      k.regionX.toNat + k.regionW.toNat / k.cellW.toNat * k.cellW.toNat := by
    rw [UInt32.toNat_add, UInt32.toNat_mul, UInt32.toNat_div,
      Nat.mod_eq_of_lt (show k.regionW.toNat / k.cellW.toNat * k.cellW.toNat < 2 ^ 32 by omega),
      Nat.mod_eq_of_lt (by omega)]
  refine ⟨((h.fits.sum_le_iff _ 0).1).mpr (by omega), hone, ?_⟩
  rw [toNat_sub32 (by omega), hsum]
  omega

/-- Backspace moves one column back, or to the last column of the line above, or nowhere. -/
theorem stepBack_eq (h : Seated k) :
    stepBack k =
      if k.regionX.toNat + k.cellW.toNat ≤ k.cursorX.toNat then
        k.moveTo (k.cursorX - k.cellW) k.cursorY
      else if k.regionY.toNat + k.cellH.toNat ≤ k.cursorY.toNat then
        k.moveTo (k.regionX + k.regionW / k.cellW * k.cellW - k.cellW) (k.cursorY - k.cellH)
      else k := by
  obtain ⟨hx, hy⟩ := h.fits.sum_le_iff k.cursorX k.cursorY
  unfold stepBack
  rw [if_congr hx rfl (if_congr hy rfl rfl)]
  dsimp only
  rw [if_pos h.lastColumn.1]

/-- One column back, where there is one. -/
theorem Seated.back (h : Seated k) (hx : k.regionX.toNat + k.cellW.toNat ≤ k.cursorX.toNat) :
    OnGrid k (k.cursorX - k.cellW).toNat k.cursorY.toNat := by
  rw [toNat_sub32 (by omega)]
  obtain ⟨hl, hr, ht, hb, hc, hrow⟩ := h.cursor
  refine ⟨by omega, by omega, ht, hb, ?_, hrow⟩
  rw [show k.cursorX.toNat - k.cellW.toNat - k.regionX.toNat =
    k.cursorX.toNat - k.regionX.toNat - k.cellW.toNat by omega,
    ← Nat.mod_eq_sub_mod (by omega), hc]

/-- The end of the line above, where there is one. -/
theorem Seated.up (h : Seated k) (hy : k.regionY.toNat + k.cellH.toNat ≤ k.cursorY.toNat) :
    OnGrid k (k.regionX + k.regionW / k.cellW * k.cellW - k.cellW).toNat
      (k.cursorY - k.cellH).toNat := by
  obtain ⟨-, hone, hcolumn⟩ := h.lastColumn
  rw [UInt32.toNat_sub_of_le k.cursorY _ (by rw [UInt32.le_iff_toNat_le]; omega)]
  obtain ⟨hl, hr, ht, hb, hc, hrow⟩ := h.cursor
  have hwhole := Nat.div_mul_le_self k.regionW.toNat k.cellW.toNat
  refine ⟨by omega, by omega, by omega, by omega, ?_, fun hrows => ?_⟩
  · rw [show (k.regionX + k.regionW / k.cellW * k.cellW - k.cellW).toNat - k.regionX.toNat =
      k.regionW.toNat / k.cellW.toNat * k.cellW.toNat - 1 * k.cellW.toNat by omega,
      ← Nat.sub_mul, Nat.mul_mod_left]
  · rw [show k.cursorY.toNat - k.cellH.toNat - k.regionY.toNat =
      k.cursorY.toNat - k.regionY.toNat - k.cellH.toNat by omega,
      ← Nat.mod_eq_sub_mod (by omega), hrow hrows]

/-! ## Every character stays in the region -/

/-- From one state to another the region is the same, the cursor stands in it, and the target
    shows the same outside of it. -/
structure Confined (k k' : State) : Prop where
  seated : Seated k'
  region : k'.region = k.region
  width : k'.target.width = k.target.width
  outside : ∀ x < k.target.width.toNat, ∀ y, ¬k.region.Covers x y →
    k'.target.picture x y = k.target.picture x y

theorem Confined.refl (h : Seated k) : Confined k k :=
  ⟨h, rfl, rfl, fun _ _ _ _ => rfl⟩

theorem Confined.trans {k'' : State} (h : Confined k k') (h' : Confined k' k'') : Confined k k'' :=
  ⟨h'.seated, h'.region.trans h.region, h'.width.trans h.width, fun x hx y hout =>
    (h'.outside x (by rwa [h.width]) y (by rwa [h.region])).trans (h.outside x hx y hout)⟩

section

variable (h : Seated k)

include h

theorem Seated.confined_moveTo (hxy : OnGrid k x.toNat y.toNat) :
    Confined k (k.moveTo x y) := ⟨.moveTo h.fits hxy, rfl, rfl, fun _ _ _ _ => rfl⟩

theorem Seated.confined_draws (hd : Draws k k' p)
    (hp : ∀ x y, ¬k.region.Covers x y → p x y = k.target.picture x y) : Confined k k' := by
  have hseated := h.draws hd
  obtain ⟨t, ht, rfl, hpaints⟩ := hd
  exact ⟨hseated, rfl, hpaints.width, fun x hx y hout => (hpaints.shows x hx y).trans (hp x y hout)⟩

theorem Seated.cell_covers {x y : Nat} (hcov : (k.cellAt k.cursorX k.cursorY).Covers x y) :
    k.region.Covers x y := by
  obtain ⟨hl, hr, ht, hb, -, -⟩ := h.cursor
  simp only [Rect.Covers, State.cellAt, State.region] at hcov ⊢
  omega

theorem Seated.fillCell (color : UInt32) :
    Confined k (k.fillRect k.cursorX k.cursorY k.cellW k.cellH color) := by
  apply h.confined_draws (k.fillRect_draws h.fits.drawable (k.cellAt k.cursorX k.cursorY) color)
  intro x y hout
  exact if_neg fun hin => hout (h.cell_covers hin.1)

theorem Seated.drawGlyph (c : UInt8) : Confined k (drawGlyph k c k.cursorX k.cursorY) := by
  apply h.confined_draws (drawGlyph_draws h.fits.mode h.fits.drawable h.cell_within c)
  intro x y hout
  exact if_neg fun hin => hout (h.cell_covers hin)

theorem Seated.scrolled : Confined k k.scrolled := by
  apply h.confined_draws (k.scrollRectUp_draws h.fits.drawable k.region k.cellH k.bg)
  intro x y hout
  exact if_neg fun hin => hout hin.1

theorem Seated.newLine :
    Confined k (ensureRowVisible (k.moveTo k.regionX (k.cursorY + k.cellH))) := by
  rw [newLine_eq h]
  split_ifs with hfit
  · exact h.confined_moveTo (h.down hfit)
  · exact h.scrolled.trans (h.scrolled.seated.confined_moveTo h.scrolled.seated.last)

theorem Seated.advance :
    Confined k (ensureCursorVisible (k.moveTo (k.cursorX + k.cellW) k.cursorY)) := by
  rw [advance_eq h]
  split_ifs with hfit
  · exact h.confined_moveTo (h.next hfit)
  · exact h.newLine

theorem printGlyph_eq (c : UInt8) :
    printGlyph k c = ensureCursorVisible ((drawGlyph k c k.cursorX k.cursorY).moveTo
      ((drawGlyph k c k.cursorX k.cursorY).cursorX + (drawGlyph k c k.cursorX k.cursorY).cellW)
      (drawGlyph k c k.cursorX k.cursorY).cursorY) := by
  unfold printGlyph
  rw [ensureCursorVisible_self h]

theorem printGlyph_confined (c : UInt8) : Confined k (printGlyph k c) := by
  rw [printGlyph_eq h]
  exact (h.drawGlyph c).trans (h.drawGlyph c).seated.advance

theorem stepBack_confined : Confined k (stepBack k) := by
  rw [stepBack_eq h]
  split_ifs with hx hy
  · exact h.confined_moveTo (h.back hx)
  · exact h.confined_moveTo (h.up hy)
  · exact .refl h

theorem consolePutc_confined (c : UInt8) : Confined k (consolePutc k c) := by
  unfold consolePutc
  split_ifs with hmode
  · exact absurd h.fits.mode (by simp [hmode])
  · exact h.confined_moveTo h.lineStart
  · rw [ensureCursorVisible_first h]
    exact h.newLine
  · apply foldl_range_invariant (Confined k) (.refl h)
    intro _ _ k' hk'
    exact hk'.trans (printGlyph_confined hk'.seated 32)
  · exact (stepBack_confined h).trans ((stepBack_confined h).seated.fillCell _)
  · exact printGlyph_confined h c

theorem consoleWrite_confined (text : List UInt8) : Confined k (consoleWrite k text) := by
  induction text generalizing k with
  | nil => exact .refl h
  | cons c text ih =>
    have hone := consolePutc_confined h c
    exact hone.trans (ih hone.seated)

end

/-! ## Accepted regions -/

/-- The state after a call that accepted a region. -/
inductive SetUp (gopRgb : UInt8 → UInt8 → UInt8 → UInt32) : State → Prop where
  | init (k : State) (out : Option (List FirmwareCall)) (g : Gop)
      (h : (consoleInit gopRgb k out g).2 = true) : SetUp gopRgb (consoleInit gopRgb k out g).1
  | region (k : State) (x y width height : UInt32) (fg bg : UInt8 × UInt8 × UInt8)
      (h : (consoleSetRegion gopRgb k x y width height fg bg).2 = true) :
      SetUp gopRgb (consoleSetRegion gopRgb k x y width height fg bg).1
  | surfaceRegion (k : State) (s : Surface) (x y width height : UInt32)
      (fg bg : UInt8 × UInt8 × UInt8)
      (h : (consoleSetSurfaceRegion gopRgb k s x y width height fg bg).2 = true) :
      SetUp gopRgb (consoleSetSurfaceRegion gopRgb k s x y width height fg bg).1

/-- The ends of the region leave room for the sums with a cell. -/
def State.Room (k : State) : Prop :=
  k.regionX.toNat + k.regionW.toNat + k.cellW.toNat < 2 ^ 32 ∧
    k.regionY.toNat + k.regionH.toNat + k.cellH.toNat < 2 ^ 32

variable {gopRgb : UInt8 → UInt8 → UInt8 → UInt32}

/-- The cursor stands on the corner of a region that has room for a cell. -/
structure AtCorner (k : State) : Prop where
  mode : k.framebufferMode = true
  drawable : k.target.Drawable
  inside : k.region.Within k.target.width k.target.height
  cell : ¬(k.regionW < k.cellW ∨ k.regionH < k.cellH)
  cursorX : k.cursorX = k.regionX
  cursorY : k.cursorY = k.regionY

theorem AtCorner.seated (h : AtCorner k) (hroom : k.Room) : Seated k := by
  have hcell := h.cell
  simp only [UInt32.lt_iff_toNat_lt] at hcell
  refine ⟨⟨h.mode, h.drawable, h.inside, hroom.1, hroom.2⟩, ?_⟩
  rw [h.cursorX, h.cursorY]
  exact ⟨Nat.le_refl _, by omega, Nat.le_refl _, by omega, by rw [Nat.sub_self, Nat.zero_mod],
    fun _ => by rw [Nat.sub_self, Nat.zero_mod]⟩

/-- On a target below `2^31` in both directions there is room. -/
theorem AtCorner.room (h : AtCorner k) (hw : k.target.width.toNat < 2 ^ 31)
    (hh : k.target.height.toNat < 2 ^ 31) : k.Room := by
  obtain ⟨hright, hbottom⟩ := h.inside
  simp only [State.region] at hright hbottom
  unfold State.Room
  rcases k.cell_cases h.mode with ⟨-, hcw, hch⟩ | ⟨-, hcw, hch⟩ <;> omega

theorem consoleInit_atCorner {out : Option (List FirmwareCall)} {g : Gop}
    (h : (consoleInit gopRgb k out g).2 = true) : AtCorner (consoleInit gopRgb k out g).1 := by
  unfold consoleInit at h ⊢
  split_ifs at h ⊢ with hg hsmall
  have hmode := gopFill_mode g (gopRgb 0 0 0)
  refine ⟨rfl, hmode.usable.trans hg, ?_, hsmall, rfl, rfl⟩
  show Rect.Within ⟨0, 0, g.width, g.height⟩ (gopFill g (gopRgb 0 0 0)).width
    (gopFill g (gopRgb 0 0 0)).height
  rw [hmode.width, hmode.height]
  simp [Rect.Within]

/-- Rounded down to whole cells, a rectangle in the target lies in the target. -/
theorem enterRegion_atCorner {surface : Option Surface} {fg bg : UInt8 × UInt8 × UInt8}
    (hmode : k.framebufferMode = true) (hd : Target.Drawable ⟨surface, k.target.gop⟩)
    (hin : Rect.Within ⟨x, y, width, height⟩ (Target.width ⟨surface, k.target.gop⟩)
      (Target.height ⟨surface, k.target.gop⟩))
    (h : (k.enterRegion gopRgb surface x y width height fg bg).2 = true) :
    AtCorner (k.enterRegion gopRgb surface x y width height fg bg).1 := by
  unfold State.enterRegion at h ⊢
  dsimp only at h ⊢
  split_ifs at h ⊢ with hsmall
  unfold consoleClear
  dsimp only [State.moveTo]
  rw [if_neg (by simp [hmode])]
  have hround : ∀ a b : UInt32, (a - a % b).toNat ≤ a.toNat := fun a b => by
    have hle := Nat.mod_le a.toNat b.toNat
    rw [UInt32.toNat_sub_of_le _ _ (by rwa [UInt32.le_iff_toNat_le, UInt32.toNat_mod])]
    omega
  have hw := hround width k.cellW
  have hh := hround height k.cellH
  have hpaints := Target.fillRect_paints hd
    ⟨x, y, width - width % k.cellW, height - height % k.cellH⟩ (gopRgb bg.1 bg.2.1 bg.2.2)
  exact ⟨hmode, hpaints.drawable, hpaints.within
    ⟨(Nat.add_le_add_left hw _).trans hin.1, (Nat.add_le_add_left hh _).trans hin.2⟩,
    hsmall, rfl, rfl⟩

/-- A rectangle that passed the checks of a region. -/
theorem within_of_checks {targetWidth targetHeight : UInt32} (hx : ¬x ≥ targetWidth)
    (hy : ¬y ≥ targetHeight) (hw : ¬width > targetWidth - x) (hh : ¬height > targetHeight - y) :
    Rect.Within ⟨x, y, width, height⟩ targetWidth targetHeight := by
  rw [ge_iff_le, UInt32.le_iff_toNat_le] at hx hy
  rw [gt_iff_lt, UInt32.lt_iff_toNat_lt, UInt32.toNat_sub_of_le _ _ (by
    rw [UInt32.le_iff_toNat_le]; omega)] at hw hh
  constructor <;> dsimp only <;> omega

theorem SetUp.atCorner (h : SetUp gopRgb k) : AtCorner k := by
  cases h with
  | init k out g h => exact consoleInit_atCorner h
  | region k x y width height fg bg h =>
    unfold consoleSetRegion at h ⊢
    dsimp only at h ⊢
    split_ifs at h ⊢ with hchecks
    simp only [not_or] at hchecks
    obtain ⟨hmode, hx, hy, hw, hh, -, -⟩ := hchecks
    have hmode : k.framebufferMode = true := by simpa using hmode
    exact enterRegion_atCorner hmode (k.usable hmode) (within_of_checks hx hy hw hh) h
  | surfaceRegion k s x y width height fg bg h =>
    unfold consoleSetSurfaceRegion at h ⊢
    split_ifs at h ⊢ with hchecks
    simp only [not_or] at hchecks
    obtain ⟨hmode, hvalid, hx, hy, hw, hh, -, -⟩ := hchecks
    exact enterRegion_atCorner (by simpa using hmode)
      (show surfaceValid s = true by simpa using hvalid) (within_of_checks hx hy hw hh) h

/-- A console with an accepted region writes in that region only: whatever characters
    are put, the cell under the cursor lies in the region and every pixel outside of the region
    keeps its color. -/
theorem console_output_confined {k : State} (hset : SetUp gopRgb k)
    (hw : k.target.width.toNat < 2 ^ 31) (hh : k.target.height.toNat < 2 ^ 31) (text : List UInt8) :
    let k' := consoleWrite k text
    k'.region = k.region ∧
      (k'.regionX.toNat ≤ k'.cursorX.toNat ∧
        k'.cursorX.toNat + k'.cellW.toNat ≤ k'.regionX.toNat + k'.regionW.toNat) ∧
      (k'.regionY.toNat ≤ k'.cursorY.toNat ∧
        k'.cursorY.toNat + k'.cellH.toNat ≤ k'.regionY.toNat + k'.regionH.toNat) ∧
      ∀ x < k.target.width.toNat, ∀ y < k.target.height.toNat, ¬k.region.Covers x y →
        k'.target.picture x y = k.target.picture x y := by
  have hconfined := consoleWrite_confined (hset.atCorner.seated (hset.atCorner.room hw hh)) text
  have hcursor := hconfined.seated.cursor
  exact ⟨hconfined.region, ⟨hcursor.left, hcursor.right⟩, ⟨hcursor.top, hcursor.bottom⟩,
    fun x hx y _ => hconfined.outside x hx y⟩

/-- The static variables before anything ran. -/
def zeroState : State :=
  ⟨none, false, 0, 0, 0, 0, 0, 0, 0, 0, 0, 0, 0, ⟨none, ⟨fun _ => 0, 0, 0, 0, false, nofun⟩⟩, nofun,
    nofun⟩

/-- A screen of one column and two rows of cells, and two lines of pixels that are left over. -/
def smallScreen : Gop := ⟨fun _ => 0, 6, 20, 6, true, by decide⟩

def smallConsole : State := (consoleInit (fun _ _ _ => 0) zeroState none smallScreen).1

/-- All but the two uppermost lines of the small screen as a region. -/
def lowerConsole : State :=
  (consoleSetRegion (fun _ green _ => green.toUInt32) smallConsole 0 2 6 18 (0, 255, 0) (0, 0, 0)).1

/-- A newline, a tab, a backspace and a letter, of which the two uppermost lines show nothing. -/
theorem console_output_confined_small :
    (consoleWrite lowerConsole [10, 9, 8, 97]).target.picture 1 2 ≠
        lowerConsole.target.picture 1 2 ∧
      ∀ x < 6, ∀ y < 2, (consoleWrite lowerConsole [10, 9, 8, 97]).target.picture x y =
        lowerConsole.target.picture x y := by
  refine ⟨by decide +kernel, fun x hx y hy => ?_⟩
  have hset : SetUp (fun _ green _ => green.toUInt32) lowerConsole :=
    .region smallConsole 0 2 6 18 (0, 255, 0) (0, 0, 0) (by decide +kernel)
  have hw : lowerConsole.target.width.toNat = 6 := by decide +kernel
  have hh : lowerConsole.target.height.toNat = 20 := by decide +kernel
  have hregion : lowerConsole.region = ⟨0, 2, 6, 18⟩ := by decide +kernel
  refine (console_output_confined hset (by rw [hw]; decide) (by rw [hh]; decide)
    [10, 9, 8, 97]).2.2.2 x (by rwa [hw]) y (by rw [hh]; omega) ?_
  rw [hregion]
  rintro ⟨-, hrow, -⟩
  exact absurd hrow (Nat.not_le.mpr hy)

end ArgusOs.Console
