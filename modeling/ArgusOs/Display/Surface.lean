/-
  Pixel surfaces and their damage: `surface.c`.

  A surface owns a pixel buffer of its own, rows of `stride` pixels; `allocated` says whether
  its `pixels` pointer is set. Drawing stores pixels and marks the rectangle it wrote as
  damage, one bounding rectangle for all that was drawn since the damage was last taken.

  The fact the compositor rests on is `Drawn`: drawing of any kind keeps the shape of the
  surface, loses no damage, and every pixel that looks different afterwards is damaged.
-/
import ArgusOs.Display.Font
import ArgusOs.Lib.Refresh
import ArgusOs.Lib.Word

namespace ArgusOs.Display

open Lib

variable {height width : UInt32}

def minimum (left right : UInt32) : UInt32 := if left < right then left else right
def maximum (left right : UInt32) : UInt32 := if left > right then left else right

/-! ## Rectangles -/

/-- `argus_rect_t`. -/
structure Rect where
  x : UInt32
  y : UInt32
  width : UInt32
  height : UInt32
  deriving DecidableEq, Repr

variable {r : Rect}

def Rect.zero : Rect := ⟨0, 0, 0, 0⟩

/-- The bounding rectangle of two, as `surface_mark_dirty` and `compositor_damage` compute it. -/
def Rect.join (r : Rect) (x y width height : UInt32) : Rect :=
  let left := minimum r.x x
  let top := minimum r.y y
  let right := maximum (r.x + r.width) (x + width)
  let bottom := maximum (r.y + r.height) (y + height)
  ⟨left, top, right - left, bottom - top⟩

/-- The point lies in the rectangle. -/
def Rect.Covers (r : Rect) (x y : Nat) : Prop :=
  (r.x.toNat ≤ x ∧ x < r.x.toNat + r.width.toNat) ∧ r.y.toNat ≤ y ∧ y < r.y.toNat + r.height.toNat

/-- The rectangle lies in an area of the given size with its corner at the origin. -/
def Rect.Within (r : Rect) (width height : UInt32) : Prop :=
  r.x.toNat + r.width.toNat ≤ width.toNat ∧ r.y.toNat + r.height.toNat ≤ height.toNat

/-! ## Surfaces -/

structure Surface where
  allocated : Bool
  pixels : Nat → UInt32
  width : UInt32
  height : UInt32
  stride : UInt32
  dirty : Bool
  damage : Rect

variable (s : Surface) {s' : Surface}

def surfaceValid : Bool :=
  s.allocated ∧ s.width ≠ 0 ∧ s.height ≠ 0 ∧ s.stride ≥ s.width

/-- `storage` is what `kmalloc` returned: nothing, or a block with some contents. -/
def surfaceInit (storage : Option (Nat → UInt32)) (width height : UInt32) : Option Surface :=
  if width = 0 ∨ height = 0 then none
  else if width.toNat * height.toNat > (2 ^ 64 - 1) / 4 then none
  else storage.map fun pixels => ⟨true, pixels, width, height, width, false, .zero⟩

def surfaceMarkDirty (x y width height : UInt32) : Surface :=
  if surfaceValid s = false ∨ x ≥ s.width ∨ y ≥ s.height then s
  else
    let width := minimum width (s.width - x)
    let height := minimum height (s.height - y)
    if width = 0 ∨ height = 0 then s
    else if s.dirty = false then { s with damage := ⟨x, y, width, height⟩, dirty := true }
    else { s with damage := s.damage.join x y width height }

def surfaceTakeDamage : Surface × Option Rect :=
  if surfaceValid s = false ∨ s.dirty = false then (s, none)
  else ({ s with dirty := false, damage := .zero }, some s.damage)

/-- The buffer position of column `x` of row `y`. -/
def Surface.position (x y : Nat) : Nat := y * s.stride.toNat + x

def Surface.store (x y : Nat) (color : UInt32) : Surface :=
  { s with pixels := Function.update s.pixels (s.position x y) color }

/-- The loops that store one color in `height` rows of `width` pixels. -/
def Surface.fillBlock (x y width height color : UInt32) : Surface :=
  sweep height.toNat width.toNat
    (fun yy xx s => s.store (x.toNat + xx) (y + UInt32.ofNat yy).toNat color) s

/-- The loops that copy each of `rows` rows from the row `distance` below it. -/
def Surface.copyUp (x y width rows distance : UInt32) : Surface :=
  sweep rows.toNat width.toNat
    (fun yy xx s => s.store (x.toNat + xx) (y + UInt32.ofNat yy).toNat
      (s.pixels (s.position (x.toNat + xx) (y + UInt32.ofNat yy + distance).toNat))) s

def surfaceClear (color : UInt32) : Surface :=
  if surfaceValid s = false then s
  else surfaceMarkDirty (s.fillBlock 0 0 s.width s.height color) 0 0 s.width s.height

def surfaceFillRect (x y width height color : UInt32) : Surface :=
  if surfaceValid s = false ∨ x ≥ s.width ∨ y ≥ s.height then s
  else
    let width := minimum width (s.width - x)
    let height := minimum height (s.height - y)
    if width = 0 ∨ height = 0 then s
    else surfaceMarkDirty (s.fillBlock x y width height color) x y width height

def surfacePutpixel (x y color : UInt32) : Surface :=
  if surfaceValid s = false ∨ x ≥ s.width ∨ y ≥ s.height then s
  else surfaceMarkDirty (s.store x.toNat y.toNat color) x y 1 1

def surfaceGetpixel (x y : UInt32) : UInt32 :=
  if surfaceValid s = false ∨ x ≥ s.width ∨ y ≥ s.height then 0
  else s.pixels (s.position x.toNat y.toNat)

def surfaceScrollRectUp (x y width height pixels fillColor : UInt32) : Surface :=
  if surfaceValid s = false ∨ pixels = 0 ∨ x ≥ s.width ∨ y ≥ s.height then s
  else
    let width := minimum width (s.width - x)
    let height := minimum height (s.height - y)
    if width = 0 ∨ height = 0 then s
    else if pixels ≥ height then surfaceFillRect s x y width height fillColor
    else
      let rows := height - pixels
      let copied := s.copyUp x y width rows pixels
      surfaceMarkDirty (surfaceFillRect copied x (y + rows) width pixels fillColor) x y width height

/-- The loops over the rows and columns of one glyph. -/
def drawGlyph (character : UInt8) (x y scale color : UInt32) : Surface :=
  sweep 7 5
    (fun row column s =>
      if (font5x7Row character row).toNat.testBit (4 - column) then
        surfaceFillRect s (x + UInt32.ofNat column * scale) (y + UInt32.ofNat row * scale)
          scale scale color
      else s) s

variable {s}

/-- The loop over the characters of a text, up to its end or a zero byte. -/
def drawGlyphs (s : Surface) (y scale color : UInt32) : List UInt8 → UInt32 → Surface
  | [], _ => s
  | character :: text, x =>
    if character = 0 then s
    else
      let s := drawGlyph s character x y scale color
      if x > 0xFFFFFFFF - 6 * scale then s
      else drawGlyphs s y scale color text (x + 6 * scale)

def surfaceDrawText (s : Surface) (text : List UInt8) (x y scale color : UInt32) : Surface :=
  if surfaceValid s = false ∨ scale = 0 then s else drawGlyphs s y scale color text x

/-- The drawing operations a surface offers. -/
inductive Drawing where
  | clear (color : UInt32)
  | fillRect (x y width height color : UInt32)
  | putpixel (x y color : UInt32)
  | scrollRectUp (x y width height pixels fillColor : UInt32)
  | drawText (text : List UInt8) (x y scale color : UInt32)

def Surface.draw (s : Surface) : Drawing → Surface
  | .clear color => surfaceClear s color
  | .fillRect x y width height color => surfaceFillRect s x y width height color
  | .putpixel x y color => surfacePutpixel s x y color
  | .scrollRectUp x y width height pixels fillColor =>
    surfaceScrollRectUp s x y width height pixels fillColor
  | .drawText text x y scale color => surfaceDrawText s text x y scale color

/-! ## Rectangle lemmas -/

theorem toNat_minimum (a b : UInt32) : (minimum a b).toNat = min a.toNat b.toNat := by
  unfold minimum
  by_cases h : a < b
  · rw [if_pos h, Nat.min_eq_left (UInt32.le_iff_toNat_le.mp (UInt32.le_of_lt h))]
  · rw [if_neg h, Nat.min_eq_right (UInt32.le_iff_toNat_le.mp (UInt32.not_lt.mp h))]

theorem toNat_maximum (a b : UInt32) : (maximum a b).toNat = max a.toNat b.toNat := by
  unfold maximum
  by_cases h : a > b
  · rw [if_pos h, Nat.max_eq_left (UInt32.le_iff_toNat_le.mp (UInt32.le_of_lt h))]
  · rw [if_neg h, Nat.max_eq_right (UInt32.le_iff_toNat_le.mp (UInt32.not_lt.mp h))]

theorem toNat_add_of_le {a b c : UInt32} (h : a.toNat + b.toNat ≤ c.toNat) :
    (a + b).toNat = a.toNat + b.toNat := by
  have hc := c.toNat_lt
  rw [UInt32.toNat_add, Nat.mod_eq_of_lt (by omega)]

theorem Rect.join_spec {q : Rect} (hr : r.Within width height) (hq : q.Within width height) :
    (r.join q.x q.y q.width q.height).Within width height ∧
      ∀ x y, r.Covers x y ∨ q.Covers x y → (r.join q.x q.y q.width q.height).Covers x y := by
  have hright : (maximum (r.x + r.width) (q.x + q.width)).toNat =
      max (r.x.toNat + r.width.toNat) (q.x.toNat + q.width.toNat) := by
    rw [toNat_maximum, toNat_add_of_le hr.1, toNat_add_of_le hq.1]
  have hbottom : (maximum (r.y + r.height) (q.y + q.height)).toNat =
      max (r.y.toNat + r.height.toNat) (q.y.toNat + q.height.toNat) := by
    rw [toNat_maximum, toNat_add_of_le hr.2, toNat_add_of_le hq.2]
  have hleft := toNat_minimum r.x q.x
  have htop := toNat_minimum r.y q.y
  have hwidth : (maximum (r.x + r.width) (q.x + q.width) - minimum r.x q.x).toNat =
      max (r.x.toNat + r.width.toNat) (q.x.toNat + q.width.toNat) - min r.x.toNat q.x.toNat := by
    rw [toNat_sub32 (by omega), hright, hleft]
  have hheight : (maximum (r.y + r.height) (q.y + q.height) - minimum r.y q.y).toNat =
      max (r.y.toNat + r.height.toNat) (q.y.toNat + q.height.toNat) - min r.y.toNat q.y.toNat := by
    rw [toNat_sub32 (by omega), hbottom, htop]
  obtain ⟨hr1, hr2⟩ := hr
  obtain ⟨hq1, hq2⟩ := hq
  constructor
  · refine ⟨?_, ?_⟩ <;> simp only [Rect.join, hwidth, hheight, hleft, htop] <;> omega
  · intro x y hcov
    simp only [Rect.Covers, Rect.join, hwidth, hheight, hleft, htop] at hcov ⊢
    omega

/-- Whatever a rectangle is joined with, a rectangle in an area stays covered. -/
theorem Rect.join_covers {q : Rect} (hq : q.Within width height) {x y : Nat} (hcov : q.Covers x y) :
    (r.join q.x q.y q.width q.height).Covers x y := by
  have hright := toNat_maximum (r.x + r.width) (q.x + q.width)
  have hbottom := toNat_maximum (r.y + r.height) (q.y + q.height)
  rw [toNat_add_of_le hq.1] at hright
  rw [toNat_add_of_le hq.2] at hbottom
  have hleft := toNat_minimum r.x q.x
  have htop := toNat_minimum r.y q.y
  have hwidth := UInt32.toNat_sub_of_le (maximum (r.x + r.width) (q.x + q.width)) (minimum r.x q.x)
    (by rw [UInt32.le_iff_toNat_le]; omega)
  have hheight := UInt32.toNat_sub_of_le (maximum (r.y + r.height) (q.y + q.height))
    (minimum r.y q.y) (by rw [UInt32.le_iff_toNat_le]; omega)
  simp only [Rect.Covers, Rect.join, hwidth, hheight] at hcov ⊢
  omega

theorem Rect.clip_within {x y w h : UInt32} (hx : x < width) (hy : y < height) :
    Rect.Within ⟨x, y, minimum w (width - x), minimum h (height - y)⟩ width height := by
  have hx := UInt32.lt_iff_toNat_lt.mp hx
  have hy := UInt32.lt_iff_toNat_lt.mp hy
  refine ⟨?_, ?_⟩
  · dsimp only
    rw [toNat_minimum, toNat_sub32 (by omega)]
    omega
  · dsimp only
    rw [toNat_minimum, toNat_sub32 (by omega)]
    omega

/-! ## What drawing does -/

/-- The damage a surface reports lies on it. -/
def Surface.DamageInside (s : Surface) : Prop :=
  s.dirty = true → s.damage.Within s.width s.height

def Surface.DamagedAt (s : Surface) (x y : Nat) : Prop := s.dirty = true ∧ s.damage.Covers x y

/-- Buffer, size and stride are the same. -/
structure SameShape (s s' : Surface) : Prop where
  allocated : s'.allocated = s.allocated
  width : s'.width = s.width
  height : s'.height = s.height
  stride : s'.stride = s.stride

theorem SameShape.refl (s : Surface) : SameShape s s := ⟨rfl, rfl, rfl, rfl⟩

theorem SameShape.trans {s'' : Surface} (h : SameShape s s') (h' : SameShape s' s'') :
    SameShape s s'' :=
  ⟨h'.allocated.trans h.allocated, h'.width.trans h.width, h'.height.trans h.height,
    h'.stride.trans h.stride⟩

theorem SameShape.valid (h : SameShape s s') : surfaceValid s' = surfaceValid s := by
  unfold surfaceValid
  rw [h.allocated, h.width, h.height, h.stride]

/-- A surface and what drawing made of it: no damage is lost and every pixel that looks
    different is damaged. -/
structure Drawn (s s' : Surface) : Prop where
  shape : SameShape s s'
  inside : s'.DamageInside
  keeps : ∀ x y, s.DamagedAt x y → s'.DamagedAt x y
  covers : ∀ x y, surfaceGetpixel s' x y ≠ surfaceGetpixel s x y → s'.DamagedAt x.toNat y.toNat

theorem Drawn.refl (h : s.DamageInside) : Drawn s s :=
  ⟨.refl s, h, fun _ _ hd => hd, fun _ _ hne => absurd rfl hne⟩

theorem Drawn.trans {s'' : Surface} (h : Drawn s s') (h' : Drawn s' s'') : Drawn s s'' where
  shape := h.shape.trans h'.shape
  inside := h'.inside
  keeps x y hd := h'.keeps x y (h.keeps x y hd)
  covers x y hne := by
    by_cases hmid : surfaceGetpixel s'' x y = surfaceGetpixel s' x y
    · exact h'.keeps _ _ (h.covers x y (by rwa [← hmid]))
    · exact h'.covers x y hmid

/-- Two surfaces that look alike and are damaged alike. -/
theorem surfaceGetpixel_congr (hshape : SameShape s s') {x y : UInt32}
    (hpixel : s'.pixels (s.position x.toNat y.toNat) = s.pixels (s.position x.toNat y.toNat)) :
    surfaceGetpixel s' x y = surfaceGetpixel s x y := by
  have hpos : s'.position x.toNat y.toNat = s.position x.toNat y.toNat := by
    unfold Surface.position
    rw [hshape.stride]
  unfold surfaceGetpixel
  rw [hshape.valid, hshape.width, hshape.height, hpos, hpixel]

theorem surfaceMarkDirty_drawn (hs : s.DamageInside) (x y width height : UInt32) :
    Drawn s (surfaceMarkDirty s x y width height) := by
  unfold surfaceMarkDirty
  by_cases hout : surfaceValid s = false ∨ x ≥ s.width ∨ y ≥ s.height
  · rw [if_pos hout]
    exact .refl hs
  · rw [if_neg hout]
    dsimp only
    push Not at hout
    have hin : Rect.Within ⟨x, y, minimum width (s.width - x), minimum height (s.height - y)⟩
        s.width s.height := Rect.clip_within (UInt32.not_le.mp hout.2.1) (UInt32.not_le.mp hout.2.2)
    by_cases hnone : minimum width (s.width - x) = 0 ∨ minimum height (s.height - y) = 0
    · rw [if_pos hnone]
      exact .refl hs
    · rw [if_neg hnone]
      by_cases hclean : s.dirty = false
      · rw [if_pos hclean]
        refine ⟨⟨rfl, rfl, rfl, rfl⟩, fun _ => hin, ?_, fun _ _ hne => absurd rfl hne⟩
        rintro px py ⟨hdirty, _⟩
        simp [hclean] at hdirty
      · rw [if_neg hclean]
        have hdirty : s.dirty = true := by simpa using hclean
        obtain ⟨hwithin, hcovers⟩ := Rect.join_spec (hs hdirty) hin
        refine ⟨⟨rfl, rfl, rfl, rfl⟩, fun _ => hwithin, ?_, fun _ _ hne => absurd rfl hne⟩
        rintro px py ⟨_, hcov⟩
        exact ⟨hdirty, hcovers px py (Or.inl hcov)⟩

theorem surfaceMarkDirty_covers (hvalid : surfaceValid s = true) (hr : r.Within s.width s.height)
    {px py : Nat} (hcov : r.Covers px py) :
    (surfaceMarkDirty s r.x r.y r.width r.height).DamagedAt px py := by
  obtain ⟨⟨h1, h2⟩, h3, h4⟩ := hcov
  obtain ⟨hr1, hr2⟩ := hr
  have hx : r.x < s.width := UInt32.lt_iff_toNat_lt.mpr (by omega)
  have hy : r.y < s.height := UInt32.lt_iff_toNat_lt.mpr (by omega)
  have hw : minimum r.width (s.width - r.x) = r.width := by
    rw [← UInt32.toNat_inj, toNat_minimum,
      toNat_sub32 (by omega)]
    omega
  have hh : minimum r.height (s.height - r.y) = r.height := by
    rw [← UInt32.toNat_inj, toNat_minimum,
      toNat_sub32 (by omega)]
    omega
  have hw0 : r.width ≠ 0 := fun h => by rw [h] at h2; simp at h2; omega
  have hh0 : r.height ≠ 0 := fun h => by rw [h] at h4; simp at h4; omega
  unfold surfaceMarkDirty
  rw [if_neg (by simp [hvalid, UInt32.not_le, hx, hy])]
  dsimp only
  rw [hw, hh, if_neg (by simp [hw0, hh0])]
  by_cases hclean : s.dirty = false
  · rw [if_pos hclean]
    exact ⟨rfl, ⟨h1, h2⟩, h3, h4⟩
  · rw [if_neg hclean]
    exact ⟨by simpa using hclean, Rect.join_covers ⟨hr1, hr2⟩ ⟨⟨h1, h2⟩, h3, h4⟩⟩

theorem surfaceTakeDamage_spec (hvalid : surfaceValid s = true) :
    surfaceTakeDamage s = ({ s with dirty := false, damage := if s.dirty then .zero else s.damage },
      if s.dirty then some s.damage else none) := by
  unfold surfaceTakeDamage
  by_cases hclean : s.dirty = false
  · rw [if_pos (Or.inr hclean)]
    simp [hclean]
    rw [← hclean]
  · have hdirty : s.dirty = true := by simpa using hclean
    rw [if_neg (by simp [hvalid, hdirty])]
    simp [hdirty]

/-! ## Storing into a block -/

/-- Nothing but pixels of the block was stored to. -/
structure Stored (r : Rect) (s s' : Surface) : Prop where
  rest : s' = { s with pixels := s'.pixels }
  outside : ∀ x y, x < s.stride.toNat → ¬r.Covers x y →
    s'.pixels (s.position x y) = s.pixels (s.position x y)

theorem Stored.refl (r : Rect) (s : Surface) : Stored r s s := ⟨rfl, fun _ _ _ _ => rfl⟩

theorem Stored.shape (h : Stored r s s') : SameShape s s' := by
  rw [h.rest]
  exact ⟨rfl, rfl, rfl, rfl⟩

theorem Stored.store {s : Surface} (h : Stored r s s') {x y : Nat} (color : UInt32)
    (hx : x < s.stride.toNat) (hcov : r.Covers x y) : Stored r s (s'.store x y color) where
  rest := by
    rw [h.rest]
    rfl
  outside px py hpx hout := by
    have hpos : s'.position x y = s.position x y := by
      unfold Surface.position
      rw [h.shape.stride]
    have hne : s.position px py ≠ s.position x y := by
      intro heq
      obtain ⟨rfl, rfl⟩ := grid_position_inj hpx hx heq
      exact hout hcov
    unfold Surface.store
    dsimp only
    rw [hpos, Function.update_of_ne hne]
    exact h.outside px py hpx hout

section

variable (hvalid : surfaceValid s = true) (hr : r.Within s.width s.height)

include hvalid hr

/-- Turn `yy`, `xx` of a loop over a block on the surface stores into the block. -/
theorem Rect.covers_turn {xx yy : Nat} (hxx : xx < r.width.toNat) (hyy : yy < r.height.toNat) :
    r.x.toNat + xx < s.stride.toNat ∧
      r.Covers (r.x.toNat + xx) (r.y + UInt32.ofNat yy).toNat := by
  have hstride : s.width.toNat ≤ s.stride.toNat := by
    simp only [surfaceValid, ge_iff_le, decide_eq_true_eq] at hvalid
    exact UInt32.le_iff_toNat_le.mp hvalid.2.2.2
  obtain ⟨hr1, hr2⟩ := hr
  have hlt := s.height.toNat_lt
  have hyy' : (UInt32.ofNat yy).toNat = yy := by
    rw [UInt32.toNat_ofNat', Nat.mod_eq_of_lt (by omega)]
  have hrow : (r.y + UInt32.ofNat yy).toNat = r.y.toNat + yy := by
    rw [UInt32.toNat_add, hyy', Nat.mod_eq_of_lt (by omega)]
  refine ⟨by omega, ⟨by omega, by omega⟩, ?_, ?_⟩ <;> rw [hrow] <;> omega

/-- Loops that store a color of their own in every pixel of a block. -/
theorem Stored.sweep (color : Nat → Nat → UInt32) :
    Stored r s (sweep r.height.toNat r.width.toNat
      (fun yy xx s => s.store (r.x.toNat + xx) (r.y + UInt32.ofNat yy).toNat (color yy xx)) s) := by
  apply sweep_invariant (Stored r s) (.refl r s)
  intro yy hyy xx hxx s' hs'
  obtain ⟨hx, hcov⟩ := Rect.covers_turn hvalid hr hxx hyy
  exact hs'.store _ hx hcov

theorem Surface.fillBlock_stored (color : UInt32) :
    Stored r s (s.fillBlock r.x r.y r.width r.height color) :=
  .sweep hvalid hr fun _ _ => color

theorem Surface.copyUp_stored {rows : UInt32} (hrows : rows ≤ r.height) (distance : UInt32) :
    Stored r s (s.copyUp r.x r.y r.width rows distance) := by
  have hrows := UInt32.le_iff_toNat_le.mp hrows
  unfold Surface.copyUp
  apply sweep_invariant (Stored r s) (.refl r s)
  intro yy hyy xx hxx s' hs'
  obtain ⟨hx, hcov⟩ := Rect.covers_turn hvalid hr hxx (Nat.lt_of_lt_of_le hyy hrows)
  exact hs'.store _ hx hcov

/-- A block is stored to, something is drawn, and the block is marked. -/
theorem Stored.mark {s₁ s₂ : Surface} (h : Stored r s s₁) (hdrawn : Drawn s₁ s₂) :
    Drawn s (surfaceMarkDirty s₂ r.x r.y r.width r.height) := by
  have hmark := surfaceMarkDirty_drawn hdrawn.inside r.x r.y r.width r.height
  have hshape := h.shape.trans hdrawn.shape
  have hdamage : ∀ x y, s.DamagedAt x y → s₁.DamagedAt x y := by
    intro x y hd
    rw [h.rest]
    exact hd
  refine ⟨hshape.trans hmark.shape, hmark.inside, ?_, ?_⟩
  · intro x y hd
    exact hmark.keeps x y (hdrawn.keeps x y (hdamage x y hd))
  · intro x y hne
    by_cases hcov : r.Covers x.toNat y.toNat
    · exact surfaceMarkDirty_covers (hshape.valid.trans hvalid)
        (by rwa [hshape.width, hshape.height]) hcov
    · -- a pixel outside the block was changed by the drawing, which damaged it
      apply (hdrawn.trans hmark).covers
      intro heq
      apply hne
      by_cases hoff : surfaceValid s = false ∨ x ≥ s.width ∨ y ≥ s.height
      · unfold surfaceGetpixel
        rw [(hshape.trans hmark.shape).valid, (hshape.trans hmark.shape).width,
          (hshape.trans hmark.shape).height, if_pos hoff, if_pos hoff]
      · rw [heq]
        apply surfaceGetpixel_congr h.shape (h.outside _ _ _ hcov)
        push Not at hoff
        simp only [surfaceValid, ge_iff_le, decide_eq_true_eq] at hvalid
        exact UInt32.lt_iff_toNat_lt.mp (UInt32.lt_of_lt_of_le (UInt32.not_le.mp hoff.2.1)
          hvalid.2.2.2)

end

/-! ## The drawing operations -/

theorem surfaceClear_drawn (hs : s.DamageInside) (color : UInt32) :
    Drawn s (surfaceClear s color) := by
  unfold surfaceClear
  by_cases hinvalid : surfaceValid s = false
  · rw [if_pos hinvalid]
    exact .refl hs
  · rw [if_neg hinvalid]
    have hvalid : surfaceValid s = true := by simpa using hinvalid
    have hr : Rect.Within ⟨0, 0, s.width, s.height⟩ s.width s.height := by simp [Rect.Within]
    have hstored := Surface.fillBlock_stored hvalid hr color
    exact hstored.mark hvalid hr (.refl (by rw [hstored.rest]; exact hs))

theorem surfaceFillRect_drawn (hs : s.DamageInside) (x y width height color : UInt32) :
    Drawn s (surfaceFillRect s x y width height color) := by
  unfold surfaceFillRect
  by_cases hout : surfaceValid s = false ∨ x ≥ s.width ∨ y ≥ s.height
  · rw [if_pos hout]
    exact .refl hs
  · rw [if_neg hout]
    push Not at hout
    obtain ⟨hvalid, hx, hy⟩ := hout
    have hvalid : surfaceValid s = true := by simpa using hvalid
    have hr : Rect.Within ⟨x, y, minimum width (s.width - x), minimum height (s.height - y)⟩
        s.width s.height := Rect.clip_within (UInt32.not_le.mp hx) (UInt32.not_le.mp hy)
    have hstored := Surface.fillBlock_stored hvalid hr color
    dsimp only
    split
    · exact .refl hs
    · exact hstored.mark hvalid hr (.refl (by rw [hstored.rest]; exact hs))

theorem surfacePutpixel_drawn (hs : s.DamageInside) (x y color : UInt32) :
    Drawn s (surfacePutpixel s x y color) := by
  unfold surfacePutpixel
  by_cases hout : surfaceValid s = false ∨ x ≥ s.width ∨ y ≥ s.height
  · rw [if_pos hout]
    exact .refl hs
  · rw [if_neg hout]
    push Not at hout
    obtain ⟨hvalid, hx, hy⟩ := hout
    have hvalid : surfaceValid s = true := by simpa using hvalid
    have hx := UInt32.lt_iff_toNat_lt.mp (UInt32.not_le.mp hx)
    have hy := UInt32.lt_iff_toNat_lt.mp (UInt32.not_le.mp hy)
    have hone : (1 : UInt32).toNat = 1 := rfl
    have hr : Rect.Within ⟨x, y, 1, 1⟩ s.width s.height := by
      refine ⟨?_, ?_⟩ <;> dsimp only <;> omega
    have hturn := Rect.covers_turn hvalid hr (show 0 < 1 by decide) (show 0 < 1 by decide)
    rw [Nat.add_zero, show UInt32.ofNat 0 = 0 from rfl, UInt32.add_zero] at hturn
    have hstored := (Stored.refl ⟨x, y, 1, 1⟩ s).store color hturn.1 hturn.2
    exact hstored.mark hvalid hr (.refl (by rw [hstored.rest]; exact hs))

theorem surfaceScrollRectUp_drawn (hs : s.DamageInside)
    (x y width height pixels fillColor : UInt32) :
    Drawn s (surfaceScrollRectUp s x y width height pixels fillColor) := by
  unfold surfaceScrollRectUp
  by_cases hout : surfaceValid s = false ∨ pixels = 0 ∨ x ≥ s.width ∨ y ≥ s.height
  · rw [if_pos hout]
    exact .refl hs
  · rw [if_neg hout]
    push Not at hout
    obtain ⟨hvalid, _, hx, hy⟩ := hout
    have hvalid : surfaceValid s = true := by simpa using hvalid
    have hr : Rect.Within ⟨x, y, minimum width (s.width - x), minimum height (s.height - y)⟩
        s.width s.height := Rect.clip_within (UInt32.not_le.mp hx) (UInt32.not_le.mp hy)
    dsimp only
    split
    · exact .refl hs
    split
    · exact surfaceFillRect_drawn hs ..
    · rename_i hpixels
      have hrows : minimum height (s.height - y) - pixels ≤ minimum height (s.height - y) := by
        have hle := UInt32.le_of_lt (UInt32.not_le.mp hpixels)
        rw [UInt32.le_iff_toNat_le, UInt32.toNat_sub_of_le _ _ hle]
        omega
      have hstored := Surface.copyUp_stored hvalid hr hrows pixels
      exact hstored.mark hvalid hr (surfaceFillRect_drawn (by rw [hstored.rest]; exact hs) ..)

theorem drawGlyph_drawn (hs : s.DamageInside) (character : UInt8) (x y scale color : UInt32) :
    Drawn s (drawGlyph s character x y scale color) := by
  unfold drawGlyph
  apply sweep_invariant (Drawn s) (.refl hs)
  intro row _ column _ s' hs'
  split
  · exact hs'.trans (surfaceFillRect_drawn hs'.inside ..)
  · exact hs'

theorem drawGlyphs_drawn (y scale color : UInt32) (hs : s.DamageInside) (text : List UInt8)
    (x : UInt32) : Drawn s (drawGlyphs s y scale color text x) := by
  induction text generalizing s x with
  | nil => exact .refl hs
  | cons character text ih =>
    unfold drawGlyphs
    split
    · exact .refl hs
    · have hglyph := drawGlyph_drawn hs character x y scale color
      dsimp only
      split
      · exact hglyph
      · exact hglyph.trans (ih hglyph.inside _)

theorem Surface.draw_drawn (hs : s.DamageInside) (d : Drawing) : Drawn s (s.draw d) := by
  cases d with
  | clear color => exact surfaceClear_drawn hs color
  | fillRect x y width height color => exact surfaceFillRect_drawn hs ..
  | putpixel x y color => exact surfacePutpixel_drawn hs ..
  | scrollRectUp x y width height pixels fillColor => exact surfaceScrollRectUp_drawn hs ..
  | drawText text x y scale color =>
    unfold Surface.draw surfaceDrawText
    dsimp only
    split
    · exact .refl hs
    · exact drawGlyphs_drawn y scale color hs text x

end ArgusOs.Display
