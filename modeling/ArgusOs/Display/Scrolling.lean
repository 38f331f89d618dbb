/-
  Filling and scrolling a rectangle, on a surface and on the framebuffer: `surface_fill_rect`,
  `surface_scroll_rect_up`, `gop_fill_rect` and `gop_scroll_rect_up`.

  A picture gives the color of every point. What the functions are for is said on pictures:
  `fillArea` colors the rectangle as far as it lies in the area, `scrollAreaUp` moves what it
  shows up and colors what comes in at the bottom. The functions clip the rectangle in 32 bits
  and scroll in place, row by row from the top, so a row is read after the rows above it were
  overwritten; the rows below it are untouched at that time (`Painted.below`), and so the copy
  reads the old picture. The results hold for all arguments, in every column of a row up to
  its stride.
-/
import ArgusOs.Display.Compositor
import ArgusOs.Lib.Raster

namespace ArgusOs.Display

open Lib

variable {height pixels width : UInt32} {r : Rect} {s : Surface} {g : Gop}

/-! ## Pictures -/

abbrev Picture := Nat → Nat → UInt32

variable {p : Picture}

/-- The point lies in the rectangle and in the area it is clipped to. -/
def Rect.Clipped (r : Rect) (width height : UInt32) (x y : Nat) : Prop :=
  r.Covers x y ∧ x < width.toNat ∧ y < height.toNat

instance (r : Rect) (x y : Nat) : Decidable (r.Covers x y) :=
  inferInstanceAs (Decidable (_ ∧ _))

instance (r : Rect) (width height : UInt32) (x y : Nat) : Decidable (r.Clipped width height x y) :=
  inferInstanceAs (Decidable (_ ∧ _))

/-- The picture with a rectangle, clipped to an area, in one color. -/
def fillArea (r : Rect) (width height color : UInt32) (p : Picture) : Picture := fun x y =>
  if r.Clipped width height x y then color else p x y

/-- The picture with what a clipped rectangle shows moved up, and one color at its bottom. -/
def scrollAreaUp (r : Rect) (width height pixels fillColor : UInt32) (p : Picture) : Picture :=
  fun x y =>
    if r.Clipped width height x y then
      if r.Clipped width height x (y + pixels.toNat) then p x (y + pixels.toNat) else fillColor
    else p x y

def Surface.picture (s : Surface) : Picture := fun x y => s.pixels (s.position x y)

def Gop.position (g : Gop) (x y : Nat) : Nat := y * g.pitchPixels.toNat + x

def Gop.picture (g : Gop) : Picture := fun x y => g.fb (g.position x y)

/-! ## The framebuffer -/

def Gop.store (g : Gop) (x y : Nat) (color : UInt32) : Gop :=
  { g with fb := Function.update g.fb (g.position x y) color }

def Gop.fillBlock (g : Gop) (x y width height color : UInt32) : Gop :=
  sweep height.toNat width.toNat
    (fun yy xx g => g.store (x.toNat + xx) (y + UInt32.ofNat yy).toNat color) g

def Gop.copyUp (g : Gop) (x y width rows distance : UInt32) : Gop :=
  sweep rows.toNat width.toNat
    (fun yy xx g => g.store (x.toNat + xx) (y + UInt32.ofNat yy).toNat
      (g.fb (g.position (x.toNat + xx) (y + UInt32.ofNat yy + distance).toNat))) g

def gopFill (g : Gop) (packed : UInt32) : Gop :=
  if g.usable = false then g else g.fillBlock 0 0 g.width g.height packed

def gopFillRect (g : Gop) (x y w h packed : UInt32) : Gop :=
  if g.usable = false ∨ x ≥ g.width ∨ y ≥ g.height then g
  else
    let w := if w > g.width - x then g.width - x else w
    let h := if h > g.height - y then g.height - y else h
    g.fillBlock x y w h packed

def gopScrollRectUp (g : Gop) (x y w h pixels fillColor : UInt32) : Gop :=
  if g.usable = false ∨ pixels = 0 ∨ x ≥ g.width ∨ y ≥ g.height then g
  else
    let w := if w > g.width - x then g.width - x else w
    let h := if h > g.height - y then g.height - y else h
    if w = 0 ∨ h = 0 then g
    else if pixels ≥ h then gopFillRect g x y w h fillColor
    else
      let rows := h - pixels
      gopFillRect (g.copyUp x y w rows pixels) x (y + rows) w pixels fillColor

/-! ## Clipping -/

/-- The rectangle as the functions clip it. -/
def Rect.clip (r : Rect) (width height : UInt32) : Rect :=
  ⟨r.x, r.y, minimum r.width (width - r.x), minimum r.height (height - r.y)⟩

/-- `gop.c` writes the minimum as an assignment under a condition. -/
theorem if_gt_eq_minimum (a b : UInt32) : (if a > b then b else a) = minimum a b := by
  unfold minimum
  rw [← UInt32.toNat_inj]
  split_ifs with h h' h'
  · exact absurd (UInt32.lt_trans h h') (UInt32.lt_irrefl _)
  · rfl
  · rfl
  · exact UInt32.toNat_inj.mpr (UInt32.le_antisymm (UInt32.not_lt.mp h) (UInt32.not_lt.mp h'))

theorem Rect.clip_covers (hx : r.x < width) (hy : r.y < height) (px py : Nat) :
    (r.clip width height).Covers px py ↔ r.Clipped width height px py := by
  have hx := UInt32.lt_iff_toNat_lt.mp hx
  have hy := UInt32.lt_iff_toNat_lt.mp hy
  have hw := UInt32.toNat_sub_of_le width r.x (UInt32.le_iff_toNat_le.mpr (by omega))
  have hh := UInt32.toNat_sub_of_le height r.y (UInt32.le_iff_toNat_le.mpr (by omega))
  simp only [Rect.clip, Rect.Covers, Rect.Clipped, toNat_minimum, hw, hh]
  omega

/-- A corner outside the area leaves nothing of the rectangle. -/
theorem Rect.not_clipped (h : r.x ≥ width ∨ r.y ≥ height) (px py : Nat) :
    ¬r.Clipped width height px py := by
  simp only [ge_iff_le, UInt32.le_iff_toNat_le] at h
  simp only [Rect.Clipped, Rect.Covers]
  omega

/-! ## Loops over a block -/

theorem Rect.turn_row (hr : r.Within width height) {yy : Nat} (hyy : yy < r.height.toNat) :
    (r.y + UInt32.ofNat yy).toNat = r.y.toNat + yy := by
  have hlt := height.toNat_lt
  have hr := hr.2
  have hofNat : (UInt32.ofNat yy).toNat = yy := by
    rw [UInt32.toNat_ofNat', Nat.mod_eq_of_lt (by omega)]
  rw [UInt32.toNat_add, hofNat, Nat.mod_eq_of_lt (by omega)]

theorem Rect.source_row {distance : UInt32} (hr : r.Within width height) {yy : Nat}
    (hyy : yy + distance.toNat < r.height.toNat) :
    (r.y + UInt32.ofNat yy + distance).toNat = r.y.toNat + yy + distance.toNat := by
  have hlt := height.toNat_lt
  have hr' := hr.2
  rw [UInt32.toNat_add, Rect.turn_row hr (by omega), Nat.mod_eq_of_lt (by omega)]

theorem Surface.store_picture {x c : Nat} (hx : x < s.stride.toNat) (hc : c < s.stride.toNat)
    (y r : Nat) (color : UInt32) :
    (s.store x y color).picture c r = if c = x ∧ r = y then color else s.picture c r :=
  update_cell hc hx s.pixels r y color

theorem Gop.store_picture {x c : Nat} (hx : x < g.pitchPixels.toNat) (hc : c < g.pitchPixels.toNat)
    (y r : Nat) (color : UInt32) :
    (g.store x y color).picture c r = if c = x ∧ r = y then color else g.picture c r :=
  update_cell hc hx g.fb r y color

/-- What the loops need to know of a store into a picture whose rows have `stride` places. -/
structure Stores {β : Type} (store : β → Nat → Nat → UInt32 → β) (picture : β → Picture)
    (stride : Nat) (keep : β → Prop) : Prop where
  keeps : ∀ b x y color, keep b → keep (store b x y color)
  stored : ∀ b x y color, keep b → x < stride → ∀ c < stride, ∀ r,
    picture (store b x y color) c r = if c = x ∧ r = y then color else picture b c r

section Loops

variable {β : Type} {store : β → Nat → Nat → UInt32 → β} {picture : β → Picture} {stride : Nat}
  {keep : β → Prop} {b : β}

theorem Stores.fill (h : Stores store picture stride keep) (hr : r.Within width height)
    (hstride : width.toNat ≤ stride) (hb : keep b) (color : UInt32) :
    let b' := sweep r.height.toNat r.width.toNat
      (fun yy xx b => store b (r.x.toNat + xx) (r.y + UInt32.ofNat yy).toNat color) b
    keep b' ∧ ∀ c < stride, ∀ y, picture b' c y = if r.Covers c y then color
      else picture b c y := by
  have hwidth := hr.1
  apply sweep_painted picture (fun _ _ => color) hb
  intro yy hyy xx hxx b' hb' _
  rw [Rect.turn_row hr hyy]
  exact ⟨h.keeps _ _ _ _ hb', h.stored _ _ _ _ hb' (by omega)⟩

/-- The copy reads rows that the loops have not reached, so it copies the old picture. -/
theorem Stores.copyUp (h : Stores store picture stride keep) (hr : r.Within width height)
    (hstride : width.toNat ≤ stride) (hb : keep b) {rows distance : UInt32}
    (hrows : rows.toNat + distance.toNat ≤ r.height.toNat) (hdistance : 0 < distance.toNat) :
    let b' := sweep rows.toNat r.width.toNat
      (fun yy xx b => store b (r.x.toNat + xx) (r.y + UInt32.ofNat yy).toNat
        (picture b (r.x.toNat + xx) (r.y + UInt32.ofNat yy + distance).toNat)) b
    keep b' ∧ ∀ c < stride, ∀ y, picture b' c y =
      if Rect.Covers ⟨r.x, r.y, r.width, rows⟩ c y then picture b c (y + distance.toNat)
      else picture b c y := by
  have hwidth := hr.1
  apply sweep_painted picture (fun c y => picture b c (y + distance.toNat)) hb
  intro yy hyy xx hxx b' hb' hpainted
  rw [Rect.turn_row hr (by omega), Rect.source_row hr (by omega),
    hpainted.below (c := r.x.toNat + xx) (r := r.y.toNat + yy + distance.toNat) (by omega)
      (by dsimp only; omega)]
  refine ⟨h.keeps _ _ _ _ hb', fun c hc y => ?_⟩
  rw [h.stored _ _ _ _ hb' (by omega) c hc y]
  refine ite_congr rfl (fun hcell => ?_) fun _ => rfl
  rw [hcell.1, hcell.2]

end Loops

/-! ## Scrolling in two steps -/

theorem Rect.clipped_of_within (hr : r.Within width height) (x y : Nat) :
    r.Clipped width height x y ↔ r.Covers x y := by
  obtain ⟨hw, hh⟩ := hr
  simp only [Rect.Clipped, Rect.Covers]
  omega

/-- The rows that stay are copied up, the rows that come in are filled. -/
theorem scrollAreaUp_of_copied (hr : r.Within width height) (hpixels : pixels < r.height)
    (fillColor : UInt32) (p : Picture) (x y : Nat) :
    fillArea ⟨r.x, r.y + (r.height - pixels), r.width, pixels⟩ width height fillColor
        (fun x y => if Rect.Covers ⟨r.x, r.y, r.width, r.height - pixels⟩ x y
          then p x (y + pixels.toNat) else p x y) x y =
      scrollAreaUp r width height pixels fillColor p x y := by
  have hlt := UInt32.lt_iff_toNat_lt.mp hpixels
  have hrows := UInt32.toNat_sub_of_le _ _ (UInt32.le_of_lt hpixels)
  have hheight := height.toNat_lt
  obtain ⟨hw, hh⟩ := hr
  have hy : (r.y + (r.height - pixels)).toNat = r.y.toNat + (r.height.toNat - pixels.toNat) := by
    rw [UInt32.toNat_add, hrows, Nat.mod_eq_of_lt (by omega)]
  have hcomesIn : Rect.Clipped ⟨r.x, r.y + (r.height - pixels), r.width, pixels⟩ width height x y ↔
      r.Covers x y ∧ ¬r.Covers x (y + pixels.toNat) := by
    simp only [Rect.Clipped, Rect.Covers, hy]
    omega
  have hstays : Rect.Covers ⟨r.x, r.y, r.width, r.height - pixels⟩ x y ↔
      r.Covers x y ∧ r.Covers x (y + pixels.toNat) := by
    simp only [Rect.Covers, hrows]
    omega
  have hwithin := Rect.clipped_of_within (r := r) ⟨hw, hh⟩
  simp only [fillArea, scrollAreaUp, hcomesIn, hstays, hwithin]
  by_cases hin : r.Covers x y
  · by_cases hsource : r.Covers x (y + pixels.toNat) <;> simp [hin, hsource]
  · simp [hin]

theorem scrollAreaUp_of_all (hpixels : pixels ≥ r.height) (fillColor : UInt32) (p : Picture)
    (x y : Nat) :
    fillArea r width height fillColor p x y =
      scrollAreaUp r width height pixels fillColor p x y := by
  have hpixels := UInt32.le_iff_toNat_le.mp hpixels
  by_cases hin : r.Clipped width height x y
  · have hsource : ¬r.Clipped width height x (y + pixels.toNat) := by
      simp only [Rect.Clipped, Rect.Covers] at hin ⊢
      omega
    simp [fillArea, scrollAreaUp, hin, hsource]
  · simp [fillArea, scrollAreaUp, hin]

/-- Only the points of the clipped rectangle matter. -/
theorem scrollAreaUp_congr {q : Rect}
    (h : ∀ x y, r.Clipped width height x y ↔ q.Clipped width height x y) (pixels fillColor : UInt32)
    (p : Picture) (x y : Nat) : scrollAreaUp r width height pixels fillColor p x y =
      scrollAreaUp q width height pixels fillColor p x y := by
  simp only [scrollAreaUp, h]

/-- Scrolling by nothing, or a rectangle of which nothing is left, changes nothing. -/
theorem scrollAreaUp_none (h : pixels = 0 ∨ ∀ x y, ¬r.Clipped width height x y) (fillColor : UInt32)
    (p : Picture) (x y : Nat) : scrollAreaUp r width height pixels fillColor p x y = p x y := by
  unfold scrollAreaUp
  rcases h with hzero | hnone
  · subst hzero
    rw [UInt32.toNat_zero, Nat.add_zero]
    split_ifs <;> rfl
  · rw [if_neg (hnone x y)]

theorem Stores.scrollUp {β : Type} {store : β → Nat → Nat → UInt32 → β} {picture : β → Picture}
    {stride : Nat} {keep : β → Prop} {b : β} (h : Stores store picture stride keep)
    (hr : r.Within width height) (hstride : width.toNat ≤ stride) (hb : keep b)
    (hpixels : pixels ≠ 0) (hlt : pixels < r.height) (fillColor : UInt32) :
    let b' := sweep (r.height - pixels).toNat r.width.toNat
      (fun yy xx b => store b (r.x.toNat + xx) (r.y + UInt32.ofNat yy).toNat
        (picture b (r.x.toNat + xx) (r.y + UInt32.ofNat yy + pixels).toNat)) b
    keep b' ∧ ∀ x < stride, ∀ y,
      fillArea ⟨r.x, r.y + (r.height - pixels), r.width, pixels⟩ width height fillColor
        (picture b') x y = scrollAreaUp r width height pixels fillColor (picture b) x y := by
  have hpos : 0 < pixels.toNat := Nat.pos_of_ne_zero fun h => hpixels (UInt32.toNat_inj.mp h)
  have hrows := UInt32.toNat_sub_of_le _ _ (UInt32.le_of_lt hlt)
  have hlt' := UInt32.lt_iff_toNat_lt.mp hlt
  obtain ⟨hkeep, hcopied⟩ := h.copyUp hr hstride hb
    (show (r.height - pixels).toNat + pixels.toNat ≤ _ by omega) hpos
  refine ⟨hkeep, fun x hx y => ?_⟩
  rw [← scrollAreaUp_of_copied hr hlt]
  simp only [fillArea, hcopied x hx y]

/-! ## Surfaces -/

theorem stride_of_valid (h : surfaceValid s = true) : s.width.toNat ≤ s.stride.toNat := by
  simp only [surfaceValid, ge_iff_le, decide_eq_true_eq] at h
  exact UInt32.le_iff_toNat_le.mp h.2.2.2

theorem Surface.stores (s : Surface) :
    Stores Surface.store Surface.picture s.stride.toNat (SameShape s) where
  keeps _ _ _ _ h := h.trans ⟨rfl, rfl, rfl, rfl⟩
  stored s' x y color h hx c hc r := by
    rw [← h.stride] at hx hc
    exact Surface.store_picture hx hc y r color

/-- Marking damage changes neither the shape nor the picture. -/
theorem surfaceMarkDirty_keeps (s : Surface) (x y width height : UInt32) :
    SameShape s (surfaceMarkDirty s x y width height) ∧
      (surfaceMarkDirty s x y width height).picture = s.picture := by
  unfold surfaceMarkDirty
  dsimp only
  split_ifs <;> exact ⟨⟨rfl, rfl, rfl, rfl⟩, rfl⟩

/-- What an operation made of a surface: the shape is kept, the picture is the given one, and
    every point whose color is another one is damaged. -/
structure Redraws (s s' : Surface) (p : Picture) : Prop where
  shape : SameShape s s'
  shows : ∀ x < s.stride.toNat, ∀ y, s'.picture x y = p x y
  damaged : ∀ x < s.stride.toNat, ∀ y, s'.picture x y ≠ s.picture x y → s'.DamagedAt x y

theorem Redraws.refl (h : ∀ x < s.stride.toNat, ∀ y, s.picture x y = p x y) : Redraws s s p :=
  ⟨.refl s, h, fun _ _ _ hne => absurd rfl hne⟩

theorem Redraws.congr {s' : Surface} {q : Picture} (h : Redraws s s' p)
    (hpq : ∀ x y, p x y = q x y) : Redraws s s' q :=
  ⟨h.shape, fun x hx y => (h.shows x hx y).trans (hpq x y), h.damaged⟩

/-- A block was drawn over, and then it was marked. -/
theorem Redraws.mark {s' : Surface} (hvalid : surfaceValid s = true)
    (hr : r.Within s.width s.height) (hshape : SameShape s s')
    (hshows : ∀ x < s.stride.toNat, ∀ y, s'.picture x y = p x y)
    (hrest : ∀ x y, ¬r.Covers x y → p x y = s.picture x y) :
    Redraws s (surfaceMarkDirty s' r.x r.y r.width r.height) p := by
  obtain ⟨hmark, hpicture⟩ := surfaceMarkDirty_keeps s' r.x r.y r.width r.height
  refine ⟨hshape.trans hmark, fun x hx y => ?_, fun x hx y hne => ?_⟩
  · rw [hpicture, hshows x hx y]
  · rw [hpicture, hshows x hx y] at hne
    apply surfaceMarkDirty_covers (hshape.valid.trans hvalid)
    · rwa [hshape.width, hshape.height]
    · by_contra hout
      exact hne (hrest x y hout)

theorem Rect.clip_clipped (hx : r.x < width) (hy : r.y < height) (x y : Nat) :
    (r.clip width height).Clipped width height x y ↔ r.Clipped width height x y := by
  have hr : (r.clip width height).Within width height := Rect.clip_within hx hy
  rw [Rect.clipped_of_within hr, Rect.clip_covers hx hy]

theorem Rect.not_clipped_of_empty (hx : r.x < width) (hy : r.y < height)
    (h : (r.clip width height).width = 0 ∨ (r.clip width height).height = 0) (x y : Nat) :
    ¬r.Clipped width height x y := by
  rw [← Rect.clip_covers hx hy]
  rintro ⟨hcolumn, hrow⟩
  rcases h with h | h
  · rw [h, UInt32.toNat_zero] at hcolumn
    omega
  · rw [h, UInt32.toNat_zero] at hrow
    omega

theorem surfaceFillRect_redraws (hvalid : surfaceValid s = true) (r : Rect) (color : UInt32) :
    Redraws s (surfaceFillRect s r.x r.y r.width r.height color)
      (fillArea r s.width s.height color s.picture) := by
  unfold surfaceFillRect
  by_cases hout : surfaceValid s = false ∨ r.x ≥ s.width ∨ r.y ≥ s.height
  · rw [if_pos hout]
    apply Redraws.refl
    intro x _ y
    rw [hvalid] at hout
    simp only [fillArea, Rect.not_clipped (hout.resolve_left (by decide)), if_false]
  rw [if_neg hout]
  push Not at hout
  have hx := UInt32.not_le.mp hout.2.1
  have hy := UInt32.not_le.mp hout.2.2
  dsimp only
  split
  · rename_i hnone
    apply Redraws.refl
    intro x _ y
    simp only [fillArea, Rect.not_clipped_of_empty hx hy hnone, if_false]
  · have hr : (r.clip s.width s.height).Within s.width s.height := Rect.clip_within hx hy
    obtain ⟨hshape, hpicture⟩ := s.stores.fill hr (stride_of_valid hvalid) (.refl s) color
    apply Redraws.mark hvalid hr hshape
    · intro x hx' y
      rw [hpicture x hx' y]
      simp only [Rect.clip_covers hx hy, fillArea]
    · intro x y hcov
      rw [Rect.clip_covers hx hy] at hcov
      simp only [fillArea, hcov, if_false]

theorem surfaceScrollRectUp_redraws (hvalid : surfaceValid s = true) (r : Rect)
    (pixels fillColor : UInt32) :
    Redraws s (surfaceScrollRectUp s r.x r.y r.width r.height pixels fillColor)
      (scrollAreaUp r s.width s.height pixels fillColor s.picture) := by
  unfold surfaceScrollRectUp
  by_cases hout : surfaceValid s = false ∨ pixels = 0 ∨ r.x ≥ s.width ∨ r.y ≥ s.height
  · rw [if_pos hout]
    rw [hvalid] at hout
    apply Redraws.refl
    intro x _ y
    exact (scrollAreaUp_none ((hout.resolve_left (by decide)).imp_right Rect.not_clipped)
      _ _ _ _).symm
  rw [if_neg hout]
  push Not at hout
  obtain ⟨-, hpixels, hx, hy⟩ := hout
  have hx := UInt32.not_le.mp hx
  have hy := UInt32.not_le.mp hy
  have hr : (r.clip s.width s.height).Within s.width s.height := Rect.clip_within hx hy
  dsimp only
  split
  · rename_i hnone
    apply Redraws.refl
    intro x _ y
    exact (scrollAreaUp_none (.inr (Rect.not_clipped_of_empty hx hy hnone)) _ _ _ _).symm
  have hclip := scrollAreaUp_congr (Rect.clip_clipped hx hy) pixels fillColor s.picture
  split
  · rename_i hall
    apply (surfaceFillRect_redraws hvalid (r.clip s.width s.height) fillColor).congr
    intro x y
    rw [scrollAreaUp_of_all hall, hclip]
  · rename_i hpart
    have hlt : pixels < (r.clip s.width s.height).height := UInt32.not_le.mp hpart
    obtain ⟨hshape, hscrolled⟩ := s.stores.scrollUp hr (stride_of_valid hvalid) (.refl s) hpixels
      hlt fillColor
    have hfill := surfaceFillRect_redraws (hshape.valid.trans hvalid)
      ⟨r.x, r.y + ((r.clip s.width s.height).height - pixels), (r.clip s.width s.height).width,
        pixels⟩ fillColor
    apply Redraws.mark hvalid hr (hshape.trans hfill.shape)
    · intro x hxs y
      rw [← hclip, ← hscrolled x hxs y]
      refine (hfill.shows x (by rwa [hshape.stride]) y).trans ?_
      rw [hshape.width, hshape.height]
      rfl
    · intro x y hcov
      rw [Rect.clip_covers hx hy] at hcov
      simp only [scrollAreaUp, hcov, if_false]

/-! ## The framebuffer's functions -/

theorem Gop.stores (g : Gop) : Stores Gop.store Gop.picture g.pitchPixels.toNat (SameMode g) where
  keeps _ _ _ _ h := h.trans ⟨rfl, rfl, rfl, rfl⟩
  stored g' x y color h hx c hc r := by
    rw [← h.pitch] at hx hc
    exact Gop.store_picture hx hc y r color

theorem Gop.width_le (husable : g.usable = true) :
    g.width.toNat ≤ g.pitchPixels.toNat := UInt32.le_iff_toNat_le.mp (g.width_le_pitch husable)

/-- What an operation made of the framebuffer. -/
structure Repainted (g g' : Gop) (p : Picture) : Prop where
  mode : SameMode g g'
  shows : ∀ x < g.pitchPixels.toNat, ∀ y, g'.picture x y = p x y

theorem gopFillRect_repainted (husable : g.usable = true) (r : Rect) (color : UInt32) :
    Repainted g (gopFillRect g r.x r.y r.width r.height color)
      (fillArea r g.width g.height color g.picture) := by
  unfold gopFillRect
  simp only [if_gt_eq_minimum]
  by_cases hout : g.usable = false ∨ r.x ≥ g.width ∨ r.y ≥ g.height
  · rw [if_pos hout]
    refine ⟨.refl g, fun x _ y => ?_⟩
    rw [husable] at hout
    simp only [fillArea, Rect.not_clipped (hout.resolve_left (by decide)), if_false]
  · rw [if_neg hout]
    push Not at hout
    have hx := UInt32.not_le.mp hout.2.1
    have hy := UInt32.not_le.mp hout.2.2
    have hr : (r.clip g.width g.height).Within g.width g.height := Rect.clip_within hx hy
    obtain ⟨hmode, hpicture⟩ := g.stores.fill hr (Gop.width_le husable) (.refl g) color
    refine ⟨hmode, fun x hx' y => (hpicture x hx' y).trans ?_⟩
    simp only [Rect.clip_covers hx hy, fillArea]

theorem gopScrollRectUp_repainted (husable : g.usable = true) (r : Rect)
    (pixels fillColor : UInt32) :
    Repainted g (gopScrollRectUp g r.x r.y r.width r.height pixels fillColor)
      (scrollAreaUp r g.width g.height pixels fillColor g.picture) := by
  unfold gopScrollRectUp
  simp only [if_gt_eq_minimum]
  by_cases hout : g.usable = false ∨ pixels = 0 ∨ r.x ≥ g.width ∨ r.y ≥ g.height
  · rw [if_pos hout]
    rw [husable] at hout
    refine ⟨.refl g, fun x _ y => ?_⟩
    exact (scrollAreaUp_none ((hout.resolve_left (by decide)).imp_right Rect.not_clipped)
      _ _ _ _).symm
  rw [if_neg hout]
  push Not at hout
  obtain ⟨-, hpixels, hx, hy⟩ := hout
  have hx := UInt32.not_le.mp hx
  have hy := UInt32.not_le.mp hy
  have hr : (r.clip g.width g.height).Within g.width g.height := Rect.clip_within hx hy
  split
  · rename_i hnone
    refine ⟨.refl g, fun x _ y => ?_⟩
    exact (scrollAreaUp_none (.inr (Rect.not_clipped_of_empty hx hy hnone)) _ _ _ _).symm
  have hclip := scrollAreaUp_congr (Rect.clip_clipped hx hy) pixels fillColor g.picture
  split
  · rename_i hall
    have hfill := gopFillRect_repainted husable (r.clip g.width g.height) fillColor
    refine ⟨hfill.mode, fun x hxs y => (hfill.shows x hxs y).trans ?_⟩
    rw [scrollAreaUp_of_all hall, hclip]
  · rename_i hpart
    have hlt : pixels < (r.clip g.width g.height).height := UInt32.not_le.mp hpart
    obtain ⟨hmode, hscrolled⟩ := g.stores.scrollUp hr (Gop.width_le husable) (.refl g) hpixels
      hlt fillColor
    have hfill := gopFillRect_repainted (hmode.usable.trans husable)
      ⟨r.x, r.y + ((r.clip g.width g.height).height - pixels), (r.clip g.width g.height).width,
        pixels⟩ fillColor
    refine ⟨hmode.trans hfill.mode, fun x hxs y => ?_⟩
    rw [← hclip, ← hscrolled x hxs y]
    refine (hfill.shows x (by rwa [hmode.pitch]) y).trans ?_
    rw [hmode.width, hmode.height]
    rfl

/-! ## The two functions -/

/-- Surface and framebuffer show the same image. -/
structure SameImage (s : Surface) (g : Gop) : Prop where
  drawable : surfaceValid s = g.usable
  width : s.width = g.width
  height : s.height = g.height
  shows : ∀ x < s.width.toNat, ∀ y < s.height.toNat, s.picture x y = g.picture x y

/-- Scrolling in place gives the picture that a copy of the old one would give, on
    surfaces and on framebuffers, and so both give the same image; on a surface every point
    that changed is damaged. -/
theorem scroll_rect_up_copies (s : Surface) (g : Gop) (x y width height pixels fillColor : UInt32) :
    let s' := surfaceScrollRectUp s x y width height pixels fillColor
    let g' := gopScrollRectUp g x y width height pixels fillColor
    (surfaceValid s = true → Redraws s s'
      (scrollAreaUp ⟨x, y, width, height⟩ s.width s.height pixels fillColor s.picture)) ∧
    (surfaceValid s = false → s' = s) ∧
    (g.usable = true → Repainted g g'
      (scrollAreaUp ⟨x, y, width, height⟩ g.width g.height pixels fillColor g.picture)) ∧
    (g.usable = false → g' = g) ∧
    (SameImage s g → SameImage s' g') := by
  have hsurface := fun hvalid =>
    surfaceScrollRectUp_redraws (s := s) hvalid ⟨x, y, width, height⟩ pixels fillColor
  have hgop := fun husable =>
    gopScrollRectUp_repainted (g := g) husable ⟨x, y, width, height⟩ pixels fillColor
  have hinvalid : surfaceValid s = false →
      surfaceScrollRectUp s x y width height pixels fillColor = s := fun h => if_pos (.inl h)
  have hunusable : g.usable = false →
      gopScrollRectUp g x y width height pixels fillColor = g := fun h => if_pos (.inl h)
  refine ⟨hsurface, hinvalid, hgop, hunusable, fun himage => ?_⟩
  by_cases hvalid : surfaceValid s = true
  · obtain ⟨hshape, hshows, -⟩ := hsurface hvalid
    have husable := himage.drawable.symm.trans hvalid
    obtain ⟨hmode, hpaints⟩ := hgop husable
    refine ⟨?_, ?_, ?_, fun px hpx py hpy => ?_⟩
    · rw [hshape.valid, hmode.usable, himage.drawable]
    · rw [hshape.width, hmode.width, himage.width]
    · rw [hshape.height, hmode.height, himage.height]
    · rw [hshape.width] at hpx
      rw [hshape.height] at hpy
      have hstride := stride_of_valid hvalid
      have hpitch := Gop.width_le husable
      rw [hshows px (by omega) py, hpaints px (by rw [← himage.width] at hpitch; omega) py,
        ← himage.width, ← himage.height]
      unfold scrollAreaUp
      -- the point that is read lies in the area, where the two images agree
      split_ifs with hin hsource
      · exact himage.shows px hpx _ hsource.2.2
      · rfl
      · exact himage.shows px hpx py hpy
  · have hvalid : surfaceValid s = false := by simpa using hvalid
    rw [hinvalid hvalid, hunusable (himage.drawable.symm.trans hvalid)]
    exact himage

end ArgusOs.Display
