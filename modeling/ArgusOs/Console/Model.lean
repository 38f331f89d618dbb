/-
  The text console: `console.c`.

  The console draws glyphs in cells of `cell_w` by `cell_h` pixels inside a region of its target,
  which is a surface or, without one, the framebuffer. `State` holds the static variables of
  the file; two of them are tied together for good: `framebuffer_mode` is set only after
  `gop_init` succeeded and with the cells of the chosen scale. `gopRgb` is `gop_rgb` of the
  framebuffer's pixel format. What is written to the firmware's text output while there is no
  framebuffer is a list of calls.
-/
import ArgusOs.Display.Scrolling

namespace ArgusOs.Console

open Lib Display

/-! ## The target -/

/-- `target_surface`, and the framebuffer that is drawn on where it is null. -/
structure Target where
  surface : Option Surface
  gop : Gop

variable (t : Target)

def Target.fillRect (x y width height color : UInt32) : Target :=
  match t.surface with
  | some s => { t with surface := some (surfaceFillRect s x y width height color) }
  | none => { t with gop := gopFillRect t.gop x y width height color }

def Target.scrollRectUp (x y width height pixels fillColor : UInt32) : Target :=
  match t.surface with
  | some s => { t with surface := some (surfaceScrollRectUp s x y width height pixels fillColor) }
  | none => { t with gop := gopScrollRectUp t.gop x y width height pixels fillColor }

def Target.width (t : Target) : UInt32 := t.surface.elim t.gop.width Surface.width

def Target.height (t : Target) : UInt32 := t.surface.elim t.gop.height Surface.height

def Target.picture (t : Target) : Picture := t.surface.elim t.gop.picture Surface.picture

def Target.Drawable : Prop := t.surface.elim t.gop.usable surfaceValid = true

/-- What an operation made of a target of which `p` is to be shown. -/
structure Paints (t t' : Target) (p : Picture) : Prop where
  drawable : t'.Drawable
  width : t'.width = t.width
  height : t'.height = t.height
  shows : ∀ x < t.width.toNat, ∀ y, t'.picture x y = p x y

theorem Paints.trans {t t' t'' : Target} {p q : Picture} (h : Paints t t' p)
    (h' : Paints t' t'' q) : Paints t t'' q :=
  ⟨h'.drawable, h'.width.trans h.width, h'.height.trans h.height, fun x hx y =>
    h'.shows x (by rwa [h.width]) y⟩

theorem Paints.congr {t t' : Target} {p q : Picture} (h : Paints t t' p)
    (hpq : ∀ x < t.width.toNat, ∀ y, p x y = q x y) : Paints t t' q :=
  ⟨h.drawable, h.width, h.height, fun x hx y => (h.shows x hx y).trans (hpq x hx y)⟩

variable {p : Picture}

theorem Paints.within {t t' : Target} (h : Paints t t' p) {r : Rect}
    (hr : r.Within t.width t.height) : r.Within t'.width t'.height := by
  rwa [h.width, h.height]

theorem Target.paints_surface {s s' : Surface} {g : Gop} (hvalid : surfaceValid s = true)
    (h : Redraws s s' p) : Paints ⟨some s, g⟩ ⟨some s', g⟩ p :=
  ⟨h.shape.valid.trans hvalid, h.shape.width, h.shape.height, fun x hx y =>
    h.shows x (Nat.lt_of_lt_of_le hx (stride_of_valid hvalid)) y⟩

theorem Target.paints_gop {g g' : Gop} (husable : g.usable = true) (h : Repainted g g' p) :
    Paints ⟨none, g⟩ ⟨none, g'⟩ p :=
  ⟨h.mode.usable.trans husable, h.mode.width, h.mode.height, fun x hx y =>
    h.shows x (Nat.lt_of_lt_of_le hx (Gop.width_le husable)) y⟩

theorem Target.fillRect_paints {t : Target} (h : t.Drawable) (r : Rect) (color : UInt32) :
    Paints t (t.fillRect r.x r.y r.width r.height color)
      (fillArea r t.width t.height color t.picture) := by
  obtain ⟨_ | s, g⟩ := t
  · exact Target.paints_gop h (gopFillRect_repainted h r color)
  · exact Target.paints_surface h (surfaceFillRect_redraws h r color)

theorem Target.scrollRectUp_paints {t : Target} (h : t.Drawable) (r : Rect)
    (pixels fillColor : UInt32) :
    Paints t (t.scrollRectUp r.x r.y r.width r.height pixels fillColor)
      (scrollAreaUp r t.width t.height pixels fillColor t.picture) := by
  obtain ⟨_ | s, g⟩ := t
  · exact Target.paints_gop h (gopScrollRectUp_repainted h r pixels fillColor)
  · exact Target.paints_surface h (surfaceScrollRectUp_redraws h r pixels fillColor)

theorem Target.fillRect_usable (x y width height color : UInt32) :
    (t.fillRect x y width height color).gop.usable = t.gop.usable := by
  obtain ⟨_ | s, g⟩ := t
  · by_cases hu : g.usable = true
    · exact (gopFillRect_repainted hu ⟨x, y, width, height⟩ color).mode.usable
    · exact congrArg Gop.usable (if_pos (.inl (by simpa using hu)))
  · rfl

theorem Target.scrollRectUp_usable (x y width height pixels fillColor : UInt32) :
    (t.scrollRectUp x y width height pixels fillColor).gop.usable = t.gop.usable := by
  obtain ⟨_ | s, g⟩ := t
  · by_cases hu : g.usable = true
    · exact (gopScrollRectUp_repainted hu ⟨x, y, width, height⟩ pixels fillColor).mode.usable
    · exact congrArg Gop.usable (if_pos (.inl (by simpa using hu)))
  · rfl

/-! ## The console -/

/-- Calls of the firmware's text output. -/
inductive FirmwareCall where
  | outputString (c : UInt16)
  | setAttribute (index : Nat)
  | clearScreen
  deriving DecidableEq, Repr

structure State where
  firmware : Option (List FirmwareCall)
  framebufferMode : Bool
  fg : UInt32
  bg : UInt32
  cursorX : UInt32
  cursorY : UInt32
  scale : UInt32
  cellW : UInt32
  cellH : UInt32
  regionX : UInt32
  regionY : UInt32
  regionW : UInt32
  regionH : UInt32
  target : Target
  scaled : framebufferMode = true → (scale = 1 ∨ scale = 2) ∧ cellW = 6 * scale ∧ cellH = 9 * scale
  usable : framebufferMode = true → target.gop.usable = true

variable (k : State)

def State.callFirmware (calls : List FirmwareCall) : State :=
  { k with firmware := k.firmware.map (· ++ calls) }

def fallbackChar (c : UInt8) : State :=
  if c = 10 then k.callFirmware [.outputString 13, .outputString 10]
  else k.callFirmware [.outputString c.toUInt16]

def State.fillRect (k : State) (x y width height color : UInt32) : State :=
  { k with
    target := k.target.fillRect x y width height color
    usable := fun h => (k.target.fillRect_usable ..).trans (k.usable h) }

def State.scrollRectUp (k : State) (x y width height pixels fillColor : UInt32) : State :=
  { k with
    target := k.target.scrollRectUp x y width height pixels fillColor
    usable := fun h => (k.target.scrollRectUp_usable ..).trans (k.usable h) }

def drawGlyph (c : UInt8) (x y : UInt32) : State :=
  sweep 7 5
    (fun row col k =>
      if (font5x7Row c row).toNat.testBit (4 - col) then
        k.fillRect (x + UInt32.ofNat col * k.scale) (y + UInt32.ofNat row * k.scale)
          k.scale k.scale k.fg
      else k)
    (k.fillRect x y k.cellW k.cellH k.bg)

def State.moveTo (x y : UInt32) : State := { k with cursorX := x, cursorY := y }

/-- The second half of `ensure_cursor_visible`. -/
def ensureRowVisible : State :=
  if k.cursorY + k.cellH > k.regionY + k.regionH then
    (k.scrollRectUp k.regionX k.regionY k.regionW k.regionH k.cellH k.bg).moveTo k.cursorX
      (k.regionY + k.regionH - k.cellH)
  else k

def ensureCursorVisible : State :=
  ensureRowVisible
    (if k.cursorX + k.cellW > k.regionX + k.regionW then k.moveTo k.regionX (k.cursorY + k.cellH)
    else k)

/-- `palette`. -/
def palette : List (UInt8 × UInt8 × UInt8) :=
  [(0, 0, 0), (0, 0, 170), (0, 170, 0), (0, 170, 170), (170, 0, 0), (170, 0, 170), (170, 85, 0),
   (170, 170, 170), (85, 85, 85), (85, 85, 255), (85, 255, 85), (85, 255, 255), (255, 85, 85),
   (255, 85, 255), (255, 255, 85), (255, 255, 255)]

section Setup

variable (gopRgb : UInt8 → UInt8 → UInt8 → UInt32)

def consoleSetColor (k : State) (index : Nat) : State :=
  let index := index % 16
  if k.framebufferMode = false then k.callFirmware [.setAttribute index]
  else
    let color := palette.getD index (0, 0, 0)
    { k with fg := gopRgb color.1 color.2.1 color.2.2 }

def consoleClear : State :=
  let k := k.moveTo k.regionX k.regionY
  if k.framebufferMode = false then k.callFirmware [.clearScreen]
  else k.fillRect k.regionX k.regionY k.regionW k.regionH k.bg

theorem gopFill_mode (g : Gop) (packed : UInt32) : SameMode g (gopFill g packed) := by
  unfold gopFill
  split
  · exact .refl g
  · rename_i hu
    have hr : Rect.Within ⟨0, 0, g.width, g.height⟩ g.width g.height := by simp [Rect.Within]
    exact (g.stores.fill hr (Gop.width_le (by simpa using hu)) (.refl g) packed).1

def screenScale (g : Gop) : UInt32 := if g.width ≥ 800 ∧ g.height ≥ 600 then 2 else 1

/-- The static variables as `console_init` sets them for the whole screen. -/
def State.onScreen (k : State) (out : Option (List FirmwareCall)) (g : Gop)
    (hg : g.usable = true) : State :=
  { k with
    firmware := out, framebufferMode := true, target := ⟨none, g⟩
    scale := screenScale g, cellW := 6 * screenScale g, cellH := 9 * screenScale g
    regionX := 0, regionY := 0, regionW := g.width, regionH := g.height
    cursorX := 0, cursorY := 0, bg := gopRgb 0 0 0
    scaled := fun _ => ⟨by unfold screenScale; split_ifs <;> simp, rfl, rfl⟩
    usable := fun _ => hg }

def State.fillScreen : State :=
  { k with
    target := { k.target with gop := gopFill k.target.gop k.bg }
    usable := fun h => (gopFill_mode ..).usable.trans (k.usable h) }

/-- `g` is what `gop_init` found and `out` the firmware's text output; the static variables have
    some values already. -/
def consoleInit (k : State) (out : Option (List FirmwareCall)) (g : Gop) : State × Bool :=
  if hg : g.usable = true then
    if g.width < 6 * screenScale g ∨ g.height < 9 * screenScale g then
      ({ k with
          firmware := out, framebufferMode := false, target := ⟨none, g⟩
          scale := screenScale g, cellW := 6 * screenScale g, cellH := 9 * screenScale g
          scaled := fun h => absurd h (by decide)
          usable := fun h => absurd h (by decide) }, false)
    else ((consoleSetColor gopRgb (k.onScreen gopRgb out g hg) 10).fillScreen, true)
  else
    ({ k with
        firmware := out, framebufferMode := false, target := ⟨none, g⟩
        scaled := fun h => absurd h (by decide)
        usable := fun h => absurd h (by decide) }, false)

/-- The end of `console_set_region` and of `console_set_surface_region`, after the checks. -/
def State.enterRegion (k : State) (surface : Option Surface) (x y width height : UInt32)
    (foreground background : UInt8 × UInt8 × UInt8) : State × Bool :=
  let k : State :=
    { k with
      target := { k.target with surface }
      regionX := x, regionY := y
      regionW := width - width % k.cellW, regionH := height - height % k.cellH
      usable := k.usable }
  if k.regionW < k.cellW ∨ k.regionH < k.cellH then (k, false)
  else
    (consoleClear
      { k with
        fg := gopRgb foreground.1 foreground.2.1 foreground.2.2
        bg := gopRgb background.1 background.2.1 background.2.2 }, true)

def consoleSetRegion (k : State) (x y width height : UInt32)
    (foreground background : UInt8 × UInt8 × UInt8) : State × Bool :=
  let g := k.target.gop
  if k.framebufferMode = false ∨ x ≥ g.width ∨ y ≥ g.height ∨ width > g.width - x ∨
      height > g.height - y ∨ width < k.cellW ∨ height < k.cellH then (k, false)
  else k.enterRegion gopRgb none x y width height foreground background

def consoleSetSurfaceRegion (k : State) (s : Surface) (x y width height : UInt32)
    (foreground background : UInt8 × UInt8 × UInt8) : State × Bool :=
  if k.framebufferMode = false ∨ surfaceValid s = false ∨ x ≥ s.width ∨ y ≥ s.height ∨
      width > s.width - x ∨ height > s.height - y ∨ width < k.cellW ∨ height < k.cellH then
    (k, false)
  else k.enterRegion gopRgb (some s) x y width height foreground background

end Setup

/-! ## Output -/

/-- The end of `console_putc`: a character that is drawn. -/
def printGlyph (c : UInt8) : State :=
  let k := ensureCursorVisible k
  let k := drawGlyph k c k.cursorX k.cursorY
  ensureCursorVisible (k.moveTo (k.cursorX + k.cellW) k.cursorY)

/-- Where `'\b'` moves the cursor. -/
def stepBack : State :=
  if k.cursorX ≥ k.regionX + k.cellW then k.moveTo (k.cursorX - k.cellW) k.cursorY
  else if k.cursorY ≥ k.regionY + k.cellH then
    let x := k.regionX + k.regionW / k.cellW * k.cellW
    k.moveTo (if x ≥ k.regionX + k.cellW then x - k.cellW else x) (k.cursorY - k.cellH)
  else k

def consolePutc (c : UInt8) : State :=
  if k.framebufferMode = false then fallbackChar k c
  else if c = 13 then k.moveTo k.regionX k.cursorY
  else if c = 10 then ensureCursorVisible (k.moveTo k.regionX (k.cursorY + k.cellH))
  else if c = 9 then (List.range 4).foldl (fun k _ => printGlyph k 32) k
  else if c = 8 then
    let k := stepBack k
    k.fillRect k.cursorX k.cursorY k.cellW k.cellH k.bg
  else printGlyph k c

def consoleWrite (text : List UInt8) : State := text.foldl consolePutc k

end ArgusOs.Console
