/-
  The compositor: `compositor.c`, and the framebuffer of `gop.c` it draws on.

  The windows are kept in the order they were added, so a window's id is its position;
  `z_order` lists ids from the bottom to the top. Surfaces are named by an index type `ι`, the
  pointers of the source, and are passed as the function that finds them. Pending damage is a
  list of at most sixteen rectangles: a rectangle that touches one of them is joined with it,
  and one too many turns the whole list into the full screen.
-/
import ArgusOs.Display.Surface

namespace ArgusOs.Display

open Lib Function

/-! ## Framebuffer -/

/-- The part of `argus_gop_t` that drawing uses; `gop_init` accepts no mode whose rows are
    longer than its pitch. -/
structure Gop where
  fb : Nat → UInt32
  width : UInt32
  height : UInt32
  pitchPixels : UInt32
  usable : Bool
  width_le_pitch : usable = true → width ≤ pitchPixels

def gopGetpixel (g : Gop) (x y : UInt32) : UInt32 :=
  if g.usable = false ∨ x ≥ g.width ∨ y ≥ g.height then 0
  else g.fb (y.toNat * g.pitchPixels.toNat + x.toNat)

def gopPutpixel (g : Gop) (x y packed : UInt32) : Gop :=
  if g.usable = false ∨ x ≥ g.width ∨ y ≥ g.height then g
  else { g with fb := update g.fb (y.toNat * g.pitchPixels.toNat + x.toNat) packed }

/-- Only the pixels of the framebuffer may differ. -/
structure SameMode (g g' : Gop) : Prop where
  width : g'.width = g.width
  height : g'.height = g.height
  pitch : g'.pitchPixels = g.pitchPixels
  usable : g'.usable = g.usable

theorem SameMode.refl (g : Gop) : SameMode g g := ⟨rfl, rfl, rfl, rfl⟩

theorem SameMode.trans {g g' g'' : Gop} (h : SameMode g g') (h' : SameMode g' g'') :
    SameMode g g'' :=
  ⟨h'.width.trans h.width, h'.height.trans h.height, h'.pitch.trans h.pitch,
    h'.usable.trans h.usable⟩

/-! ## Windows -/

def argusCompositorMaxWindows : Nat := 8
def argusCompositorMaxDamage : Nat := 16

/-- `argus_compositor_window_t`. -/
structure Window (ι : Type) where
  surface : ι
  x : UInt32
  y : UInt32
  visible : Bool

structure Compositor (ι : Type) where
  width : UInt32
  height : UInt32
  workHeight : UInt32
  background : UInt32
  windows : List (Window ι)
  zOrder : List Nat
  panel : Option ι
  panelY : UInt32
  damage : List Rect
  frameCount : UInt64
  damagePixels : UInt64
  lastDamageCount : UInt32

variable {ι : Type}

def compositorInit (width height workHeight background : UInt32) : Option (Compositor ι) :=
  if width = 0 ∨ height = 0 ∨ workHeight = 0 ∨ workHeight > height then none
  else some ⟨width, height, workHeight, background, [], [], none, 0, [], 0, 0, 0⟩

/-! ## Damage -/

def rectanglesTouch (left right : Rect) : Bool :=
  left.x.toNat ≤ right.x.toNat + right.width.toNat ∧
  right.x.toNat ≤ left.x.toNat + left.width.toNat ∧
  left.y.toNat ≤ right.y.toNat + right.height.toNat ∧
  right.y.toNat ≤ left.y.toNat + left.height.toNat

/-- The loop of `compositor_damage`: join with the first rectangle touched. -/
def mergeDamage (incoming : Rect) : List Rect → Option (List Rect)
  | [] => none
  | current :: rest =>
    if rectanglesTouch current incoming then
      some (current.join incoming.x incoming.y incoming.width incoming.height :: rest)
    else (mergeDamage incoming rest).map (current :: ·)

variable (c : Compositor ι)

/-- Add a rectangle that has been clipped to the screen. -/
def addDamage (incoming : Rect) : List Rect :=
  match mergeDamage incoming c.damage with
  | some damage => damage
  | none =>
    if c.damage.length = argusCompositorMaxDamage then [⟨0, 0, c.width, c.height⟩]
    else c.damage ++ [incoming]

def compositorDamage (x y width height : UInt32) : Compositor ι :=
  if x ≥ c.width ∨ y ≥ c.height then c
  else
    let width := minimum width (c.width - x)
    let height := minimum height (c.height - y)
    if width = 0 ∨ height = 0 then c
    else { c with damage := addDamage c ⟨x, y, width, height⟩ }

def compositorDamageAll : Compositor ι :=
  { c with damage := [⟨0, 0, c.width, c.height⟩] }

/-! ## Arranging windows -/

/-- A coordinate kept at or below a limit. -/
def confine (value limit : UInt32) : UInt32 := if value > limit then limit else value

variable (surfaces : ι → Surface)

/-- The id of the new window, if it was added. -/
def compositorAddWindow (surface : ι) (x y : UInt32) :
    Compositor ι × Option UInt32 :=
  let s := surfaces surface
  if surfaceValid s = false ∨ c.windows.length ≥ argusCompositorMaxWindows ∨ s.width > c.width ∨
      s.height > c.workHeight then (c, none)
  else
    let x := confine x (c.width - s.width)
    let y := confine y (c.workHeight - s.height)
    let id := c.windows.length
    let c := { c with windows := c.windows ++ [⟨surface, x, y, true⟩], zOrder := c.zOrder ++ [id] }
    (compositorDamage c x y s.width s.height, some (UInt32.ofNat id))

def compositorSetPanel (surface : ι) (y : UInt32) :
    Compositor ι × Bool :=
  let s := surfaces surface
  if surfaceValid s = false ∨ s.width ≠ c.width ∨ y ≥ c.height ∨ s.height > c.height - y then
    (c, false)
  else (compositorDamage { c with panel := some surface, panelY := y } 0 y s.width s.height, true)

def compositorMoveWindow (windowId x y : UInt32) :
    Compositor ι × Bool :=
  match c.windows[windowId.toNat]? with
  | none => (c, false)
  | some window =>
    let s := surfaces window.surface
    if window.visible = false ∨ surfaceValid s = false then (c, false)
    else
      let x := confine x (c.width - s.width)
      let y := confine y (c.workHeight - s.height)
      if x = window.x ∧ y = window.y then (c, true)
      else
        let c := compositorDamage c window.x window.y s.width s.height
        let c := { c with windows := c.windows.set windowId.toNat { window with x := x, y := y } }
        (compositorDamage c x y s.width s.height, true)

def compositorRaiseWindow (windowId : UInt32) :
    Compositor ι × Bool :=
  match c.windows[windowId.toNat]? with
  | none => (c, false)
  | some window =>
    let position := c.zOrder.idxOf windowId.toNat
    if position = c.zOrder.length then (c, false)
    else if position + 1 = c.zOrder.length then (c, true)
    else
      let s := surfaces window.surface
      let c := { c with zOrder := c.zOrder.eraseIdx position ++ [windowId.toNat] }
      (compositorDamage c window.x window.y s.width s.height, true)

def compositorSetWindowVisible (windowId : UInt32)
    (visible : Bool) : Compositor ι × Bool :=
  match c.windows[windowId.toNat]? with
  | none => (c, false)
  | some window =>
    if window.visible = visible then (c, true)
    else
      let s := surfaces window.surface
      let c := compositorDamage c window.x window.y s.width s.height
      ({ c with windows := c.windows.set windowId.toNat { window with visible := visible } }, true)

def compositorVisibleWindowCount : Nat := c.windows.countP (·.visible)

/-! ## Hit testing and composition -/

/-- The window is shown at the point; both hit testing and composition ask this. -/
def Window.showsAt (w : Window ι) (s : Surface) (x y : UInt32) : Bool :=
  w.visible ∧ ¬(x < w.x ∨ y < w.y ∨ x ≥ w.x + s.width ∨ y ≥ w.y + s.height)

/-- The topmost window at a point, as its id and the point's place on the window. -/
def compositorWindowAt (x y : UInt32) :
    Option (UInt32 × UInt32 × UInt32) :=
  if x ≥ c.width ∨ y ≥ c.workHeight then none
  else c.zOrder.reverse.findSome? fun id =>
    c.windows[id]?.bind fun window =>
      if surfaceValid (surfaces window.surface) ∧ window.showsAt (surfaces window.surface) x y then
        some (UInt32.ofNat id, x - window.x, y - window.y)
      else none

/-- What a window contributes to the picture at a point. -/
def Window.pixelAt (w : Window ι) (s : Surface) (x y : UInt32) : Option UInt32 :=
  if w.showsAt s x y then some (surfaceGetpixel s (x - w.x) (y - w.y)) else none

/-- The contribution of the window with an id; there is none without such a window. -/
def layerPixel (x y : UInt32) (id : Nat) :
    Option UInt32 :=
  c.windows[id]?.bind fun window => window.pixelAt (surfaces window.surface) x y

/-- The background with the windows over it, from the bottom to the top. -/
def paintLayers (background : UInt32) (layer : Nat → Option UInt32) (order : List Nat) : UInt32 :=
  order.foldl (fun pixel id => (layer id).getD pixel) background

/-- What the panel contributes at a point. -/
def panelPixel (x y : UInt32) : Option UInt32 :=
  c.panel.bind fun panel =>
    if y ≥ c.panelY ∧ y < c.panelY + (surfaces panel).height then
      some (surfaceGetpixel (surfaces panel) x (y - c.panelY))
    else none

def composedPixel (x y : UInt32) : UInt32 :=
  (panelPixel c surfaces x y).getD
    (paintLayers c.background (layerPixel c surfaces x y) c.zOrder)

/-! ## Presenting -/

variable [DecidableEq ι]

/-- One turn of the loop over the windows: the damage of a hidden window is dropped. -/
def collectWindow (st : Compositor ι × (ι → Surface)) (window : Window ι) :
    Compositor ι × (ι → Surface) :=
  let (s, taken) := surfaceTakeDamage (st.2 window.surface)
  let surfaces := update st.2 window.surface s
  match taken with
  | none => (st.1, surfaces)
  | some damage =>
    if window.visible = false then (st.1, surfaces)
    else (compositorDamage st.1 (window.x + damage.x) (window.y + damage.y) damage.width
      damage.height, surfaces)

def collectPanel (st : Compositor ι × (ι → Surface)) : Compositor ι × (ι → Surface) :=
  match st.1.panel with
  | none => st
  | some panel =>
    let (s, taken) := surfaceTakeDamage (st.2 panel)
    let surfaces := update st.2 panel s
    match taken with
    | none => (st.1, surfaces)
    | some damage =>
      (compositorDamage st.1 damage.x (st.1.panelY + damage.y) damage.width damage.height, surfaces)

def collectSurfaceDamage :
    Compositor ι × (ι → Surface) :=
  collectPanel (c.windows.foldl collectWindow (c, surfaces))

/-- The loops that draw one rectangle of damage. -/
def presentRect (g : Gop) (r : Rect) : Gop :=
  sweep ((r.y + r.height).toNat - r.y.toNat) ((r.x + r.width).toNat - r.x.toNat)
    (fun j i g =>
      let x := r.x + UInt32.ofNat i
      let y := r.y + UInt32.ofNat j
      gopPutpixel g x y (composedPixel c surfaces x y)) g

/-- The surfaces, the compositor over them and the framebuffer. -/
structure Screen (ι : Type) where
  surfaces : ι → Surface
  compositor : Compositor ι
  gop : Gop

def compositorPresent (sc : Screen ι) : Screen ι × Bool :=
  if sc.gop.usable = false then (sc, false)
  else
    let (c, surfaces) := collectSurfaceDamage sc.compositor sc.surfaces
    if c.damage = [] then (⟨surfaces, { c with lastDamageCount := 0 }, sc.gop⟩, true)
    else
      let pixels := c.damage.foldl
        (fun pixels r => pixels + r.width.toUInt64 * r.height.toUInt64) 0
      (⟨surfaces,
        { c with
          damage := []
          lastDamageCount := UInt32.ofNat c.damage.length
          damagePixels := c.damagePixels + pixels
          frameCount := c.frameCount + 1 },
        c.damage.foldl (presentRect c surfaces) sc.gop⟩, true)

/-! ## Validation -/

/-- The loop of `compositor_validate` over the stacking order. -/
def validateOrder (c : Compositor ι) (surfaces : ι → Surface) (seen : List Nat) :
    List Nat → Bool
  | [] => true
  | id :: rest =>
    match c.windows[id]? with
    | none => false
    | some window =>
      let s := surfaces window.surface
      if id ∈ seen then false
      else if surfaceValid s = false ∨ window.x > c.width - s.width ∨
          window.y > c.workHeight - s.height then false
      else validateOrder c surfaces (id :: seen) rest

def validatePanel : Bool :=
  match c.panel with
  | none => true
  | some panel =>
    let s := surfaces panel
    surfaceValid s ∧ s.width = c.width ∧ ¬c.panelY > c.height - s.height

def compositorValidate : Bool :=
  if c.width = 0 ∨ c.height = 0 ∨ c.workHeight = 0 ∨ c.workHeight > c.height ∨
      c.windows.length > argusCompositorMaxWindows ∨ c.damage.length > argusCompositorMaxDamage then
    false
  else validateOrder c surfaces [] c.zOrder && validatePanel c surfaces

end ArgusOs.Display
