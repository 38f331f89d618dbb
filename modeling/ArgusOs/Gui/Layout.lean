/-
  The layout of the desktop: the set-up part of `desktop.c` and the rows of its launcher.

  There are seven windows and a panel, each with a surface of its own. Sizes and positions depend
  on the resolution alone; the storage of the surfaces comes from the heap and may be missing.
  `Metrics` are `scale`, `panel_height` and `title_height`.

  `windowSizeChecked` and `placementsChecked` are the same computations with a result only if no
  step leaves the 32-bit range. `desktop_layout` says what every resolution from 640 x 400 on gets.
-/
import ArgusOs.Display.Presenting

namespace ArgusOs.Gui

open Lib Display Function

/-! ## Windows -/

/-- The entries of `apps`. -/
inductive App where
  | console
  | system
  | files
  | applications
  | snake
  | calculator
  | notes
  deriving DecidableEq, Repr

def App.all : List App := [.console, .system, .files, .applications, .snake, .calculator, .notes]

/-- A string of the source, without the zero at its end. -/
def text (s : String) : List UInt8 := s.toList.map fun c => UInt8.ofNat c.toNat

def App.title : App → List UInt8
  | .console => text "KERNEL CONSOLE"
  | .system => text "SYSTEM"
  | .files => text "FILES"
  | .applications => text "APPLICATIONS"
  | .snake => text "SNAKE"
  | .calculator => text "CALCULATOR"
  | .notes => text "NOTES"

/-- Zero for the windows of the kernel. -/
def App.userAppId : App → UInt32
  | .snake => 1
  | .calculator => 2
  | .notes => 3
  | _ => 0

/-- The surfaces. -/
inductive Layer where
  | app (a : App)
  | panel
  deriving DecidableEq, Repr

def argusAppSurfaceWidth : UInt32 := 320
def argusAppSurfaceHeight : UInt32 := 224

/-! ## Sizes -/

structure Metrics where
  scale : UInt32
  panelHeight : UInt32
  titleHeight : UInt32
  deriving DecidableEq, Repr

/-- As `desktop_init` chooses them. -/
def Metrics.of (width height : UInt32) : Metrics :=
  if width ≥ 800 ∧ height ≥ 600 then ⟨2, 32, 24⟩ else ⟨1, 24, 16⟩

def contentX : UInt32 := 7

def contentY (m : Metrics) : UInt32 := m.titleHeight + 8

def contentWidth (s : Surface) : UInt32 := s.width - 14

def contentHeight (m : Metrics) (s : Surface) : UInt32 := s.height - m.titleHeight - 15

/-- Width and height of the surfaces of the windows. -/
def windowSize (m : Metrics) (width workHeight : UInt32) : App → UInt32 × UInt32
  | .console =>
    (minimum (if width ≥ 1000 then 720 else width * 3 / 5) (width - 24),
      minimum (if workHeight ≥ 680 then 560 else workHeight * 3 / 4) (workHeight - 24))
  | .system => (if width ≥ 700 then 400 else width - 24, minimum 238 (workHeight - 24))
  | .files => (if width ≥ 700 then 400 else width - 24, minimum 320 (workHeight - 24))
  | .applications =>
    (if width ≥ 700 then 400 else width - 24,
      minimum (if m.scale = 2 then 244 else 160) (workHeight - 24))
  | _ => (argusAppSurfaceWidth + 14, m.titleHeight + argusAppSurfaceHeight + 15)

/-- The sizes `initialize_surfaces` accepts. -/
def sizesFit (m : Metrics) (width workHeight : UInt32) : Bool :=
  let size := windowSize m width workHeight
  ¬((size .console).1 < 320 ∨ (size .console).2 < 200 ∨ (size .system).1 < 280 ∨
    (size .system).2 < 160 ∨ (size .files).2 < 200 ∨
    (size .applications).2 < (if m.scale = 2 then 220 else 140) ∨
    (size .snake).1 > width - 24 ∨ (size .snake).2 > workHeight - 24)

/-- `storage` is what the heap gives for each surface. -/
def initializeSurfaces (storage : Layer → Option (Nat → UInt32)) (m : Metrics)
    (width workHeight : UInt32) : Option (Layer → Surface) :=
  let init := fun a => surfaceInit (storage (.app a)) (windowSize m width workHeight a).1
    (windowSize m width workHeight a).2
  if sizesFit m width workHeight = false then none
  else do
    let console ← init .console
    let system ← init .system
    let files ← init .files
    let applications ← init .applications
    let snake ← init .snake
    let calculator ← init .calculator
    let notes ← init .notes
    let panel ← surfaceInit (storage .panel) width m.panelHeight
    some fun
      | .app .console => console
      | .app .system => system
      | .app .files => files
      | .app .applications => applications
      | .app .snake => snake
      | .app .calculator => calculator
      | .app .notes => notes
      | .panel => panel

/-! ## Positions -/

/-- Where `initialize_compositor` asks for the windows, in the order it adds them. -/
def placements (surfaces : Layer → Surface) (width workHeight : UInt32) :
    List (App × UInt32 × UInt32) :=
  let rightMargin : UInt32 := if width ≥ 700 then 32 else 12
  let utilityX := width - (surfaces (.app .system)).width - rightMargin
  let consoleX : UInt32 := if width ≥ 900 then 40 else 12
  let consoleY : UInt32 := if workHeight ≥ 650 then 96 else 32
  let systemY : UInt32 := if workHeight ≥ 300 then 40 else 8
  let filesY := systemY + (surfaces (.app .system)).height + 24
  let userX := (width - (surfaces (.app .snake)).width) / 2
  let userY : UInt32 := if workHeight ≥ 500 then 72 else 12
  let applicationsX : UInt32 := if width ≥ 900 then 72 else 20
  let applicationsY : UInt32 := if workHeight ≥ 500 then 64 else 12
  let filesY := confine filesY (workHeight - (surfaces (.app .files)).height)
  [(.console, consoleX, consoleY), (.system, utilityX, systemY), (.files, utilityX, filesY),
    (.applications, applicationsX, applicationsY), (.snake, userX, userY),
    (.calculator, userX + 24, userY + 20),
    (.notes, if userX > 24 then userX - 24 else 0, userY + 40)]

/-- The chain of `compositor_add_window` calls, each of which has to succeed, and the ids they
    give. -/
def placeWindows (surfaces : Layer → Surface) :
    List (App × UInt32 × UInt32) → Compositor Layer → (App → UInt32) →
      Option (Compositor Layer × (App → UInt32))
  | [], c, ids => some (c, ids)
  | (a, x, y) :: rest, c, ids =>
    match compositorAddWindow c surfaces (.app a) x y with
    | (_, none) => none
    | (c, some id) => placeWindows surfaces rest c (update ids a id)

/-- The loop that hides the windows. -/
def hideWindows (surfaces : Layer → Surface) (ids : App → UInt32) :
    List App → Compositor Layer → Option (Compositor Layer)
  | [], c => some c
  | a :: rest, c =>
    match compositorSetWindowVisible c surfaces (ids a) false with
    | (_, false) => none
    | (c, true) => hideWindows surfaces ids rest c

def initializeCompositor (surfaces : Layer → Surface)
    (width height workHeight background : UInt32) :
    Option (Compositor Layer × (App → UInt32)) := do
  let c ← compositorInit width height workHeight background
  let (c, ids) ← placeWindows surfaces (placements surfaces width workHeight) c fun _ => 0
  match compositorSetPanel c surfaces .panel workHeight with
  | (_, false) => none
  | (c, true) =>
    let c ← hideWindows surfaces ids App.all c
    if compositorVisibleWindowCount c = 0 then some (c, ids) else none

/-! ## The same with checked steps -/

def checkedAdd (a b : UInt32) : Option UInt32 :=
  if a.toNat + b.toNat < 2 ^ 32 then some (a + b) else none

def checkedSub (a b : UInt32) : Option UInt32 := if b.toNat ≤ a.toNat then some (a - b) else none

def checkedMul (a b : UInt32) : Option UInt32 :=
  if a.toNat * b.toNat < 2 ^ 32 then some (a * b) else none

/-- A fixed size from the threshold on, a share below it. -/
def shareChecked (length threshold fixed share : UInt32) : Option UInt32 :=
  if length ≥ threshold then some fixed else (checkedMul length 3).map (· / share)

def utilityWidthChecked (width : UInt32) : Option UInt32 :=
  if width ≥ 700 then some 400 else checkedSub width 24

def windowSizeChecked (m : Metrics) (width workHeight : UInt32) : App → Option (UInt32 × UInt32)
  | .console => do
    let consoleWidth ← shareChecked width 1000 720 5
    let consoleHeight ← shareChecked workHeight 680 560 4
    some (minimum consoleWidth (← checkedSub width 24),
      minimum consoleHeight (← checkedSub workHeight 24))
  | .system => do
    some (← utilityWidthChecked width, minimum 238 (← checkedSub workHeight 24))
  | .files => do
    some (← utilityWidthChecked width, minimum 320 (← checkedSub workHeight 24))
  | .applications => do
    some (← utilityWidthChecked width,
      minimum (if m.scale = 2 then 244 else 160) (← checkedSub workHeight 24))
  | _ => do
    some (← checkedAdd argusAppSurfaceWidth 14,
      ← checkedAdd (← checkedAdd m.titleHeight argusAppSurfaceHeight) 15)

def placementsChecked (surfaces : Layer → Surface) (width workHeight : UInt32) :
    Option (List (App × UInt32 × UInt32)) := do
  let rightMargin : UInt32 := if width ≥ 700 then 32 else 12
  let utilityX ← checkedSub (← checkedSub width (surfaces (.app .system)).width) rightMargin
  let consoleX : UInt32 := if width ≥ 900 then 40 else 12
  let consoleY : UInt32 := if workHeight ≥ 650 then 96 else 32
  let systemY : UInt32 := if workHeight ≥ 300 then 40 else 8
  let filesY ← checkedAdd (← checkedAdd systemY (surfaces (.app .system)).height) 24
  let userX := (← checkedSub width (surfaces (.app .snake)).width) / 2
  let userY : UInt32 := if workHeight ≥ 500 then 72 else 12
  let applicationsX : UInt32 := if width ≥ 900 then 72 else 20
  let applicationsY : UInt32 := if workHeight ≥ 500 then 64 else 12
  let filesY := confine filesY (← checkedSub workHeight (surfaces (.app .files)).height)
  let notesX ← (if userX > 24 then checkedSub userX 24 else some 0)
  some [(.console, consoleX, consoleY), (.system, utilityX, systemY), (.files, utilityX, filesY),
    (.applications, applicationsX, applicationsY), (.snake, userX, userY),
    (.calculator, ← checkedAdd userX 24, ← checkedAdd userY 20),
    (.notes, notesX, ← checkedAdd userY 40)]

/-! ## Drawing and the launcher -/

/-- The word of the surface in which `render_user_app` stores a pixel. -/
def userAppDestination (m : Metrics) (s : Surface) (row column : UInt32) : UInt64 :=
  (contentY m + row).toUInt64 * s.stride.toUInt64 + contentX.toUInt64 + column.toUInt64

/-- The entries of `desktop_colors_t` that `render_applications` uses. -/
structure Colors where
  chrome : UInt32
  terminal : UInt32
  terminalText : UInt32
  ink : UInt32

def launcherTargets : List App := [.console, .system, .files, .snake, .calculator, .notes]

/-- One turn of the loop of `render_applications`. -/
def launcherRow (m : Metrics) (colors : Colors) (selection : UInt32) (s : Surface) (row : UInt32)
    (target : App) (rowY : UInt32) : List Drawing :=
  let background := if row = selection then colors.chrome else colors.terminal
  let foreground := if row = selection then colors.ink else colors.terminalText
  [.fillRect (contentX + 8) rowY (contentWidth s - 16) (11 * m.scale) background,
    .drawText target.title (contentX + 14) (rowY + 2 * m.scale) m.scale foreground,
    .drawText (if target.userAppId ≠ 0 then text "C++ USER" else text "KERNEL")
      (contentX + contentWidth s - 11 * 6 * m.scale) (rowY + 2 * m.scale) m.scale foreground]

def launcherRows (m : Metrics) (colors : Colors) (selection : UInt32) (s : Surface) :
    List App → UInt32 → UInt32 → List Drawing
  | [], _, _ => []
  | target :: rest, row, rowY =>
    launcherRow m colors selection s row target rowY ++
      launcherRows m colors selection s rest (row + 1) (rowY + (11 * m.scale + 2 * m.scale))

/-- The drawing calls of `render_applications`. -/
def renderApplications (m : Metrics) (colors : Colors) (selection : UInt32) (s : Surface) :
    List Drawing :=
  [.fillRect contentX (contentY m) (contentWidth s) (contentHeight m s) colors.terminal,
    .drawText (text "UP DOWN   ENTER OPEN   ESC CLOSE") (contentX + 8) (contentY m + 8) m.scale
      colors.terminalText] ++
  launcherRows m colors selection s launcherTargets 0 (contentY m + 22 * m.scale)

/-- `entry` says whether there is a place for the result. -/
def launcherEntryAt (m : Metrics) (s : Surface) (localX localY : UInt32) (entry : Bool) :
    Option UInt32 :=
  let startX := contentX + 8
  let startY := contentY m + 22 * m.scale
  let rowHeight := 11 * m.scale
  let pitch := rowHeight + 2 * m.scale
  if entry = false ∨ localX < startX ∨ localY < startY ∨ localX ≥ s.width - contentX - 8 then none
  else
    let candidate := (localY - startY) / pitch
    if candidate ≥ 6 ∨ (localY - startY) % pitch ≥ rowHeight then none else some candidate

/-! ## Sizes fit -/

/-- What the two metrics and the smallest resolutions leave for the windows. -/
structure Roomy (m : Metrics) (width workHeight : UInt32) : Prop where
  width_ge : 640 ≤ width.toNat
  width_lt : width.toNat < 2 ^ 31
  work_ge : 376 ≤ workHeight.toNat
  work_lt : workHeight.toNat < 2 ^ 31
  metrics : m = ⟨1, 24, 16⟩ ∨ (m = ⟨2, 32, 24⟩ ∧ 568 ≤ workHeight.toNat)

section Sizes

variable {m : Metrics} {width height workHeight : UInt32}

theorem roomy_of (hwidth : 640 ≤ width.toNat ∧ width.toNat < 2 ^ 31)
    (hheight : 400 ≤ height.toNat ∧ height.toNat < 2 ^ 31) :
    Roomy (.of width height) width (height - (Metrics.of width height).panelHeight) ∧
      (height - (Metrics.of width height).panelHeight).toNat +
        (Metrics.of width height).panelHeight.toNat = height.toNat := by
  unfold Metrics.of
  split
  · next hlarge =>
    have hlarge : 600 ≤ height.toNat := UInt32.le_iff_toNat_le.mp hlarge.2
    have hsub : (height - 32).toNat = height.toNat - 32 :=
      toNat_sub32 (show 32 ≤ _ by omega)
    dsimp only
    exact ⟨⟨hwidth.1, hwidth.2, by omega, by omega, Or.inr ⟨rfl, by omega⟩⟩,
      show _ + 32 = _ by omega⟩
  · have hsub : (height - 24).toNat = height.toNat - 24 :=
      toNat_sub32 (show 24 ≤ _ by omega)
    dsimp only
    exact ⟨⟨hwidth.1, hwidth.2, by omega, by omega, Or.inl rfl⟩, show _ + 24 = _ by omega⟩

/-- A share of a small number, computed without wrapping. -/
theorem toNat_share {x : UInt32} (h : x.toNat < 1000) (k : UInt32) :
    (x * 3 / k).toNat = x.toNat * 3 / k.toNat := by
  rw [UInt32.toNat_div, UInt32.toNat_mul]
  congr 1
  exact Nat.mod_eq_of_lt (by simp; omega)

/-- A window of this size leaves a margin, and has room for a title and something below it. -/
structure Fitting (width workHeight : UInt32) (size : UInt32 × UInt32) : Prop where
  wide : 320 ≤ size.1.toNat
  right : size.1.toNat + 24 ≤ width.toNat
  high : 160 ≤ size.2.toNat
  bottom : size.2.toNat + 24 ≤ workHeight.toNat

theorem Roomy.margins (h : Roomy m width workHeight) :
    (width - 24).toNat = width.toNat - 24 ∧ (workHeight - 24).toNat = workHeight.toNat - 24 := by
  have hwidth := h.width_ge
  have hwork := h.work_ge
  exact ⟨toNat_sub32 (show 24 ≤ _ by omega), toNat_sub32 (show 24 ≤ _ by omega)⟩

theorem Roomy.console (h : Roomy m width workHeight) :
    (320 ≤ (windowSize m width workHeight .console).1.toNat ∧
      (windowSize m width workHeight .console).1.toNat + 24 ≤ width.toNat) ∧
    200 ≤ (windowSize m width workHeight .console).2.toNat ∧
      (windowSize m width workHeight .console).2.toNat + 24 ≤ workHeight.toNat := by
  obtain ⟨hwidth, hwork⟩ := h.margins
  obtain ⟨h1, h2, h3, h4, -⟩ := h
  unfold windowSize
  rw [toNat_minimum, toNat_minimum, hwidth, hwork]
  constructor
  · split
    · next hc =>
      simp
      omega
    · next hc =>
      have hc : width.toNat < 1000 := UInt32.lt_iff_toNat_lt.mp (UInt32.not_le.mp hc)
      rw [toNat_share hc]
      simp
      omega
  · split
    · next hc =>
      simp
      omega
    · next hc =>
      have hc : workHeight.toNat < 680 := UInt32.lt_iff_toNat_lt.mp (UInt32.not_le.mp hc)
      rw [toNat_share (by omega)]
      simp
      omega

theorem minimum_left {a b : UInt32} (h : a.toNat ≤ b.toNat) : minimum a b = a := by
  rw [← UInt32.toNat_inj, toNat_minimum, Nat.min_eq_left h]

theorem Roomy.utilities (h : Roomy m width workHeight) :
    ∃ w : UInt32, 400 ≤ w.toNat ∧ w.toNat + 24 ≤ width.toNat ∧
      w = (if width ≥ 700 then 400 else width - 24) ∧
      windowSize m width workHeight .system = (w, 238) ∧
      windowSize m width workHeight .files = (w, 320) ∧
      windowSize m width workHeight .applications = (w, if m.scale = 2 then 244 else 160) := by
  obtain ⟨hwidth, hwork⟩ := h.margins
  obtain ⟨h1, h2, h3, h4, hm⟩ := h
  refine ⟨_, ?_, ?_, rfl, ?_, ?_, ?_⟩
  · split
    · exact Nat.le_refl _
    · omega
  · split
    · next hc =>
      show 400 + 24 ≤ _
      omega
    · omega
  · exact congrArg _ (minimum_left (by rw [hwork]; show 238 ≤ _; omega))
  · exact congrArg _ (minimum_left (by rw [hwork]; show 320 ≤ _; omega))
  · refine congrArg _ (minimum_left ?_)
    rcases hm with rfl | ⟨rfl, h5⟩
    · show 160 ≤ _
      omega
    · show 244 ≤ _
      omega

theorem windowSize_user {a : App} (ha : a.userAppId ≠ 0) :
    windowSize m width workHeight a =
      (argusAppSurfaceWidth + 14, m.titleHeight + argusAppSurfaceHeight + 15) := by
  cases a <;> first | rfl | exact absurd rfl ha

theorem Roomy.size (h : Roomy m width workHeight) (a : App) :
    Fitting width workHeight (windowSize m width workHeight a) := by
  obtain ⟨w, hlow, hhigh, -, hsystem, hfiles, happs⟩ := h.utilities
  have hwork := h.work_ge
  have huser : ∀ a : App, a.userAppId ≠ 0 →
      Fitting width workHeight (windowSize m width workHeight a) := by
    intro a ha
    rw [windowSize_user ha]
    rcases h.metrics with rfl | ⟨rfl, -⟩
    · exact ⟨by decide, show 334 + 24 ≤ _ by omega, by decide, show 255 + 24 ≤ _ by omega⟩
    · exact ⟨by decide, show 334 + 24 ≤ _ by omega, by decide, show 263 + 24 ≤ _ by omega⟩
  have hutility : ∀ height : UInt32, 160 ≤ height.toNat → height.toNat + 24 ≤ workHeight.toNat →
      Fitting width workHeight (w, height) :=
    fun _ hhigh' hbottom => ⟨show 320 ≤ w.toNat by omega, hhigh, hhigh', hbottom⟩
  cases a with
  | console =>
    obtain ⟨⟨h1, h2⟩, h3, h4⟩ := h.console
    exact ⟨h1, h2, by omega, h4⟩
  | system =>
    rw [hsystem]
    exact hutility _ (by decide) (show 238 + 24 ≤ _ by omega)
  | files =>
    rw [hfiles]
    exact hutility _ (by decide) (show 320 + 24 ≤ _ by omega)
  | applications =>
    rw [happs]
    rcases h.metrics with rfl | ⟨rfl, hlarge⟩
    · exact hutility _ (by decide) (show 160 + 24 ≤ _ by omega)
    · exact hutility _ (by decide) (show 244 + 24 ≤ _ by omega)
  | snake => exact huser _ (by decide)
  | calculator => exact huser _ (by decide)
  | notes => exact huser _ (by decide)

theorem Roomy.sizesFit (h : Roomy m width workHeight) : sizesFit m width workHeight = true := by
  obtain ⟨w, hlow, -, -, hsystem, hfiles, happs⟩ := h.utilities
  obtain ⟨⟨hwide, -⟩, hhigh, -⟩ := h.console
  have hsnake := h.size .snake
  have hw := hsnake.right
  have hh := hsnake.bottom
  obtain ⟨hwidth, hwork⟩ := h.margins
  unfold Gui.sizesFit
  dsimp only
  rw [hsystem, hfiles, happs, decide_eq_true_eq]
  simp only [not_or, UInt32.not_lt, UInt32.le_iff_toNat_le]
  refine ⟨hwide, hhigh, show 280 ≤ w.toNat by omega, by decide, by decide, ?_, ?_, ?_⟩
  · split <;> decide
  · omega
  · omega

/-! ## No step wraps -/

theorem checkedAdd_eq {a b : UInt32} (h : a.toNat + b.toNat < 2 ^ 32) :
    checkedAdd a b = some (a + b) := if_pos h

theorem checkedSub_eq {a b : UInt32} (h : b.toNat ≤ a.toNat) : checkedSub a b = some (a - b) :=
  if_pos h

theorem checkedMul_eq {a b : UInt32} (h : a.toNat * b.toNat < 2 ^ 32) :
    checkedMul a b = some (a * b) := if_pos h

theorem shareChecked_eq {length threshold fixed share : UInt32} (h : threshold.toNat ≤ 1000) :
    shareChecked length threshold fixed share =
      some (if length ≥ threshold then fixed else length * 3 / share) := by
  unfold shareChecked
  split
  · rfl
  · next hc =>
    have hc := UInt32.lt_iff_toNat_lt.mp (UInt32.not_le.mp hc)
    rw [checkedMul_eq (show length.toNat * 3 < _ by omega)]
    rfl

theorem Roomy.sizeChecked (h : Roomy m width workHeight) (a : App) :
    windowSizeChecked m width workHeight a = some (windowSize m width workHeight a) := by
  have hwidth : checkedSub width 24 = some (width - 24) :=
    checkedSub_eq (show 24 ≤ _ by have := h.width_ge; omega)
  have hwork : checkedSub workHeight 24 = some (workHeight - 24) :=
    checkedSub_eq (show 24 ≤ _ by have := h.work_ge; omega)
  have hutility : utilityWidthChecked width = some (if width ≥ 700 then 400 else width - 24) := by
    unfold utilityWidthChecked
    split
    · rfl
    · exact hwidth
  have huser : checkedAdd m.titleHeight argusAppSurfaceHeight =
      some (m.titleHeight + argusAppSurfaceHeight) ∧
      checkedAdd (m.titleHeight + argusAppSurfaceHeight) 15 =
        some (m.titleHeight + argusAppSurfaceHeight + 15) := by
    rcases h.metrics with rfl | ⟨rfl, -⟩
    · decide
    · decide
  cases a with
  | console =>
    unfold windowSizeChecked
    rw [shareChecked_eq (by decide), shareChecked_eq (by decide), hwidth, hwork]
    rfl
  | system | files | applications =>
    unfold windowSizeChecked
    rw [hutility, hwork]
    rfl
  | _ =>
    unfold windowSizeChecked
    rw [huser.1]
    dsimp only [bind, Option.bind]
    rw [huser.2]
    rfl

/-! ## Surfaces and windows -/

def layerSize (m : Metrics) (width workHeight : UInt32) : Layer → UInt32 × UInt32
  | .app a => windowSize m width workHeight a
  | .panel => (width, m.panelHeight)

/-- The surfaces of a layout, with the storage the heap gave. -/
def layoutSurfaces (storage : Layer → Nat → UInt32) (m : Metrics) (width workHeight : UInt32)
    (layer : Layer) : Surface :=
  let size := layerSize m width workHeight layer
  ⟨true, storage layer, size.1, size.2, size.1, false, .zero⟩

theorem ne_zero_of_pos {a : UInt32} (h : 0 < a.toNat) : a ≠ 0 := by
  rintro rfl
  exact absurd h (by decide)

theorem Roomy.layer (h : Roomy m width workHeight) (layer : Layer) :
    let size := layerSize m width workHeight layer
    (0 < size.1.toNat ∧ size.1.toNat < 2 ^ 31) ∧ 0 < size.2.toNat ∧ size.2.toNat < 2 ^ 31 := by
  have h1 := h.width_ge
  have h2 := h.width_lt
  cases layer with
  | app a =>
    obtain ⟨h3, h4, h5, h6⟩ := h.size a
    have h7 := h.work_lt
    dsimp only [layerSize]
    omega
  | panel =>
    refine ⟨⟨Nat.lt_of_lt_of_le (by decide) h1, h2⟩, ?_⟩
    show 0 < m.panelHeight.toNat ∧ m.panelHeight.toNat < 2 ^ 31
    rcases h.metrics with rfl | ⟨rfl, -⟩
    · decide
    · decide

theorem Roomy.surfaces (h : Roomy m width workHeight) (storage : Layer → Nat → UInt32) :
    initializeSurfaces (fun layer => some (storage layer)) m width workHeight =
      some (layoutSurfaces storage m width workHeight) := by
  have hinit : ∀ layer, surfaceInit (some (storage layer)) (layerSize m width workHeight layer).1
      (layerSize m width workHeight layer).2 =
        some (layoutSurfaces storage m width workHeight layer) := by
    intro layer
    obtain ⟨hw, hh⟩ := h.layer layer
    have hmul := Nat.mul_lt_mul'' hw.2 hh.2
    unfold surfaceInit
    rw [if_neg (not_or.mpr ⟨ne_zero_of_pos hw.1, ne_zero_of_pos hh.1⟩), if_neg (by omega)]
    rfl
  have happ := fun a => hinit (.app a)
  dsimp only [layerSize] at happ
  unfold initializeSurfaces
  dsimp only
  rw [if_neg (by rw [h.sizesFit]; decide), happ, happ, happ, happ, happ, happ, happ,
    show surfaceInit (some (storage .panel)) width m.panelHeight = _ from hinit .panel]
  refine congrArg some (funext fun layer => ?_)
  rcases layer with a | -
  · cases a <;> rfl
  · rfl

theorem Roomy.valid (h : Roomy m width workHeight) (storage : Layer → Nat → UInt32)
    (layer : Layer) : surfaceValid (layoutSurfaces storage m width workHeight layer) = true := by
  obtain ⟨hw, hh⟩ := h.layer layer
  exact decide_eq_true ⟨rfl, ne_zero_of_pos hw.1, ne_zero_of_pos hh.1, UInt32.le_refl _⟩

theorem checkedAdd_ite (p : Prop) [Decidable p] {a b n : UInt32} (ha : a.toNat + n.toNat < 2 ^ 32)
    (hb : b.toNat + n.toNat < 2 ^ 32) :
    checkedAdd (if p then a else b) n = some ((if p then a else b) + n) := by
  split
  · exact checkedAdd_eq ha
  · exact checkedAdd_eq hb

theorem Roomy.positions (h : Roomy m width workHeight) (storage : Layer → Nat → UInt32) :
    placementsChecked (layoutSurfaces storage m width workHeight) width workHeight =
      some (placements (layoutSurfaces storage m width workHeight) width workHeight) := by
  obtain ⟨w, -, hhigh, hw, hsystem, hfiles, -⟩ := h.utilities
  have hwidth := h.width_ge
  have hlt := h.width_lt
  have hwork := h.work_ge
  have hsystemW : (layoutSurfaces storage m width workHeight (.app .system)).width = w :=
    congrArg Prod.fst hsystem
  have hsystemH : (layoutSurfaces storage m width workHeight (.app .system)).height = 238 :=
    congrArg Prod.snd hsystem
  have hfilesH : (layoutSurfaces storage m width workHeight (.app .files)).height = 320 :=
    congrArg Prod.snd hfiles
  have hsnake : (layoutSurfaces storage m width workHeight (.app .snake)).width = 334 := rfl
  have hutility : checkedSub (width - w) (if width ≥ 700 then 32 else 12) =
      some (width - w - if width ≥ 700 then 32 else 12) := by
    apply checkedSub_eq
    rw [toNat_sub32 (by omega), hw]
    split
    · next hc =>
      show 32 ≤ _ - 400
      omega
    · rw [toNat_sub32 (show 24 ≤ _ by omega)]
      show 12 ≤ width.toNat - (width.toNat - 24)
      omega
  have huser : checkedAdd ((width - 334) / 2) 24 = some ((width - 334) / 2 + 24) := by
    apply checkedAdd_eq
    rw [UInt32.toNat_div, toNat_sub32 (show 334 ≤ _ by omega)]
    show (width.toNat - 334) / 2 + 24 < _
    omega
  have hnotes : (if (width - 334) / 2 > 24 then checkedSub ((width - 334) / 2) 24 else some 0) =
      some (if (width - 334) / 2 > 24 then (width - 334) / 2 - 24 else 0) := by
    split
    · next hc => exact checkedSub_eq (Nat.le_of_lt (UInt32.lt_iff_toNat_lt.mp hc))
    · rfl
  have hfilesY : checkedAdd ((if workHeight ≥ 300 then 40 else 8) + 238) 24 =
      some ((if workHeight ≥ 300 then 40 else 8) + 238 + 24) := by
    apply checkedAdd_eq
    split <;> decide
  unfold placementsChecked placements
  simp only [hsystemW, hsystemH, hfilesH, hsnake, bind, Option.bind, hutility, hfilesY, hnotes,
    checkedSub_eq (show w.toNat ≤ width.toNat by omega),
    checkedSub_eq (a := width) (b := 334) (show 334 ≤ _ by omega),
    checkedSub_eq (a := workHeight) (b := 320) (show 320 ≤ _ by omega), huser,
    checkedAdd_ite _ (a := 40) (b := 8) (n := 238) (by decide) (by decide),
    checkedAdd_ite _ (a := 72) (b := 12) (n := 20) (by decide) (by decide),
    checkedAdd_ite _ (a := 72) (b := 12) (n := 40) (by decide) (by decide)]

section Windows

variable {surfaces : Layer → Surface} {c : Compositor Layer}

/-- The surface can be a window of the compositor. -/
structure Suits (c : Compositor Layer) (s : Surface) : Prop where
  valid : surfaceValid s = true
  width : s.width.toNat ≤ c.width.toNat
  height : s.height.toNat ≤ c.workHeight.toNat

/-- A window where `compositor_add_window` puts it. -/
def placedWindow (surfaces : Layer → Surface) (c : Compositor Layer)
    (place : App × UInt32 × UInt32) :
    Window Layer :=
  ⟨.app place.1, confine place.2.1 (c.width - (surfaces (.app place.1)).width),
    confine place.2.2 (c.workHeight - (surfaces (.app place.1)).height), true⟩

theorem compositorAddWindow_suits {a : App} (hs : Suits c (surfaces (.app a)))
    (hcount : c.windows.length < 8) (x y : UInt32) :
    ∃ damage, compositorAddWindow c surfaces (.app a) x y =
      ({ c with
          windows := c.windows ++ [placedWindow surfaces c (a, x, y)]
          zOrder := c.zOrder ++ [c.windows.length]
          damage := damage }, some (UInt32.ofNat c.windows.length)) := by
  have hguard : ¬(surfaceValid (surfaces (.app a)) = false ∨
      c.windows.length ≥ argusCompositorMaxWindows ∨ (surfaces (.app a)).width > c.width ∨
      (surfaces (.app a)).height > c.workHeight) := by
    rw [hs.valid]
    simp only [not_or, UInt32.not_lt, UInt32.le_iff_toNat_le, Nat.not_le]
    exact ⟨by decide, hcount, hs.width, hs.height⟩
  unfold compositorAddWindow
  dsimp only
  rw [if_neg hguard, compositorDamage_rest]
  exact ⟨_, rfl⟩

/-- Windows that suit get the next ids, in order. -/
theorem placeWindows_suits (places : List (App × UInt32 × UInt32)) (ids : App → UInt32)
    (hsuits : ∀ a, Suits c (surfaces (.app a))) (hdistinct : (places.map Prod.fst).Nodup)
    (hroom : c.windows.length + places.length ≤ 8) :
    ∃ order damage ids', placeWindows surfaces places c ids = some ({ c with
        windows := c.windows ++ places.map (placedWindow surfaces c)
        zOrder := order
        damage := damage }, ids') ∧
      (∀ (i : Nat) p, places[i]? = some p → (ids' p.1).toNat = c.windows.length + i) ∧
      ∀ a, a ∉ places.map Prod.fst → ids' a = ids a := by
  induction places generalizing c ids with
  | nil =>
    refine ⟨c.zOrder, c.damage, ids, ?_, by simp, fun _ _ => rfl⟩
    rw [placeWindows, List.map_nil, List.append_nil]
  | cons place places ih =>
    obtain ⟨a, x, y⟩ := place
    rw [List.map_cons, List.nodup_cons] at hdistinct
    rw [List.length_cons] at hroom
    obtain ⟨damage, hadd⟩ := compositorAddWindow_suits (hsuits a) (by omega) x y
    obtain ⟨order, damage', ids', hplace, hids, hold⟩ := @ih { c with
        windows := c.windows ++ [placedWindow surfaces c (a, x, y)]
        zOrder := c.zOrder ++ [c.windows.length]
        damage := damage } (update ids a (UInt32.ofNat c.windows.length))
      (fun b => ⟨(hsuits b).valid, (hsuits b).width, (hsuits b).height⟩) hdistinct.2
      (by rw [List.length_append, List.length_singleton]; omega)
    refine ⟨order, damage', ids', ?_, ?_, ?_⟩
    · rw [placeWindows, hadd]
      dsimp only
      rw [hplace, List.append_assoc]
      rfl
    · intro i p hp
      cases i with
      | zero =>
        obtain rfl := Option.some.inj hp
        rw [hold a hdistinct.1, update_self, UInt32.toNat_ofNat']
        exact Nat.mod_eq_of_lt (by omega)
      | succ i =>
        rw [hids i p hp, List.length_append, List.length_singleton]
        omega
    · intro b hb
      rw [List.map_cons, List.mem_cons, not_or] at hb
      rw [hold b hb.2, update_of_ne hb.1]

def hiddenWindow (w : Window Layer) : Window Layer := { w with visible := false }

theorem compositorSetWindowVisible_hides {id : UInt32} {done todo : List (Window Layer)}
    {v : Window Layer} (hwindows : c.windows = done ++ v :: todo) (hid : id.toNat = done.length) :
    ∃ damage, compositorSetWindowVisible c surfaces id false =
      ({ c with windows := done ++ hiddenWindow v :: todo, damage := damage }, true) := by
  have hget : c.windows[id.toNat]? = some v := by
    rw [hwindows, hid, List.getElem?_append_right (Nat.le_refl _), Nat.sub_self]
    rfl
  unfold compositorSetWindowVisible
  rw [hget]
  dsimp only
  split
  · next hhidden =>
    refine ⟨c.damage, ?_⟩
    rw [hiddenWindow, ← hhidden, ← hwindows]
  · rw [compositorDamage_rest]
    rw [hwindows, hid, List.set_append_right _ _ (Nat.le_refl _), Nat.sub_self]
    exact ⟨_, rfl⟩

theorem hideWindows_all {ids : App → UInt32} (apps : List App) {done todo : List (Window Layer)}
    (hwindows : c.windows = done ++ todo) (hlength : todo.length = apps.length)
    (hids : ∀ (i : Nat) a, apps[i]? = some a → (ids a).toNat = done.length + i) :
    ∃ damage, hideWindows surfaces ids apps c =
      some { c with windows := done ++ todo.map hiddenWindow, damage := damage } := by
  induction apps generalizing c done todo with
  | nil =>
    rw [List.length_nil, List.length_eq_zero_iff] at hlength
    rw [hlength] at hwindows ⊢
    refine ⟨c.damage, ?_⟩
    rw [List.map_nil, ← hwindows]
    rfl
  | cons a apps ih =>
    obtain ⟨v, todo', rfl⟩ := List.exists_cons_of_length_eq_add_one hlength
    obtain ⟨damage, hset⟩ :=
      @compositorSetWindowVisible_hides surfaces _ _ _ _ _ hwindows (hids 0 a rfl)
    obtain ⟨damage', hhide⟩ := @ih { c with
        windows := done ++ hiddenWindow v :: todo', damage :=
          damage } (done ++ [hiddenWindow v]) todo'
      (by rw [List.append_assoc]; rfl) (Nat.succ.inj hlength) (fun i b hb => by
        rw [hids (i + 1) b hb, List.length_append, List.length_singleton]
        omega)
    refine ⟨damage', ?_⟩
    rw [hideWindows, hset]
    dsimp only
    rw [hhide, List.append_assoc]
    rfl

end Windows

/-! ## Contents -/

/-- The content rectangle lies in the surface. -/
def ContentInside (m : Metrics) (s : Surface) : Prop :=
  Rect.Within ⟨contentX, contentY m, contentWidth s, contentHeight m s⟩ s.width s.height

/-- The content is as large as the pixels of a user app, and `render_user_app` stores each of them
    at its place in the buffer. -/
structure ShowsUserApp (m : Metrics) (s : Surface) : Prop where
  width : contentWidth s = argusAppSurfaceWidth
  height : contentHeight m s = argusAppSurfaceHeight
  stores : ∀ row column : UInt32, row < argusAppSurfaceHeight → column < argusAppSurfaceWidth →
    (userAppDestination m s row column).toNat =
        s.position (contentX.toNat + column.toNat) ((contentY m).toNat + row.toNat) ∧
      (userAppDestination m s row column).toNat < s.width.toNat * s.height.toNat

section Contents

variable {storage : Layer → Nat → UInt32} {s : Surface}

theorem Roomy.content (h : Roomy m width workHeight) (a : App)
    (hs : layoutSurfaces storage m width workHeight (.app a) = s) : ContentInside m s := by
  have hwide : 320 ≤ s.width.toNat := hs ▸ (h.size a).wide
  have hhigh : 160 ≤ s.height.toNat := hs ▸ (h.size a).high
  have hx : (s.width - 14).toNat = s.width.toNat - 14 :=
    toNat_sub32 (show 14 ≤ _ by omega)
  have htitle : m.titleHeight.toNat ≤ 24 ∧ (contentY m).toNat = m.titleHeight.toNat + 8 := by
    rcases h.metrics with rfl | ⟨rfl, -⟩
    · decide
    · decide
  have hy := toNat_sub32 (show m.titleHeight.toNat ≤ s.height.toNat by omega)
  have hy' : (s.height - m.titleHeight - 15).toNat = (s.height - m.titleHeight).toNat - 15 :=
    toNat_sub32 (show 15 ≤ _ by omega)
  unfold ContentInside Rect.Within contentWidth contentHeight
  dsimp only
  show 7 + _ ≤ _ ∧ _
  omega

theorem Roomy.user (h : Roomy m width workHeight) {a : App} (ha : a.userAppId ≠ 0)
    (hs : layoutSurfaces storage m width workHeight (.app a) = s) : ShowsUserApp m s := by
  have hsize : s.width = 334 ∧ s.stride = 334 ∧ s.height = m.titleHeight + 224 + 15 := by
    rw [← hs]
    have huser := @windowSize_user m width workHeight a ha
    exact ⟨congrArg Prod.fst huser, congrArg Prod.fst huser, congrArg Prod.snd huser⟩
  obtain ⟨hw, hstride, hh⟩ := hsize
  have htitle : m.titleHeight = 16 ∨ m.titleHeight = 24 := by
    rcases h.metrics with rfl | ⟨rfl, -⟩
    · exact Or.inl rfl
    · exact Or.inr rfl
  refine ⟨by rw [contentWidth, hw]; decide, ?_, ?_⟩
  · unfold contentHeight
    rw [hh]
    rcases htitle with h | h <;> rw [h] <;> decide
  intro row column hrow hcolumn
  have hrow : row.toNat < 224 := UInt32.lt_iff_toNat_lt.mp hrow
  have hcolumn : column.toNat < 320 := UInt32.lt_iff_toNat_lt.mp hcolumn
  have hy : (contentY m).toNat = m.titleHeight.toNat + 8 ∧ (m.titleHeight + 224 + 15).toNat =
      m.titleHeight.toNat + 239 ∧ m.titleHeight.toNat ≤ 24 := by
    unfold contentY
    rcases htitle with h | h <;> rw [h] <;> decide
  have hdestination : (userAppDestination m s row column).toNat =
      (m.titleHeight.toNat + 8 + row.toNat) * 334 + 7 + column.toNat := by
    have hline : (contentY m + row).toNat = m.titleHeight.toNat + 8 + row.toNat := by
      rw [UInt32.toNat_add, hy.1]
      exact Nat.mod_eq_of_lt (by omega)
    unfold userAppDestination
    rw [UInt64.toNat_add, UInt64.toNat_add, UInt64.toNat_mul, UInt32.toNat_toUInt64,
      UInt32.toNat_toUInt64, UInt32.toNat_toUInt64, UInt32.toNat_toUInt64, hline, hstride]
    show ((_ * 334 % 2 ^ 64 + 7) % 2 ^ 64 + _) % 2 ^ 64 = _
    omega
  have hx : contentX.toNat = 7 := rfl
  unfold Surface.position
  rw [hdestination, hw, hh, hstride, hy.1, hy.2.1, hx]
  show _ = _ * 334 + _ ∧ _ < 334 * _
  omega

/-! ## The launcher -/

/-- The rectangle of a row of the launcher. -/
def launcherRect (m : Metrics) (s : Surface) (row : Fin 6) : Rect :=
  ⟨contentX + 8, contentY m + 22 * m.scale + UInt32.ofNat row.val * (13 * m.scale),
    contentWidth s - 16, 11 * m.scale⟩

/-- The rows are filled where they are looked up, inside the surface. -/
structure LauncherAgrees (m : Metrics) (s : Surface) : Prop where
  filled : ∀ (row : Fin 6) colors selection,
    (renderApplications m colors selection s)[2 + 3 * row.val]? =
      some (.fillRect (launcherRect m s row).x (launcherRect m s row).y (launcherRect m s row).width
        (launcherRect m s row).height
        (if UInt32.ofNat row.val = selection then colors.chrome else colors.terminal))
  inside : ∀ row, (launcherRect m s row).Within s.width s.height
  row_lt : ∀ x y entry, launcherEntryAt m s x y true = some entry → entry < 6
  found : ∀ row x y, launcherEntryAt m s x y true = some (UInt32.ofNat row.val) ↔
    (launcherRect m s row).Covers x.toNat y.toNat

theorem div_mod_row {offset pitch rowHeight row : Nat} (hle : rowHeight ≤ pitch) :
    (offset / pitch = row ∧ offset % pitch < rowHeight) ↔
      row * pitch ≤ offset ∧ offset < row * pitch + rowHeight := by
  constructor
  · rintro ⟨rfl, hmod⟩
    have := Nat.div_add_mod' offset pitch
    omega
  · rintro ⟨hlow, hhigh⟩
    obtain ⟨rest, rfl⟩ := Nat.exists_eq_add_of_le hlow
    have hrest : rest < rowHeight := by omega
    rw [Nat.mul_comm row, Nat.mul_add_div (by omega), Nat.mul_add_mod, Nat.div_eq_of_lt (by omega),
      Nat.mod_eq_of_lt (by omega)]
    exact ⟨rfl, hrest⟩

theorem launcherEntryAt_iff {start rowHeight pitch : Nat}
    (hstart : (contentY m + 22 * m.scale).toNat = start) (hrow : (11 * m.scale).toNat = rowHeight)
    (hpitch : (11 * m.scale + 2 * m.scale).toNat = pitch) (hle : rowHeight ≤ pitch)
    (hwide : 15 ≤ s.width.toNat) (x y entry : UInt32) :
    launcherEntryAt m s x y true = some entry ↔
      (15 ≤ x.toNat ∧ x.toNat < s.width.toNat - 15) ∧ entry.toNat < 6 ∧
        start + entry.toNat * pitch ≤ y.toNat ∧
        y.toNat < start + entry.toNat * pitch + rowHeight := by
  have hright : (s.width - contentX - 8).toNat = s.width.toNat - 15 := by
    rw [toNat_sub32, toNat_sub32 (show 7 ≤ _ by omega)]
    · show s.width.toNat - 7 - 8 = _
      omega
    · rw [toNat_sub32 (show 7 ≤ _ by omega)]
      show 8 ≤ s.width.toNat - 7
      omega
  have hleft : (contentX + 8).toNat = 15 := rfl
  have hbounds : (true = false ∨ x < contentX + 8 ∨ y < contentY m + 22 * m.scale ∨
      x ≥ s.width - contentX - 8) ↔
      x.toNat < 15 ∨ y.toNat < start ∨ s.width.toNat - 15 ≤ x.toNat := by
    simp only [UInt32.lt_iff_toNat_lt, UInt32.le_iff_toNat_le, ge_iff_le, hright, hleft, hstart,
      Bool.true_eq_false, false_or]
  unfold launcherEntryAt
  dsimp only
  split
  · next hout =>
    rw [hbounds] at hout
    simp only [reduceCtorEq, false_iff]
    omega
  · next hout =>
    rw [hbounds] at hout
    have hoffset : (y - (contentY m + 22 * m.scale)).toNat = y.toNat - start := by
      rw [toNat_sub32 (by omega), hstart]
    have hrows : (start + entry.toNat * pitch ≤ y.toNat ∧
        y.toNat < start + entry.toNat * pitch + rowHeight) ↔
        (y.toNat - start) / pitch = entry.toNat ∧ (y.toNat - start) % pitch < rowHeight := by
      rw [div_mod_row hle]
      omega
    simp only [ge_iff_le, UInt32.le_iff_toNat_le, UInt32.toNat_div, UInt32.toNat_mod, hoffset,
      hpitch, hrow]
    have hsix : (6 : UInt32).toNat = 6 := rfl
    split
    · simp only [reduceCtorEq, false_iff]
      omega
    · rw [Option.some.injEq, ← UInt32.toNat_inj, UInt32.toNat_div, hoffset, hpitch]
      omega

theorem Roomy.launcher (h : Roomy m width workHeight)
    (hs : layoutSurfaces storage m width workHeight (.app .applications) = s) :
    LauncherAgrees m s := by
  obtain ⟨w, hlow, -, -, -, -, happs⟩ := h.utilities
  have hwidth : s.width = w := by
    rw [← hs]
    exact congrArg Prod.fst happs
  have hheight : s.height = if m.scale = 2 then 244 else 160 := by
    rw [← hs]
    exact congrArg Prod.snd happs
  rw [← hwidth] at hlow
  have hcontent : (contentWidth s - 16).toNat = s.width.toNat - 30 := by
    unfold contentWidth
    have hsub : (s.width - 14).toNat = s.width.toNat - 14 :=
      toNat_sub32 (show 14 ≤ _ by omega)
    rw [toNat_sub32 (show 16 ≤ _ by omega), hsub]
    show _ - 16 = _
    omega
  have hleft : (contentX + 8).toNat = 15 := rfl
  -- the numbers of the two metrics
  obtain ⟨start, rowHeight, pitch, hstart, hrow, hpitch, hle, hend, hrect⟩ :
      ∃ start rowHeight pitch, (contentY m + 22 * m.scale).toNat = start ∧
        (11 * m.scale).toNat = rowHeight ∧ (11 * m.scale + 2 * m.scale).toNat = pitch ∧
        rowHeight ≤ pitch ∧ start + 5 * pitch + rowHeight ≤ s.height.toNat ∧
        ∀ row : Fin 6, (contentY m + 22 * m.scale + UInt32.ofNat row.val * (13 * m.scale)).toNat =
          start + row.val * pitch := by
    rw [hheight]
    rcases h.metrics with rfl | ⟨rfl, -⟩
    · exact ⟨46, 11, 13, rfl, rfl, rfl, by decide, by decide, by decide⟩
    · exact ⟨76, 22, 26, rfl, rfl, rfl, by decide, by decide, by decide⟩
  have hiff := launcherEntryAt_iff hstart hrow hpitch hle (show 15 ≤ s.width.toNat by omega)
  refine ⟨fun row colors selection => ?_, fun row => ?_, fun x y entry he =>
    UInt32.lt_iff_toNat_lt.mpr ((hiff x y entry).mp he).2.1, fun row x y => ?_⟩
  · rcases h.metrics with rfl | ⟨rfl, -⟩
    · match row with
      | 0 | 1 | 2 | 3 | 4 | 5 => rfl
    · match row with
      | 0 | 1 | 2 | 3 | 4 | 5 => rfl
  · have hlast := Nat.mul_le_mul_right pitch (show row.val ≤ 5 by omega)
    unfold launcherRect Rect.Within
    rw [hrect, hrow, hcontent, hleft]
    omega
  · have hname : (UInt32.ofNat row.val).toNat = row.val := by
      exact Nat.mod_eq_of_lt (by omega)
    rw [hiff, hname]
    unfold launcherRect Rect.Covers
    rw [hrect, hrow, hcontent, hleft]
    omega

end Contents

/-! ## The layout -/

/-- What a layout is for: sizes and positions come out without wrapping, the windows keep to the
    work area and the panel takes the rest, contents lie inside their surfaces, and the launcher's
    rows are found where they are drawn. -/
structure LayoutSound (width height : UInt32) (m : Metrics) (surfaces : Layer → Surface)
    (c : Compositor Layer) : Prop where
  work : checkedSub height m.panelHeight = some c.workHeight
  sizes : ∀ a, windowSizeChecked m width c.workHeight a =
    some ((surfaces (.app a)).width, (surfaces (.app a)).height)
  positions : placementsChecked surfaces width c.workHeight =
    some (placements surfaces width c.workHeight)
  windows : c.windows.map (·.surface) = App.all.map .app
  inside : ∀ w ∈ c.windows, w.x.toNat + (surfaces w.surface).width.toNat ≤ width.toNat ∧
    w.y.toNat + (surfaces w.surface).height.toNat ≤ c.workHeight.toNat
  panel : c.panel = some .panel ∧ c.panelY = c.workHeight ∧ (surfaces .panel).width = width ∧
    c.panelY.toNat + (surfaces .panel).height.toNat = height.toNat
  content : ∀ a, ContentInside m (surfaces (.app a))
  user : ∀ a : App, a.userAppId ≠ 0 → ShowsUserApp m (surfaces (.app a))
  launcher : LauncherAgrees m (surfaces (.app .applications))

/-- The windows of a layout are added, get their ids in order, and are hidden again. -/
theorem Roomy.compositor (h : Roomy m width workHeight)
    (hsum : workHeight.toNat + m.panelHeight.toNat = height.toNat) (storage : Layer → Nat → UInt32)
    (background : UInt32) :
    ∃ c ids, initializeCompositor (layoutSurfaces storage m width workHeight) width
      height workHeight
        background = some (c, ids) ∧ c.workHeight = workHeight ∧ c.panel = some .panel ∧
      c.panelY = workHeight ∧
      ∃ c₀ : Compositor Layer, c₀.width = width ∧ c₀.workHeight = workHeight ∧
        c.windows = (placements (layoutSurfaces storage m width workHeight) width workHeight).map
          (hiddenWindow ∘ placedWindow (layoutSurfaces storage m width workHeight) c₀) := by
  have hwidth := h.width_ge
  have hwork := h.work_ge
  obtain ⟨-, hpanel, -⟩ := h.layer .panel
  change 0 < m.panelHeight.toNat at hpanel
  have hvalid := h.valid storage
  have hsuits : ∀ a, (layoutSurfaces storage m width workHeight (.app a)).width.toNat ≤
      width.toNat ∧
      (layoutSurfaces storage m width workHeight (.app a)).height.toNat ≤
        workHeight.toNat := fun a =>
    ⟨Nat.le_of_add_right_le (h.size a).right, Nat.le_of_add_right_le (h.size a).bottom⟩
  have hbar : (layoutSurfaces storage m width workHeight .panel).width = width ∧
      (layoutSurfaces storage m width workHeight .panel).height = m.panelHeight := ⟨rfl, rfl⟩
  generalize layoutSurfaces storage m width workHeight = surfaces at hvalid hsuits hbar
  let c₀ : Compositor Layer := ⟨width, height, workHeight, background, [], [], none, 0, [], 0, 0, 0⟩
  have hinit : compositorInit width height workHeight background = some c₀ := by
    unfold compositorInit
    rw [if_neg]
    simp only [not_or, UInt32.not_lt, UInt32.le_iff_toNat_le]
    exact ⟨ne_zero_of_pos (by omega), ne_zero_of_pos (by omega),
      ne_zero_of_pos (by omega), by omega⟩
  have happs : (placements surfaces width workHeight).map Prod.fst = App.all := rfl
  obtain ⟨order, damage, ids, hplace, hids, -⟩ := @placeWindows_suits surfaces c₀
    (placements surfaces width workHeight) (fun _ => 0)
    (fun a => ⟨hvalid _, (hsuits a).1, (hsuits a).2⟩) (by rw [happs]; decide)
    (show 0 + 7 ≤ 8 by decide)
  have hguard : ¬(surfaceValid (surfaces .panel) = false ∨ (surfaces .panel).width ≠ width ∨
      workHeight ≥ height ∨ (surfaces .panel).height > height - workHeight) := by
    simp only [hvalid, hbar, not_or, ge_iff_le, gt_iff_lt, UInt32.lt_iff_toNat_lt,
      UInt32.le_iff_toNat_le, toNat_sub32 (show workHeight.toNat ≤ height.toNat by omega)]
    exact ⟨by decide, not_not.mpr rfl, by omega, by omega⟩
  unfold initializeCompositor
  rw [hinit]
  dsimp only [bind, Option.bind]
  rw [hplace]
  unfold compositorSetPanel
  dsimp only
  rw [if_neg hguard, compositorDamage_rest]
  generalize Compositor.damage _ = damage'
  let c₁ : Compositor Layer := { c₀ with
    windows := (placements surfaces width workHeight).map (placedWindow surfaces c₀)
    zOrder := order
    panel := some .panel
    panelY := workHeight
    damage := damage' }
  obtain ⟨damage, hhide⟩ := @hideWindows_all surfaces c₁ ids App.all [] c₁.windows rfl rfl (by
    intro i a ha
    rw [← happs, List.getElem?_map, Option.map_eq_some_iff] at ha
    obtain ⟨p, hp, rfl⟩ := ha
    exact hids i p hp)
  refine ⟨_, ids, (congrArg (Option.bind · _) hhide).trans rfl, rfl, rfl, rfl, c₀, rfl, rfl,
    List.map_map⟩

/-- **The layout at every resolution.** If the heap has storage for the surfaces, the desktop is
    laid out, and as it should be. -/
theorem desktop_layout (width height background : UInt32) (storage : Layer → Nat → UInt32)
    (hwidth : 640 ≤ width.toNat ∧ width.toNat < 2 ^ 31)
    (hheight : 400 ≤ height.toNat ∧ height.toNat < 2 ^ 31) :
    ∃ surfaces c ids,
      initializeSurfaces (fun layer => some (storage layer)) (.of width height) width
        (height - (Metrics.of width height).panelHeight) = some surfaces ∧
      initializeCompositor surfaces width height (height - (Metrics.of width height).panelHeight)
        background = some (c, ids) ∧
      LayoutSound width height (.of width height) surfaces c := by
  obtain ⟨h, hsum⟩ := roomy_of hwidth hheight
  generalize Metrics.of width height = m at *
  generalize hwork : height - m.panelHeight = workHeight at *
  obtain ⟨c, ids, hinit, hc, hpanel, hpanelY, c₀, hc₀, hw₀, hwindows⟩ :=
    h.compositor hsum storage background
  refine ⟨_, c, ids, h.surfaces storage, hinit, ?_⟩
  constructor
  case work =>
    rw [hc, ← hwork]
    exact checkedSub_eq (by omega)
  case sizes =>
    rw [hc]
    exact h.sizeChecked
  case positions =>
    rw [hc]
    exact h.positions storage
  case windows =>
    rw [hwindows]
    rfl
  case inside =>
    intro w hw
    rw [hwindows] at hw
    obtain ⟨p, -, rfl⟩ := List.mem_map.mp hw
    have hsize := h.size p.1
    have hright := hsize.right
    have hbottom := hsize.bottom
    rw [hc]
    have hx := @confine_fits p.2.1 (windowSize m width workHeight p.1).1 width (by omega)
    have hy := @confine_fits p.2.2 (windowSize m width workHeight p.1).2 workHeight (by omega)
    exact ⟨hc₀ ▸ hx, hw₀ ▸ hy⟩
  case panel =>
    rw [hc]
    exact ⟨hpanel, hpanelY, rfl, by rw [hpanelY]; exact hsum⟩
  case content => exact fun a => h.content a rfl
  case user => exact fun a ha => h.user ha rfl
  case launcher => exact h.launcher rfl

/-- The smallest screen. -/
theorem desktop_layout_smallest :
    ∃ surfaces c ids,
      initializeSurfaces (fun _ => some fun _ => 0) ⟨1, 24, 16⟩ 640 376 = some surfaces ∧
      initializeCompositor surfaces 640 400 376 0 = some (c, ids) ∧
      LayoutSound 640 400 ⟨1, 24, 16⟩ surfaces c :=
  desktop_layout 640 400 0 (fun _ _ => 0) (by decide) (by decide)

end Sizes

end ArgusOs.Gui
