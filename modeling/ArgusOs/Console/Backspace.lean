/-
  Backspace after a character.

  Printing moves the cursor on at once: at the end of a line to the next one, and on the last
  line it scrolls the region by a row of cells and puts the cursor on the last row of cells that
  ends with the region. Backspace only moves the cursor back. The two agree unless the character
  was printed on a row that does not end with the region but leaves no room for another one
  (`backspace_erases_iff`). `console_init` makes such a row, since it does not round the height
  of the screen down to whole cells; the other two ways to set up a region do.
-/
import ArgusOs.Console.Output

namespace ArgusOs.Console

open Lib Display

variable {gopRgb : UInt8 → UInt8 → UInt8 → UInt32}

/-! ## What is claimed -/

/-- A character that is drawn. -/
def Printable (c : UInt8) : Prop := c ≠ 8 ∧ c ≠ 9 ∧ c ≠ 10 ∧ c ≠ 13

/-- Printing at the cursor ends the line and leaves no room for the next one. -/
def State.Scrolls (k : State) : Prop :=
  k.regionX.toNat + k.regionW.toNat < k.cursorX.toNat + 2 * k.cellW.toNat ∧
    k.regionY.toNat + k.regionH.toNat < k.cursorY.toNat + 2 * k.cellH.toNat

instance (k : State) : Decidable k.Scrolls := inferInstanceAs (Decidable (_ ∧ _))

/-- It scrolls, from a row that ends above the end of the region. -/
def State.Misplaces (k : State) : Prop :=
  k.Scrolls ∧ k.cursorY.toNat + k.cellH.toNat ≠ k.regionY.toNat + k.regionH.toNat

instance (k : State) : Decidable k.Misplaces := inferInstanceAs (Decidable (_ ∧ _))

/-- How far up what was printed at the cursor is moved. -/
def State.shift (k : State) : Nat := if k.Scrolls then k.cellH.toNat else 0

def erase (k : State) (c : UInt8) : State := consolePutc (consolePutc k c) 8

/-- A character and a backspace: the cursor is on the cell of the character's glyph, wherever
    that was moved to; that cell showed the glyph, and it is all that was blanked. -/
structure Erases (k : State) (c : UInt8) : Prop where
  column : (erase k c).cursorX = k.cursorX
  row : (erase k c).cursorY.toNat + k.shift = k.cursorY.toNat
  held : ∀ x y, (k.cellAt (erase k c).cursorX (erase k c).cursorY).Covers x y →
    (consolePutc k c).target.picture x y =
      glyphArea k c (erase k c).cursorX (erase k c).cursorY k.target.picture x y
  blanked : ∀ x < k.target.width.toNat, ∀ y, (erase k c).target.picture x y =
    if (k.cellAt (erase k c).cursorX (erase k c).cursorY).Covers x y then k.bg
    else (consolePutc k c).target.picture x y

/-- The states of a console after its region was set up; others may draw on its target. -/
inductive Reaches (gopRgb : UInt8 → UInt8 → UInt8 → UInt32) (k₀ : State) : State → Prop where
  | start : Reaches gopRgb k₀ k₀
  | putc {k : State} (h : Reaches gopRgb k₀ k) (c : UInt8) : Reaches gopRgb k₀ (consolePutc k c)
  | setColor {k : State} (h : Reaches gopRgb k₀ k) (index : Nat) :
      Reaches gopRgb k₀ (consoleSetColor gopRgb k index)
  | clear {k : State} (h : Reaches gopRgb k₀ k) : Reaches gopRgb k₀ (consoleClear k)
  | elsewhere {k k' : State} {p : Picture} (h : Reaches gopRgb k₀ k) (hd : Draws k k' p) :
      Reaches gopRgb k₀ k'

theorem Seated.setColor {k : State} (h : Seated k) (index : Nat) :
    Seated (consoleSetColor gopRgb k index) := by
  unfold consoleSetColor
  dsimp only
  rw [if_neg (by simp [h.fits.mode])]
  obtain ⟨⟨hmode, hd, hin, hx, hy⟩, hc⟩ := h
  exact ⟨⟨hmode, hd, hin, hx, hy⟩, ⟨hc.left, hc.right, hc.top, hc.bottom, hc.column, hc.row⟩⟩

theorem Seated.clear {k : State} (h : Seated k) : Seated (consoleClear k) := by
  obtain ⟨hl, hr, ht, hb, -, -⟩ := h.cursor
  have hcorner : Seated (k.moveTo k.regionX k.regionY) :=
    .moveTo h.fits ⟨Nat.le_refl _, by omega, Nat.le_refl _, by omega,
      by rw [Nat.sub_self, Nat.zero_mod], fun _ => by rw [Nat.sub_self, Nat.zero_mod]⟩
  unfold consoleClear
  dsimp only
  rw [if_neg (by simp [hcorner.fits.mode])]
  exact hcorner.draws (State.fillRect_draws hcorner.fits.drawable k.region k.bg)

theorem Reaches.seated {k₀ k : State} (h : Reaches gopRgb k₀ k) (h₀ : Seated k₀) : Seated k := by
  induction h with
  | start => exact h₀
  | putc _ c ih => exact (consolePutc_confined ih c).seated
  | setColor _ index ih => exact ih.setColor index
  | clear _ ih => exact ih.clear
  | elsewhere _ hd ih => exact ih.draws hd

/-! ## A backspace -/

section Erasing

variable {k : State}

/-- Backspace moves the cursor and blanks the cell it comes to. -/
theorem backspace_spec (h : Seated k) {x y : UInt32} (hmove : stepBack k = k.moveTo x y) :
    (consolePutc k 8).cursorX = x ∧ (consolePutc k 8).cursorY = y ∧
      ∀ px < k.target.width.toNat, ∀ py, (consolePutc k 8).target.picture px py =
        if (k.cellAt x y).Covers px py then k.bg else k.target.picture px py := by
  have hback := (stepBack_confined h).seated
  have hputc : consolePutc k 8 = (k.moveTo x y).fillRect x y k.cellW k.cellH k.bg := by
    unfold consolePutc
    rw [if_neg (by simp [h.fits.mode])]
    simp only [show (8 : UInt8) ≠ 13 by decide, show (8 : UInt8) ≠ 10 by decide,
      show (8 : UInt8) ≠ 9 by decide, if_false, if_true, hmove]
    rfl
  rw [hmove] at hback
  rw [hputc]
  refine ⟨rfl, rfl, fun px hpx py => ?_⟩
  have hpaints := Target.fillRect_paints h.fits.drawable (k.cellAt x y) k.bg
  have hwithin : (k.cellAt x y).Within k.target.width k.target.height := hback.cell_within
  refine (hpaints.shows px hpx py).trans ?_
  simp only [fillArea, Rect.clipped_of_within hwithin]

variable {c : UInt8}

/-- The three places the cursor can come to when a glyph was drawn. -/
theorem print_cases (h : Seated k) (hc : Printable c) :
    ∃ d, Draws k d (glyphArea k c k.cursorX k.cursorY k.target.picture) ∧ Seated d ∧
      consolePutc k c =
        if k.cursorX.toNat + 2 * k.cellW.toNat ≤ k.regionX.toNat + k.regionW.toNat then
          d.moveTo (k.cursorX + k.cellW) k.cursorY
        else if k.cursorY.toNat + 2 * k.cellH.toNat ≤ k.regionY.toNat + k.regionH.toNat then
          d.moveTo k.regionX (k.cursorY + k.cellH)
        else d.scrolled.moveTo k.regionX (k.regionY + k.regionH - k.cellH) := by
  have hdraws := drawGlyph_draws h.fits.mode h.fits.drawable h.cell_within c
  have hseated := h.draws hdraws
  have hprint : consolePutc k c = printGlyph k c := by
    unfold consolePutc
    rw [if_neg (by simp [h.fits.mode]), if_neg hc.2.2.2, if_neg hc.2.2.1, if_neg hc.2.1,
      if_neg hc.1]
  rw [hprint, printGlyph_eq h]
  generalize drawGlyph k c k.cursorX k.cursorY = d at hdraws hseated
  refine ⟨d, hdraws, hseated, ?_⟩
  rw [advance_eq hseated, newLine_eq hseated]
  obtain ⟨t, ht, rfl, -⟩ := hdraws
  rfl

/-- A cursor with no room for another column is in the column backspace goes to. -/
theorem Seated.last_column (h : Seated k)
    (hend : k.regionX.toNat + k.regionW.toNat < k.cursorX.toNat + 2 * k.cellW.toNat) :
    k.regionX + k.regionW / k.cellW * k.cellW - k.cellW = k.cursorX := by
  have hlast := h.lastColumn.2.2
  obtain ⟨hl, hr, -, -, hc, -⟩ := h.cursor
  rw [← UInt32.toNat_inj]
  rcases k.cell_cases h.fits.mode with ⟨-, hw, -⟩ | ⟨-, hw, -⟩ <;>
    rw [hw] at hend hlast hr hc <;> omega

/-- Printing and going back to the cell of the glyph, which is shown there. -/
theorem Erases.of_back {q : State} {x y : UInt32} (hprint : consolePutc k c = q)
    (hseated : Seated q) (hbg : q.bg = k.bg) (hwidth : q.target.width = k.target.width)
    (hcell : ∀ x y, q.cellAt x y = k.cellAt x y) (hmove : stepBack q = q.moveTo x y)
    (hx : x = k.cursorX) (hy : y.toNat + k.shift = k.cursorY.toNat)
    (hheld : ∀ px py, (k.cellAt k.cursorX y).Covers px py →
      q.target.picture px py = glyphArea k c k.cursorX y k.target.picture px py) : Erases k c := by
  subst hprint hx
  obtain ⟨hcx, hcy, hblank⟩ := backspace_spec hseated hmove
  rw [hwidth, hbg, hcell] at hblank
  refine ⟨hcx, ?_, ?_, ?_⟩ <;> unfold erase
  · rw [hcy, hy]
  · rw [hcx, hcy]
    exact hheld
  · rw [hcx, hcy]
    exact hblank

theorem Seated.glyph_shown (h : Seated k) {t : Target}
    (hp : Paints k.target t (glyphArea k c k.cursorX k.cursorY k.target.picture)) {px py : Nat}
    (hcov : (k.cellAt k.cursorX k.cursorY).Covers px py) :
    t.picture px py = glyphArea k c k.cursorX k.cursorY k.target.picture px py :=
  hp.shows px ((Rect.clipped_of_within h.cell_within px py).mpr hcov).2.1 py

/-- Without scrolling, backspace comes back to where the character was printed. -/
theorem erases_of_not_scrolls (h : Seated k) (hc : Printable c) (hno : ¬k.Scrolls) :
    Erases k c := by
  obtain ⟨d, hdraws, hd, hprint⟩ := print_cases h hc
  obtain ⟨t, ht, rfl, hp⟩ := hdraws
  obtain ⟨hl, hr, htop, hb, -, -⟩ := h.cursor
  obtain ⟨hnextX, hnextY⟩ := h.next_toNat
  have hshift : k.cursorY.toNat + k.shift = k.cursorY.toNat := by
    rw [State.shift, if_neg hno, Nat.add_zero]
  by_cases hfit : k.cursorX.toNat + 2 * k.cellW.toNat ≤ k.regionX.toNat + k.regionW.toNat
  · rw [if_pos hfit] at hprint
    have hseated := Seated.moveTo hd.fits (hd.next hfit)
    have hmove := (stepBack_eq hseated).trans
      (if_pos (show k.regionX.toNat + k.cellW.toNat ≤ (k.cursorX + k.cellW).toNat by omega))
    exact Erases.of_back hprint hseated rfl hp.width (fun _ _ => rfl) hmove
      (UInt32.add_sub_cancel _ _) hshift fun px py => h.glyph_shown hp
  · have hfitY : k.cursorY.toNat + 2 * k.cellH.toNat ≤ k.regionY.toNat + k.regionH.toNat := by
      unfold State.Scrolls at hno
      omega
    rw [if_neg hfit, if_pos hfitY] at hprint
    have hseated := Seated.moveTo hd.fits (hd.down hfitY)
    have hpos : 0 < k.cellW.toNat := by
      rcases k.cell_cases h.fits.mode with ⟨-, hw, -⟩ | ⟨-, hw, -⟩ <;> omega
    have hmove := (stepBack_eq hseated).trans ((if_neg (show
        ¬k.regionX.toNat + k.cellW.toNat ≤ k.regionX.toNat by omega)).trans
      (if_pos (show k.regionY.toNat + k.cellH.toNat ≤ (k.cursorY + k.cellH).toNat by omega)))
    have hrow : k.cursorY + k.cellH - k.cellH = k.cursorY := UInt32.add_sub_cancel _ _
    refine Erases.of_back hprint hseated rfl hp.width (fun _ _ => rfl) hmove
      (h.last_column (by omega)) ?_ fun px py hcov => ?_
    · exact (congrArg (fun y => UInt32.toNat y + k.shift) hrow).trans hshift
    · show t.picture px py = glyphArea k c k.cursorX (k.cursorY + k.cellH - k.cellH) _ px py
      rw [hrow]
      apply h.glyph_shown hp
      rw [← hrow]
      exact hcov

/-- A glyph and the same glyph higher up. -/
theorem glyphArea_shift {x y y' : UInt32} {n px py : Nat} (hy : y.toNat + n = y'.toNat)
    (hcov : (k.cellAt x y).Covers px py) :
    (k.cellAt x y').Covers px (py + n) ∧
      ∀ p p', glyphArea k c x y' p px (py + n) = glyphArea k c x y p' px py := by
  have hcov' : (k.cellAt x y').Covers px (py + n) := by
    simp only [Rect.Covers, State.cellAt] at hcov ⊢
    omega
  refine ⟨hcov', fun p p' => ?_⟩
  simp only [glyphArea, dotArea, if_pos hcov, if_pos hcov',
    show py + n - y'.toNat = py - y.toNat by omega]

/-- The row backspace comes to after scrolling is the last but one that ends with the region. -/
theorem erase_of_scrolls (h : Seated k) (hc : Printable c) (hscrolls : k.Scrolls)
    (hrows : 2 * k.cellH.toNat ≤ k.regionH.toNat) :
    (erase k c).cursorY.toNat + 2 * k.cellH.toNat = k.regionY.toNat + k.regionH.toNat ∧
      (k.cursorY.toNat + k.cellH.toNat = k.regionY.toNat + k.regionH.toNat → Erases k c) := by
  obtain ⟨d, hdraws, hd, hprint⟩ := print_cases h hc
  obtain ⟨t, ht, rfl, hp⟩ := hdraws
  have hend := hscrolls
  unfold State.Scrolls at hend
  rw [if_neg (by omega), if_neg (by omega)] at hprint
  have hscrolled := hd.scrolled
  have hseated := Seated.moveTo hscrolled.seated.fits hscrolled.seated.last
  obtain ⟨hl, hr, htop, hb, -, -⟩ := h.cursor
  have hlast := h.last_toNat
  have hpos : 0 < k.cellW.toNat := by
    rcases k.cell_cases h.fits.mode with ⟨-, hw, -⟩ | ⟨-, hw, -⟩ <;> omega
  have hmove := (stepBack_eq hseated).trans ((if_neg (show
      ¬k.regionX.toNat + k.cellW.toNat ≤ k.regionX.toNat by omega)).trans
    (if_pos (show k.regionY.toNat + k.cellH.toNat ≤
      (k.regionY + k.regionH - k.cellH).toNat by omega)))
  have hrow : (k.regionY + k.regionH - k.cellH - k.cellH).toNat + 2 * k.cellH.toNat =
      k.regionY.toNat + k.regionH.toNat := by
    rw [toNat_sub32 (by omega)]
    omega
  constructor
  · have hcursor := (backspace_spec hseated hmove).2.1
    unfold erase
    rw [hprint]
    exact (congrArg (fun y => UInt32.toNat y + 2 * k.cellH.toNat) hcursor).trans hrow
  · intro haligned
    have hy : (k.regionY + k.regionH - k.cellH - k.cellH).toNat + k.cellH.toNat =
        k.cursorY.toNat := by omega
    refine Erases.of_back hprint hseated rfl ?_ (fun _ _ => rfl) hmove (h.last_column hend.1) ?_
      fun px py hcov => ?_
    · exact hscrolled.width.trans hp.width
    · rw [State.shift, if_pos hscrolls]
      exact hy
    · have hcov : (k.cellAt k.cursorX (k.regionY + k.regionH - k.cellH - k.cellH)).Covers px py :=
        hcov
      obtain ⟨hsource, hglyph⟩ := glyphArea_shift hy hcov
      have hup := Target.scrollRectUp_paints hp.drawable k.region k.cellH k.bg
      have hin : k.region.Covers px py := by
        simp only [Rect.Covers, State.cellAt, State.region] at hcov ⊢
        omega
      have hfits := Rect.clipped_of_within (hp.within h.fits.inside)
      refine (hup.shows px ((hfits px py).mpr hin).2.1 py).trans ?_
      unfold scrollAreaUp
      rw [if_pos ((hfits px py).mpr hin), if_pos ((hfits _ _).mpr (h.cell_covers hsource)),
        h.glyph_shown hp hsource]
      exact hglyph _ _

end Erasing

/-! ## When backspace erases -/

/-- At every state of a console with an accepted region of at least two rows: if the ends of the
    region leave room for a cell, backspace erases the character just printed exactly when
    printing did not scroll the region from a row of cells that ends above the end of the region;
    in such a region of whole rows it always does. -/
theorem backspace_erases_iff {k₀ k : State} (hset : SetUp gopRgb k₀) (hreach : Reaches gopRgb k₀ k)
    (hrows : 2 * k.cellH.toNat ≤ k.regionH.toNat) {c : UInt8} (hc : Printable c) :
    (k₀.Room ∧ ¬k.Misplaces → Erases k c) ∧ (k₀.Room ∧ k.Misplaces → ¬Erases k c) ∧
      (k₀.Room ∧ k.regionH.toNat % k.cellH.toNat = 0 → Erases k c) := by
  have hseated := fun hroom => hreach.seated (hset.atCorner.seated hroom)
  have hiff : k₀.Room → (Erases k c ↔ ¬k.Misplaces) := by
    intro hroom
    have h := hseated hroom
    by_cases hscrolls : k.Scrolls
    · obtain ⟨hrow, herases⟩ := erase_of_scrolls h hc hscrolls hrows
      refine ⟨fun he hmiss => ?_, fun hhit => herases ?_⟩
      · have hback := he.row
        rw [State.shift, if_pos hscrolls] at hback
        exact hmiss.2 (by omega)
      · by_contra hne
        exact hhit ⟨hscrolls, hne⟩
    · exact ⟨fun _ hmiss => hscrolls hmiss.1, fun _ => erases_of_not_scrolls h hc hscrolls⟩
  refine ⟨fun h => (hiff h.1).mpr h.2, fun h he => (hiff h.1).mp he h.2,
    fun ⟨hroom, hwhole⟩ => (hiff hroom).mpr ?_⟩
  -- in whole rows, a row that leaves no room for another one is the last
  rintro ⟨⟨-, hend⟩, hne⟩
  have h := hseated hroom
  have hrow := h.cursor.row hwhole
  have htop := h.cursor.top
  have hbottom := h.cursor.bottom
  rcases k.cell_cases h.fits.mode with ⟨-, -, hh⟩ | ⟨-, -, hh⟩ <;>
    rw [hh] at hend hne hrow hwhole hbottom <;> omega

/-- On the small screen, whose lower row of cells ends two lines above its end: the first
    letter is printed in the upper row and erased. -/
theorem backspace_erases_iff_small :
    2 * smallConsole.cellH.toNat ≤ smallConsole.regionH.toNat ∧ Erases smallConsole 97 := by
  have hrows : 2 * smallConsole.cellH.toNat ≤ smallConsole.regionH.toNat := by decide +kernel
  refine ⟨hrows, (backspace_erases_iff (.init zeroState none smallScreen (by decide +kernel)) .start
    hrows ⟨by decide, by decide, by decide, by decide⟩).1 ⟨?_, by decide +kernel⟩⟩
  exact ⟨by decide +kernel, by decide +kernel⟩

/-- The second letter is printed in the lower row. Printing it scrolls its glyph to the
    upper row, and backspace blanks a cell two lines below that. -/
theorem backspace_misses_glyph :
    SetUp (fun _ _ _ => 0) smallConsole ∧ 2 * smallConsole.cellH.toNat ≤
      smallConsole.regionH.toNat ∧
      Printable 98 ∧ ¬Erases (consolePutc smallConsole 97) 98 := by
  refine ⟨.init zeroState none smallScreen (by decide +kernel), by decide +kernel,
    ⟨by decide, by decide, by decide, by decide⟩, fun h => ?_⟩
  exact absurd h.row (by decide +kernel)

end ArgusOs.Console
