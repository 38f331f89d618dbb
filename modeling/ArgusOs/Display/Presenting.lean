/-
  Drawing only what is damaged shows the same picture as drawing everything.

  `compositor_present` collects the damage of the surfaces into its own list and draws the
  picture on every rectangle of the list. After it nothing is pending and every pixel of the
  framebuffer is `composed_pixel` of the state (`compositorPresent_complete`).
  `composition_eq_redraw` is the result for whole runs of drawing, rearranging and presenting.
-/
import ArgusOs.Display.Composition

namespace ArgusOs.Display

open Lib Function

variable {g : Gop} {p : Point} {s : Surface}

variable {ι : Type}

/-! ## Presenting -/

theorem gopPutpixel_mode (g : Gop) (x y packed : UInt32) :
    SameMode g (gopPutpixel g x y packed) := by
  unfold gopPutpixel
  split <;> exact ⟨rfl, rfl, rfl, rfl⟩

theorem SameMode.of_put {g' : Gop} {x y packed : UInt32}
    (h : SameMode g (gopPutpixel g' x y packed)) : SameMode g g' :=
  have hput := gopPutpixel_mode g' x y packed
  ⟨hput.width.symm.trans h.width, hput.height.symm.trans h.height, hput.pitch.symm.trans h.pitch,
    hput.usable.symm.trans h.usable⟩

theorem gopPutpixel_shown (husable : g.usable = true) (hp : p.1 < g.width ∧ p.2 < g.height)
    (x y packed : UInt32) :
    (gopPutpixel g x y packed).shown p = if p = (x, y) then packed else g.shown p := by
  have hin : ∀ {a b : UInt32}, a < g.width → b < g.height →
      ¬(g.usable = false ∨ a ≥ g.width ∨ b ≥ g.height) := by
    intro a b ha hb
    simp [husable, UInt32.not_le, ha, hb]
  have hpitch : g.width.toNat ≤ g.pitchPixels.toNat :=
    UInt32.le_iff_toNat_le.mp (g.width_le_pitch husable)
  unfold Gop.shown gopGetpixel
  rw [(gopPutpixel_mode g x y packed).usable, (gopPutpixel_mode g x y packed).width,
    (gopPutpixel_mode g x y packed).height, (gopPutpixel_mode g x y packed).pitch,
    if_neg (hin hp.1 hp.2), if_neg (hin hp.1 hp.2)]
  unfold gopPutpixel
  by_cases hoff : g.usable = false ∨ x ≥ g.width ∨ y ≥ g.height
  · rw [if_pos hoff, if_neg]
    rintro rfl
    exact hin hp.1 hp.2 hoff
  · rw [if_neg hoff]
    push Not at hoff
    by_cases heq : p = (x, y)
    · subst heq
      rw [if_pos rfl]
      exact update_self ..
    · rw [if_neg heq]
      apply update_of_ne
      intro hpos
      obtain ⟨hy, hx⟩ := grid_position_inj
        (Nat.lt_of_lt_of_le (UInt32.lt_iff_toNat_lt.mp hp.1) hpitch)
        (Nat.lt_of_lt_of_le (UInt32.lt_iff_toNat_lt.mp (UInt32.not_le.mp hoff.2.1)) hpitch) hpos
      exact heq (Prod.ext (UInt32.toNat_inj.mp hx) (UInt32.toNat_inj.mp hy))

/-- A usable framebuffer of the compositor's size. -/
structure Fits (c : Compositor ι) (g : Gop) : Prop where
  usable : g.usable = true
  width : g.width = c.width
  height : g.height = c.height

variable {c : Compositor ι}

theorem Fits.of_mode {g' : Gop} (h : Fits c g) (hm : SameMode g g') : Fits c g' :=
  ⟨hm.usable.trans h.usable, hm.width.trans h.width, hm.height.trans h.height⟩

theorem Fits.shown_put (h : Fits c g) (hp : p ∈ onScreen c) (x y packed : UInt32) :
    (gopPutpixel g x y packed).shown p = if p = (x, y) then packed else g.shown p :=
  gopPutpixel_shown h.usable (by rw [h.width, h.height]; exact hp) x y packed

/-- The point that a turn of the loops over a rectangle draws. -/
theorem Rect.turn_of_covers {r : Rect} (hcov : r.Covers p.1.toNat p.2.toNat) :
    r.x + UInt32.ofNat (p.1.toNat - r.x.toNat) = p.1 ∧
      r.y + UInt32.ofNat (p.2.toNat - r.y.toNat) = p.2 := by
  obtain ⟨⟨h1, _⟩, h3, _⟩ := hcov
  have hp1 := p.1.toNat_lt
  have hp2 := p.2.toNat_lt
  constructor
  · rw [← UInt32.toNat_inj, UInt32.toNat_add, UInt32.toNat_ofNat',
      Nat.mod_eq_of_lt (show p.1.toNat - r.x.toNat < 2 ^ 32 by omega), Nat.mod_eq_of_lt (by omega)]
    omega
  · rw [← UInt32.toNat_inj, UInt32.toNat_add, UInt32.toNat_ofNat',
      Nat.mod_eq_of_lt (show p.2.toNat - r.y.toNat < 2 ^ 32 by omega), Nat.mod_eq_of_lt (by omega)]
    omega

variable {f : ι → Surface}

/-- Drawing the picture at one point, seen at a point. -/
theorem Fits.put_picture (h : Fits c g) (hp : p ∈ onScreen c) (x y : UInt32) :
    (gopPutpixel g x y (composedPixel c f x y)).shown p = picture c f p ∨
      (gopPutpixel g x y (composedPixel c f x y)).shown p = g.shown p := by
  rw [h.shown_put hp]
  by_cases heq : p = (x, y)
  · left
    rw [if_pos heq, heq]
    rfl
  · right
    rw [if_neg heq]

theorem presentRect_mode (c : Compositor ι) (f : ι → Surface) (g : Gop) (r : Rect) :
    SameMode g (presentRect c f g r) := by
  apply sweep_invariant (SameMode g) (.refl g)
  intro j _ i _ g' hg'
  exact hg'.trans (gopPutpixel_mode ..)

theorem presentRects_mode (c : Compositor ι) (f : ι → Surface) (damage : List Rect) (g : Gop) :
    SameMode g (damage.foldl (presentRect c f) g) := by
  induction damage generalizing g with
  | nil => exact .refl g
  | cons r damage ih => exact (presentRect_mode c f g r).trans (ih _)

theorem presentRect_inside (hfits : Fits c g) {r : Rect} (hr : r.Within c.width c.height)
    (hp : p ∈ onScreen c) (hcov : r.Covers p.1.toNat p.2.toNat) :
    (presentRect c f g r).shown p = picture c f p := by
  obtain ⟨hx, hy⟩ := Rect.turn_of_covers hcov
  obtain ⟨⟨h1, h2⟩, h3, h4⟩ := hcov
  have hright := toNat_add_of_le hr.1
  have hbottom := toNat_add_of_le hr.2
  -- the mode is part of what is carried: a turn says nothing about an unusable framebuffer
  refine sweep_establishes (fun g' => SameMode g g' → g'.shown p = picture c f p) g
    (j := p.2.toNat - r.y.toNat) (i := p.1.toNat - r.x.toNat) (by rw [hbottom]; omega)
    (by rw [hright]; omega) ?_ ?_ (presentRect_mode c f g r)
  · intro g' hg'
    rw [hx, hy] at hg' ⊢
    rw [(hfits.of_mode hg'.of_put).shown_put hp, if_pos rfl]
    rfl
  · intro j _ i _ g' hdone hg'
    rcases (hfits.of_mode hg'.of_put).put_picture hp (r.x + UInt32.ofNat i)
      (r.y + UInt32.ofNat j) with h | h
    · exact h
    · exact h.trans (hdone hg'.of_put)

/-- Every point shows the picture or what it showed. -/
theorem presentRect_elsewhere (hfits : Fits c g) (r : Rect) (hp : p ∈ onScreen c) :
    (presentRect c f g r).shown p = picture c f p ∨
      (presentRect c f g r).shown p = g.shown p := by
  have hdone : SameMode g (presentRect c f g r) ∧
      ((presentRect c f g r).shown p = picture c f p ∨
        (presentRect c f g r).shown p = g.shown p) := by
    apply sweep_invariant (fun g' : Gop =>
      SameMode g g' ∧ (g'.shown p = picture c f p ∨ g'.shown p = g.shown p))
      ⟨.refl g, Or.inr rfl⟩
    rintro j _ i _ g' ⟨hg', hshown⟩
    refine ⟨hg'.trans (gopPutpixel_mode ..), ?_⟩
    rcases (hfits.of_mode hg').put_picture hp (r.x + UInt32.ofNat i) (r.y + UInt32.ofNat j)
      with h | h
    · exact Or.inl h
    · exact hshown.imp h.trans h.trans
  exact hdone.2

theorem presentRects_spec {damage : List Rect} (hfits : Fits c g)
    (hin : ∀ r ∈ damage, r.Within c.width c.height) (hp : p ∈ onScreen c) :
    (damage.foldl (presentRect c f) g).shown p = picture c f p ∨
      ¬CoveredBy damage p ∧ (damage.foldl (presentRect c f) g).shown p = g.shown p := by
  induction damage generalizing g with
  | nil =>
    refine Or.inr ⟨?_, rfl⟩
    rintro ⟨r, hr, _⟩
    cases hr
  | cons r damage ih =>
    rw [List.forall_mem_cons] at hin
    rcases ih (hfits.of_mode (presentRect_mode c f g r)) hin.2 with h | ⟨hrest, h⟩
    · exact Or.inl h
    · by_cases hfirst : r.Covers p.1.toNat p.2.toNat
      · exact Or.inl (h.trans (presentRect_inside hfits hin.1 hp hfirst))
      · rcases presentRect_elsewhere hfits r hp with h₁ | h₁
        · exact Or.inl (h.trans h₁)
        · refine Or.inr ⟨?_, h.trans h₁⟩
          rintro ⟨r', hr', hcov⟩
          rcases List.mem_cons.mp hr' with rfl | hr'
          · exact hfirst hcov
          · exact hrest ⟨r', hr', hcov⟩

/-! ## Collecting the damage of the surfaces -/

theorem surfaceTakeDamage_pixels (x y : UInt32) :
    surfaceGetpixel (surfaceTakeDamage s).1 x y = surfaceGetpixel s x y := by
  unfold surfaceTakeDamage
  split <;> rfl

theorem surfaceTakeDamage_shape (s : Surface) : SameShape s (surfaceTakeDamage s).1 := by
  unfold surfaceTakeDamage
  split <;> exact ⟨rfl, rfl, rfl, rfl⟩

theorem surfaceTakeDamage_clean (hvalid : surfaceValid s = true) :
    (surfaceTakeDamage s).1.dirty = false := by
  rw [surfaceTakeDamage_spec hvalid]

theorem surfaceTakeDamage_taken (hvalid : surfaceValid s = true) :
    (surfaceTakeDamage s).2 = if s.dirty then some s.damage else none := by
  rw [surfaceTakeDamage_spec hvalid]

/-- The points a surface damages where it is shown, as the rectangle that is collected. -/
theorem Surface.DamagedFrom.collected (hs : s.DamageInside) {x y : UInt32} (width height : UInt32)
    (hright : x.toNat + s.width.toNat ≤ width.toNat)
    (hbottom : y.toNat + s.height.toNat ≤ height.toNat) (h : s.DamagedFrom x y p) :
    Rect.Covers ⟨x + s.damage.x, y + s.damage.y, s.damage.width, s.damage.height⟩
      p.1.toNat p.2.toNat := by
  obtain ⟨hx, hy, hdirty, ⟨h1, h2⟩, h3, h4⟩ := h
  obtain ⟨hw, hh⟩ := hs hdirty
  have hsx : (x + s.damage.x).toNat = x.toNat + s.damage.x.toNat :=
    toNat_add_of_le (c := width) (by omega)
  have hsy : (y + s.damage.y).toNat = y.toNat + s.damage.y.toNat :=
    toNat_add_of_le (c := height) (by omega)
  unfold Rect.Covers
  dsimp only
  omega

variable [DecidableEq ι]

/-- The surfaces after the damage of one of them was taken. -/
def takeFrom (f : ι → Surface) (i : ι) : ι → Surface :=
  update f i (surfaceTakeDamage (f i)).1

theorem takeFrom_shape (f : ι → Surface) (i j : ι) : SameShape (f j) (takeFrom f i j) := by
  unfold takeFrom
  by_cases h : j = i
  · subst h
    rw [update_self]
    exact surfaceTakeDamage_shape _
  · rw [update_of_ne h]
    exact .refl _

theorem takeFrom_pixels (f : ι → Surface) (i j : ι) (x y : UInt32) :
    surfaceGetpixel (takeFrom f i j) x y = surfaceGetpixel (f j) x y := by
  unfold takeFrom
  by_cases h : j = i
  · subst h
    rw [update_self, surfaceTakeDamage_pixels]
  · rw [update_of_ne h]

theorem takeFrom_of_ne (f : ι → Surface) {i j : ι} (h : j ≠ i) : takeFrom f i j = f j :=
  update_of_ne h ..

theorem takeFrom_self_clean {i : ι} (hvalid : surfaceValid (f i) = true) :
    (takeFrom f i i).dirty = false := by
  unfold takeFrom
  rw [update_self, surfaceTakeDamage_clean hvalid]

theorem takeFrom_clean {i j : ι} (h : (f j).dirty = false) : (takeFrom f i j).dirty = false := by
  by_cases hj : j = i
  · subst hj
    unfold takeFrom surfaceTakeDamage
    rw [update_self, if_pos (Or.inr h)]
    exact h
  · rw [takeFrom_of_ne f hj]
    exact h

theorem takeFrom_inside (h : ∀ i, (f i).DamageInside) (i j : ι) :
    (takeFrom f i j).DamageInside := by
  by_cases hj : j = i
  · subst hj
    unfold takeFrom surfaceTakeDamage
    rw [update_self]
    split
    · exact h j
    · intro hdirty
      cases hdirty
  · rw [takeFrom_of_ne f hj]
    exact h j

theorem picture_takeFrom (c : Compositor ι) (f : ι → Surface) (i : ι) (p : Point) :
    picture c (takeFrom f i) p = picture c f p := by
  apply picture_congr rfl rfl
  · intro id
    unfold layerPixel
    congr 1
    funext w
    have hshape := takeFrom_shape f i w.surface
    unfold Window.pixelAt Window.showsAt
    rw [hshape.width, hshape.height, takeFrom_pixels]
  · unfold panelPixel
    congr 1
    funext panel
    rw [(takeFrom_shape f i panel).height, takeFrom_pixels]

/-- Taking the damage of one surface repaints nothing if what it damages on the screen is
    damaged in the compositor. -/
theorem Repaints.of_take (h : Arranged c f) (i : ι)
    {damage : List Rect} (hok : DamageOk { c with damage := damage })
    (hkeeps : ∀ p ∈ onScreen c, CoveredBy c.damage p → CoveredBy damage p)
    (hwindow : ∀ w ∈ c.windows, w.surface = i → w.visible = true → ∀ p ∈ onScreen c,
      (f i).DamagedFrom w.x w.y p → CoveredBy damage p)
    (hpanel : c.panel = some i → ∀ p ∈ onScreen c, (f i).DamagedFrom 0 c.panelY p →
      CoveredBy damage p) :
    Repaints c f { c with damage := damage } (takeFrom f i) where
  arranged :=
    { size := h.size
      order := h.order
      count := h.count
      placed := by
        intro w hw
        have hshape := takeFrom_shape f i w.surface
        obtain ⟨hvalid, hright, hbottom⟩ := h.placed w hw
        exact ⟨hshape.valid.trans hvalid, by rwa [hshape.width], by rwa [hshape.height]⟩
      distinct := h.distinct
      panel := by
        intro panel hpanel
        have hshape := takeFrom_shape f i panel
        obtain ⟨hvalid, hwidth, hheight, hother⟩ := h.panel panel hpanel
        exact ⟨hshape.valid.trans hvalid, hshape.width.trans hwidth, by rwa [hshape.height], hother⟩
      inside := takeFrom_inside h.inside i
      damage := hok.within
      few := hok.few }
  width := rfl
  height := rfl
  keeps p hp hfresh := by
    refine ⟨?_, picture_takeFrom c f i p⟩
    have hcov : ¬CoveredBy damage p := fun hcov => hfresh (Or.inl hcov)
    rintro (hc | ⟨w, hw, hvisible, hd⟩ | ⟨panel, hpan, hd⟩)
    · exact hcov (hkeeps p hp hc)
    · by_cases hi : w.surface = i
      · exact hcov (hwindow w hw hi hvisible p hp (hi ▸ hd))
      · rw [← takeFrom_of_ne f hi] at hd
        exact hfresh (Or.inr (Or.inl ⟨w, hw, hvisible, hd⟩))
    · by_cases hi : panel = i
      · exact hcov (hpanel (hi ▸ hpan) p hp (hi ▸ hd))
      · rw [← takeFrom_of_ne f hi] at hd
        exact hfresh (Or.inr (Or.inr ⟨panel, hpan, hd⟩))

/-- Collecting from a window: only the damage list of the compositor changes. -/
theorem collectWindow_spec (h : Arranged c f) {w : Window ι} (hw : w ∈ c.windows) :
    (collectWindow (c, f) w).2 = takeFrom f w.surface ∧
      ∃ damage, (collectWindow (c, f) w).1 = { c with damage := damage } ∧
        Repaints c f { c with damage := damage } (takeFrom f w.surface) := by
  have hplaced := h.placed w hw
  have hsame : ∀ v ∈ c.windows, v.surface = w.surface → v = w := fun v hv heq =>
    List.inj_on_of_nodup_map h.distinct hv hw heq
  have hnopanel : c.panel ≠ some w.surface := fun hpanel =>
    (h.panel w.surface hpanel).2.2.2 w hw rfl
  have htaken := surfaceTakeDamage_taken hplaced.valid
  unfold collectWindow
  dsimp only
  rw [htaken]
  by_cases hdirty : (f w.surface).dirty = true
  · rw [if_pos hdirty]
    dsimp only
    by_cases hvisible : w.visible = false
    · rw [if_pos hvisible]
      refine ⟨rfl, c.damage, rfl, Repaints.of_take h _ h.damageOk (fun _ _ hc => hc) ?_
        (fun hpanel => absurd hpanel hnopanel)⟩
      intro v hv heq hshown
      rw [hsame v hv heq, hvisible] at hshown
      cases hshown
    · rw [if_neg hvisible]
      have hd := compositorDamage_spec h.damageOk (w.x + (f w.surface).damage.x)
        (w.y + (f w.surface).damage.y) (f w.surface).damage.width (f w.surface).damage.height
      refine ⟨rfl, _, hd.rest, Repaints.of_take h _ ⟨?_, hd.ok.few⟩ hd.keeps ?_
        (fun hpanel => absurd hpanel hnopanel)⟩
      · have hwithin := hd.ok.within
        rw [hd.rest] at hwithin
        exact hwithin
      · intro v hv heq _ p hp hdam
        rw [hsame v hv heq] at hdam
        exact hd.covers p hp (hdam.collected (h.inside _) _ _ hplaced.right hplaced.bottom)
  · rw [if_neg hdirty]
    refine ⟨rfl, c.damage, rfl, Repaints.of_take h _ h.damageOk (fun _ _ hc => hc) ?_ ?_⟩
    · intro v _ _ _ p _ hdam
      exact absurd hdam.2.2.1 hdirty
    · intro _ p _ hdam
      exact absurd hdam.2.2.1 hdirty

theorem collectWindows_spec {ws : List (Window ι)} (h : Arranged c f)
    (hsub : ∀ w ∈ ws, w ∈ c.windows) :
    ∃ damage g, ws.foldl collectWindow (c, f) = ({ c with damage := damage }, g) ∧
      Repaints c f { c with damage := damage } g ∧
      (∀ i, (f i).dirty = false → (g i).dirty = false) ∧ ∀ w ∈ ws, (g w.surface).dirty = false := by
  induction ws generalizing c f with
  | nil => exact ⟨c.damage, f, rfl, .refl h, fun _ hi => hi, fun _ hw => absurd hw (by simp)⟩
  | cons w ws ih =>
    rw [List.forall_mem_cons] at hsub
    obtain ⟨hsurfaces, damage₁, hcomp, hrep₁⟩ := collectWindow_spec h hsub.1
    obtain ⟨damage, g, hfold, hrep, hclean, hall⟩ := ih hrep₁.arranged hsub.2
    have hturn : collectWindow (c, f) w = ({ c with damage := damage₁ }, takeFrom f w.surface) :=
      Prod.ext hcomp hsurfaces
    refine ⟨damage, g, ?_, hrep₁.trans hrep, fun i hi => hclean i (takeFrom_clean hi), ?_⟩
    · rw [List.foldl_cons, hturn, hfold]
    · refine List.forall_mem_cons.mpr ⟨?_, hall⟩
      exact hclean _ (takeFrom_self_clean (h.placed w hsub.1).valid)

theorem collectPanel_none (h : c.panel = none) : collectPanel (c, f) = (c, f) := by
  unfold collectPanel
  rw [h]

theorem collectPanel_some {panel : ι} (h : c.panel = some panel)
    (hvalid : surfaceValid (f panel) = true) :
    collectPanel (c, f) =
      (if (f panel).dirty then compositorDamage c (f panel).damage.x
        (c.panelY + (f panel).damage.y) (f panel).damage.width (f panel).damage.height
      else c, takeFrom f panel) := by
  unfold collectPanel
  rw [h]
  dsimp only
  rw [surfaceTakeDamage_taken hvalid]
  by_cases hdirty : (f panel).dirty = true
  · rw [if_pos hdirty, if_pos hdirty]
    rfl
  · rw [if_neg hdirty, if_neg hdirty]
    rfl

theorem collectPanel_spec (h : Arranged c f) :
    ∃ damage g, collectPanel (c, f) = ({ c with damage := damage }, g) ∧
      Repaints c f { c with damage := damage } g ∧
      (∀ i, (f i).dirty = false → (g i).dirty = false) ∧
      ∀ panel, c.panel = some panel → (g panel).dirty = false := by
  rcases Option.eq_none_or_eq_some c.panel with hpanel | ⟨panel, hpanel⟩
  · refine ⟨c.damage, f, collectPanel_none hpanel, .refl h, fun _ hi => hi, ?_⟩
    intro panel hp
    rw [hpanel] at hp
    cases hp
  · obtain ⟨hvalid, hwidth, hheight, hother⟩ := h.panel panel hpanel
    have hclean : ∀ panel', c.panel = some panel' → (takeFrom f panel panel').dirty = false := by
      intro panel' hp
      obtain rfl := Option.some.inj (hpanel.symm.trans hp)
      exact takeFrom_self_clean hvalid
    rw [collectPanel_some hpanel hvalid]
    by_cases hdirty : (f panel).dirty = true
    · rw [if_pos hdirty]
      have hd := compositorDamage_spec h.damageOk (f panel).damage.x
        (c.panelY + (f panel).damage.y) (f panel).damage.width (f panel).damage.height
      refine ⟨_, takeFrom f panel, Prod.ext hd.rest rfl, Repaints.of_take h _ ⟨?_, hd.ok.few⟩
        hd.keeps (fun w hw heq => absurd heq (hother w hw)) ?_, fun i hi =>
          takeFrom_clean hi, hclean⟩
      · have hwithin := hd.ok.within
        rw [hd.rest] at hwithin
        exact hwithin
      · intro _ p hp hdam
        have hcov := hdam.collected (h.inside _) c.width c.height (by rw [hwidth]; simp) hheight
        rw [UInt32.zero_add] at hcov
        exact hd.covers p hp hcov
    · rw [if_neg hdirty]
      refine ⟨c.damage, takeFrom f panel, rfl, Repaints.of_take h _ h.damageOk (fun _ _ hc => hc)
        (fun w hw heq => absurd heq (hother w hw)) ?_, fun i hi => takeFrom_clean hi, hclean⟩
      intro _ p _ hdam
      exact absurd hdam.2.2.1 hdirty

/-- No surface that is shown holds damage. -/
structure Clean (c : Compositor ι) (f : ι → Surface) : Prop where
  windows : ∀ w ∈ c.windows, (f w.surface).dirty = false
  panel : ∀ panel, c.panel = some panel → (f panel).dirty = false

omit [DecidableEq ι] in
/-- Then only the compositor's own list is pending. -/
theorem Clean.covered (h : Clean c f) (hp : p ∈ pending c f) : CoveredBy c.damage p := by
  rcases hp with hcov | ⟨w, hw, _, hdam⟩ | ⟨panel, hpan, hdam⟩
  · exact hcov
  · have := h.windows w hw
    rw [hdam.2.2.1] at this
    cases this
  · have := h.panel panel hpan
    rw [hdam.2.2.1] at this
    cases this

theorem collectSurfaceDamage_spec (h : Arranged c f) :
    ∃ damage g, collectSurfaceDamage c f = ({ c with damage := damage }, g) ∧
      Repaints c f { c with damage := damage } g ∧ Clean { c with damage := damage } g := by
  obtain ⟨damage₁, g₁, hfold, hrep₁, _, hwindows⟩ := collectWindows_spec h fun _ hw => hw
  obtain ⟨damage, g, hcollect, hrep, hclean, hpanel⟩ := collectPanel_spec hrep₁.arranged
  refine ⟨damage, g, ?_, hrep₁.trans hrep, fun w hw => hclean _ (hwindows w hw), hpanel⟩
  unfold collectSurfaceDamage
  rw [hfold, hcollect]

/-! ## Whole runs -/

/-- What is kept between operations. -/
structure Screen.Sound (sc : Screen ι) : Prop where
  arranged : Arranged sc.compositor sc.surfaces
  fits : Fits sc.compositor sc.gop
  current : Current (onScreen sc.compositor) (pending sc.compositor sc.surfaces)
    (picture sc.compositor sc.surfaces) sc.gop.shown

/-- Nothing is pending and the screen shows the picture. -/
structure Screen.Complete (sc : Screen ι) : Prop where
  sound : sc.Sound
  settled : pending sc.compositor sc.surfaces = ∅
  shown : ∀ p ∈ onScreen sc.compositor, sc.gop.shown p = picture sc.compositor sc.surfaces p

omit [DecidableEq ι] in
theorem Arranged.emptied (h : Arranged c f) (frames pixels : UInt64) (last : UInt32) :
    Arranged { c with
      damage := [], frameCount := frames, damagePixels := pixels, lastDamageCount := last } f := by
  refine ⟨h.size, h.order, h.count, fun w hw => ?_, h.distinct, h.panel, h.inside,
    fun _ hr => absurd hr (List.not_mem_nil), Nat.zero_le _⟩
  exact ⟨(h.placed w hw).valid, (h.placed w hw).right, (h.placed w hw).bottom⟩

variable {sc : Screen ι}

/-- `compositor_present` on a usable framebuffer: the damage of the surfaces is collected and
    every rectangle of it is drawn. -/
theorem compositorPresent_eq (h : Arranged sc.compositor sc.surfaces)
    (husable : sc.gop.usable = true) :
    ∃ damage f frames pixels last,
      compositorPresent sc = (⟨f, { sc.compositor with
        damage := [], frameCount := frames, damagePixels := pixels, lastDamageCount := last },
        damage.foldl (presentRect { sc.compositor with damage := damage } f) sc.gop⟩, true) ∧
      Repaints sc.compositor sc.surfaces { sc.compositor with damage := damage } f ∧
      Clean { sc.compositor with damage := damage } f := by
  obtain ⟨damage, f, hcollect, hrep, hclean⟩ := collectSurfaceDamage_spec h
  refine ⟨damage, f, ?_⟩
  unfold compositorPresent
  rw [if_neg (by rw [husable]; decide), hcollect]
  dsimp only
  by_cases hempty : damage = []
  · subst hempty
    exact ⟨_, _, 0, rfl, hrep, hclean⟩
  · rw [if_neg hempty]
    exact ⟨_, _, _, rfl, hrep, hclean⟩

theorem compositorPresent_complete (h : sc.Sound) :
    (compositorPresent sc).2 = true ∧ (compositorPresent sc).1.Complete := by
  obtain ⟨damage, f, frames, pixels, last, heq, hrep, hclean⟩ :=
    compositorPresent_eq h.arranged h.fits.usable
  have hcur := hrep.current h.current
  have hfits : Fits { sc.compositor with damage := damage } sc.gop :=
    ⟨h.fits.usable, h.fits.width, h.fits.height⟩
  have hfits' :=
    hfits.of_mode (presentRects_mode { sc.compositor with damage := damage } f damage _)
  have hshown : ∀ p ∈ onScreen sc.compositor,
      (damage.foldl (presentRect { sc.compositor with damage := damage } f) sc.gop).shown p =
        picture { sc.compositor with damage := damage } f p := by
    intro p hp
    refine (hcur.refresh fun p hp => ?_).shown_eq hp
    rcases presentRects_spec (f := f) hfits hrep.arranged.damage hp with h | ⟨hcov, h⟩
    · exact Or.inl h
    · exact Or.inr ⟨fun hpending => hcov (hclean.covered hpending), h⟩
  rw [heq]
  refine ⟨rfl, ⟨hrep.arranged.emptied frames pixels last, ⟨hfits'.usable, hfits'.width,
    hfits'.height⟩, fun p hp _ => hshown p hp⟩, ?_, hshown⟩
  have hclean' : Clean { sc.compositor with
      damage := [], frameCount := frames, damagePixels := pixels, lastDamageCount := last } f :=
    ⟨hclean.windows, hclean.panel⟩
  refine Set.eq_empty_of_forall_notMem fun p hp => ?_
  obtain ⟨r, hr, _⟩ := hclean'.covered hp
  cases hr

/-- What is done to a screen. -/
inductive Action (ι : Type) where
  | draw (surface : ι) (drawing : Drawing)
  | moveWindow (windowId x y : UInt32)
  | raiseWindow (windowId : UInt32)
  | setWindowVisible (windowId : UInt32) (visible : Bool)
  | damage (x y width height : UInt32)
  | present

def Screen.act (sc : Screen ι) : Action ι → Screen ι
  | .draw surface drawing =>
    { sc with surfaces := update sc.surfaces surface ((sc.surfaces surface).draw drawing) }
  | .moveWindow windowId x y =>
    { sc with compositor := (compositorMoveWindow sc.compositor sc.surfaces windowId x y).1 }
  | .raiseWindow windowId =>
    { sc with compositor := (compositorRaiseWindow sc.compositor sc.surfaces windowId).1 }
  | .setWindowVisible windowId visible =>
    { sc with
      compositor := (compositorSetWindowVisible sc.compositor sc.surfaces windowId visible).1 }
  | .damage x y width height =>
    { sc with compositor := compositorDamage sc.compositor x y width height }
  | .present => (compositorPresent sc).1

def Screen.run (sc : Screen ι) (actions : List (Action ι)) : Screen ι := actions.foldl Screen.act sc

omit [DecidableEq ι] in
theorem Screen.Sound.of_repaints {sc' : Screen ι} (h : sc.Sound) (hgop : sc'.gop = sc.gop)
    (hrep : Repaints sc.compositor sc.surfaces sc'.compositor sc'.surfaces) : sc'.Sound where
  arranged := hrep.arranged
  fits := by
    rw [hgop]
    exact ⟨h.fits.usable, h.fits.width.trans hrep.width.symm, h.fits.height.trans hrep.height.symm⟩
  current := by
    rw [hgop]
    exact hrep.current h.current

theorem drawn_update (h : ∀ i, (f i).DamageInside) (surface : ι) (hs : Drawn (f surface) s)
    (i : ι) : Drawn (f i) (update f surface s i) := by
  by_cases hi : i = surface
  · subst hi
    rw [update_self]
    exact hs
  · rw [update_of_ne hi]
    exact .refl (h i)

theorem Screen.act_sound (h : sc.Sound) (a : Action ι) : (sc.act a).Sound := by
  cases a with
  | draw surface drawing =>
    have hinside := h.arranged.inside
    exact h.of_repaints rfl
      (.of_drawn h.arranged (drawn_update hinside surface (Surface.draw_drawn (hinside surface) _)))
  | moveWindow windowId x y =>
    exact h.of_repaints rfl (compositorMoveWindow_repaints h.arranged windowId x y)
  | raiseWindow windowId =>
    exact h.of_repaints rfl (compositorRaiseWindow_repaints h.arranged windowId)
  | setWindowVisible windowId visible =>
    exact h.of_repaints rfl (compositorSetWindowVisible_repaints h.arranged windowId visible)
  | damage x y width height =>
    exact h.of_repaints rfl (compositorDamage_repaints h.arranged x y width height)
  | present => exact (compositorPresent_complete h).2.sound

theorem Screen.run_sound (h : sc.Sound) (actions : List (Action ι)) : (sc.run actions).Sound := by
  induction actions generalizing sc with
  | nil => exact h
  | cons a actions ih => exact ih (Screen.act_sound h a)

theorem compositorPresent_mode (sc : Screen ι) : SameMode sc.gop (compositorPresent sc).1.gop := by
  unfold compositorPresent
  split
  · exact .refl _
  · dsimp only
    split
    · exact .refl _
    · exact presentRects_mode ..

theorem Screen.run_mode (sc : Screen ι) (actions : List (Action ι)) :
    SameMode sc.gop (sc.run actions).gop := by
  induction actions generalizing sc with
  | nil => exact .refl _
  | cons a actions ih =>
    refine SameMode.trans ?_ (ih (sc.act a))
    cases a with
    | present => exact compositorPresent_mode sc
    | _ => exact .refl _

/-! ## Setting up -/

/-- The windows that are to be added: surface and position of each. A call that is refused
    leaves the compositor as it is. -/
def addWindows (f : ι → Surface) (c : Compositor ι) (windows : List (ι × UInt32 × UInt32)) :
    Compositor ι :=
  windows.foldl (fun c w => (compositorAddWindow c f w.1 w.2.1 w.2.2).1) c

/-- Windows, panel, and everything damaged. -/
def setUp (f : ι → Surface) (c : Compositor ι) (windows : List (ι × UInt32 × UInt32)) (panel : ι)
    (panelY : UInt32) : Compositor ι :=
  compositorDamageAll (compositorSetPanel (addWindows f c windows) f panel panelY).1

omit [DecidableEq ι] in
theorem compositorInit_arranged {width height workHeight background : UInt32}
    (hf : ∀ i, (f i).DamageInside)
    (h : compositorInit width height workHeight background = some c) :
    Arranged c f ∧ c.width = width ∧ c.height = height ∧ c.windows = [] ∧ c.panel = none := by
  unfold compositorInit at h
  split at h
  · cases h
  · rename_i hok
    push Not at hok
    obtain rfl := Option.some.inj h
    refine ⟨⟨⟨hok.1, hok.2.1, hok.2.2.1, UInt32.not_lt.mp hok.2.2.2⟩, List.Perm.refl _,
      Nat.zero_le _, ?_, List.nodup_nil, ?_, hf, ?_, Nat.zero_le _⟩, rfl, rfl, rfl, rfl⟩
    · intro w hw
      cases hw
    · intro panel hpanel
      cases hpanel
    · intro r hr
      cases hr

omit [DecidableEq ι] in
theorem compositorAddWindow_arranged (h : Arranged c f) (hpanel : c.panel = none) {surface : ι}
    (hnew : surface ∉ c.windows.map (·.surface)) (x y : UInt32) : Arranged
    (compositorAddWindow c f surface x y).1 f := by
  unfold compositorAddWindow
  dsimp only
  split
  · exact h
  · rename_i hok
    push Not at hok
    obtain ⟨hvalid, hcount, hwidth, hheight⟩ := hok
    have hwidth := UInt32.le_iff_toNat_le.mp (UInt32.not_lt.mp hwidth)
    have hheight := UInt32.le_iff_toNat_le.mp (UInt32.not_lt.mp hheight)
    refine (compositorDamage_repaints ?_ _ _ _ _).arranged
    refine ⟨h.size, ?_, ?_, ?_, ?_, ?_, h.inside, h.damage, h.few⟩
    · rw [List.length_append, List.length_singleton, List.range_succ]
      exact h.order.append_right _
    · rw [List.length_append, List.length_singleton]
      omega
    · intro w hw
      rcases List.mem_append.mp hw with hw | hw
      · exact ⟨(h.placed w hw).valid, (h.placed w hw).right, (h.placed w hw).bottom⟩
      · obtain rfl := List.mem_singleton.mp hw
        exact ⟨by simpa using hvalid, confine_fits hwidth, confine_fits hheight⟩
    · rw [List.map_append, List.nodup_append']
      exact ⟨h.distinct, List.nodup_singleton _, List.disjoint_singleton.mpr hnew⟩
    · intro panel hp
      rw [show c.panel = some panel from hp] at hpanel
      cases hpanel

omit [DecidableEq ι] in
theorem compositorAddWindow_frame (c : Compositor ι) (f : ι → Surface) (surface : ι)
    (x y : UInt32) :
    (compositorAddWindow c f surface x y).1.width = c.width ∧
      (compositorAddWindow c f surface x y).1.height = c.height ∧
      (compositorAddWindow c f surface x y).1.panel = c.panel ∧
      ∀ s ∈ (compositorAddWindow c f surface x y).1.windows.map (·.surface),
        s ∈ c.windows.map (·.surface) ∨ s = surface := by
  unfold compositorAddWindow
  dsimp only
  split
  · exact ⟨rfl, rfl, rfl, fun _ hs => Or.inl hs⟩
  · simp

omit [DecidableEq ι] in
theorem addWindows_arranged (windows : List (ι × UInt32 × UInt32)) (h : Arranged c f)
    (hpanel : c.panel = none)
    (hdistinct : (c.windows.map (·.surface) ++ windows.map Prod.fst).Nodup) :
    Arranged (addWindows f c windows) f ∧ (addWindows f c windows).width = c.width ∧
      (addWindows f c windows).height = c.height ∧ ∀ w ∈ (addWindows f c windows).windows,
        w.surface ∈ c.windows.map (·.surface) ++ windows.map Prod.fst := by
  induction windows generalizing c with
  | nil => exact ⟨h, rfl, rfl, fun w hw => List.mem_append_left _ (List.mem_map_of_mem hw)⟩
  | cons w windows ih =>
    obtain ⟨hw, hh, hp, hsub⟩ := compositorAddWindow_frame c f w.1 w.2.1 w.2.2
    have hnew : w.1 ∉ c.windows.map (·.surface) := by
      intro hmem
      rw [List.nodup_append'] at hdistinct
      exact hdistinct.2.2 hmem (List.mem_cons_self ..)
    have hadd := compositorAddWindow_arranged h hpanel hnew w.2.1 w.2.2
    have hnext : ((compositorAddWindow c f w.1 w.2.1 w.2.2).1.windows.map (·.surface) ++
        windows.map Prod.fst).Nodup := by
      rw [List.nodup_append']
      rw [List.map_cons, List.nodup_append', List.nodup_cons] at hdistinct
      refine ⟨hadd.distinct, hdistinct.2.1.2, fun s hs hs' => ?_⟩
      rcases hsub s hs with hold | rfl
      · exact hdistinct.2.2 hold (List.mem_cons_of_mem _ hs')
      · exact hdistinct.2.1.1 hs'
    obtain ⟨harr, hwidth, hheight, hmem⟩ := ih hadd (hp.trans hpanel) hnext
    refine ⟨harr, hwidth.trans hw, hheight.trans hh, fun v hv => ?_⟩
    rcases List.mem_append.mp (hmem v hv) with hs | hs
    · rcases hsub _ hs with hold | heq
      · exact List.mem_append_left _ hold
      · exact List.mem_append_right _ (heq ▸ List.mem_cons_self ..)
    · exact List.mem_append_right _ (List.mem_cons_of_mem _ hs)

omit [DecidableEq ι] in
theorem compositorSetPanel_arranged (h : Arranged c f) (surface : ι)
    (hnew : ∀ w ∈ c.windows, w.surface ≠ surface) (y : UInt32) :
    Arranged (compositorSetPanel c f surface y).1 f ∧
      (compositorSetPanel c f surface y).1.width = c.width ∧
      (compositorSetPanel c f surface y).1.height = c.height := by
  unfold compositorSetPanel
  dsimp only
  split
  · exact ⟨h, rfl, rfl⟩
  · rename_i hok
    push Not at hok
    obtain ⟨hvalid, hwidth, hy, hheight⟩ := hok
    have hy := UInt32.lt_iff_toNat_lt.mp (UInt32.not_le.mp hy)
    have hheight := UInt32.le_iff_toNat_le.mp (UInt32.not_lt.mp hheight)
    rw [toNat_sub32 (by omega)] at hheight
    have harr : Arranged { c with panel := some surface, panelY := y } f := by
      refine ⟨h.size, h.order, h.count, fun w hw => ?_, h.distinct, ?_, h.inside, h.damage, h.few⟩
      · exact ⟨(h.placed w hw).valid, (h.placed w hw).right, (h.placed w hw).bottom⟩
      · intro panel hpanel
        obtain rfl := Option.some.inj hpanel
        exact ⟨by simpa using hvalid, by simpa using hwidth, by dsimp only; omega, hnew⟩
    have hrep := compositorDamage_repaints harr 0 y (f surface).width (f surface).height
    exact ⟨hrep.arranged, hrep.width, hrep.height⟩

omit [DecidableEq ι] in
/-- Once everything is damaged, whatever the framebuffer shows is accounted for. -/
theorem damageAll_sound (h : Arranged c f) (hfits : Fits c g) :
    Screen.Sound ⟨f, compositorDamageAll c, g⟩ where
  arranged := by
    refine ⟨h.size, h.order, h.count, fun w hw => ?_, h.distinct, h.panel, h.inside, ?_,
      show 1 ≤ 16 by decide⟩
    · exact ⟨(h.placed w hw).valid, (h.placed w hw).right, (h.placed w hw).bottom⟩
    · exact List.forall_mem_singleton.mpr (full_within c)
  fits := ⟨hfits.usable, hfits.width, hfits.height⟩
  current := .of_all_stale fun _ hp => Or.inl (full_covers (c := c) hp)

omit [DecidableEq ι] in
theorem setUp_sound (hf : ∀ i, (f i).DamageInside) (husable : g.usable = true)
    {workHeight background : UInt32}
    (hinit : compositorInit g.width g.height workHeight background = some c)
    {windows : List (ι × UInt32 × UInt32)} {panel : ι}
    (hdistinct : (panel :: windows.map Prod.fst).Nodup) (panelY : UInt32) :
    Screen.Sound ⟨f, setUp f c windows panel panelY, g⟩ := by
  obtain ⟨harr, hw, hh, hwindows, hpanel⟩ := compositorInit_arranged hf hinit
  rw [List.nodup_cons] at hdistinct
  obtain ⟨hadd, hw', hh', hmem⟩ := addWindows_arranged windows harr hpanel
    (by rw [hwindows]; exact hdistinct.2)
  rw [hwindows, List.map_nil, List.nil_append] at hmem
  obtain ⟨hset, hw'', hh''⟩ := compositorSetPanel_arranged hadd panel
    (fun w hw heq => hdistinct.1 (heq ▸ hmem w hw)) panelY
  refine damageAll_sound hset ⟨husable, ?_, ?_⟩
  · rw [hw'', hw', hw]
  · rw [hh'', hh', hh]

/-- From any set-up, after any run: the framebuffer differs from a full redraw only at pending
    points, the damage is on the screen in at most sixteen rectangles, and presenting succeeds
    and makes every pixel that of the full redraw. -/
theorem composition_eq_redraw (f : ι → Surface) (hf : ∀ i, (f i).DamageInside) (g : Gop)
    (husable : g.usable = true) (workHeight background : UInt32) (c : Compositor ι)
    (hinit : compositorInit g.width g.height workHeight background = some c)
    (windows : List (ι × UInt32 × UInt32)) (panel : ι)
    (hdistinct : (panel :: windows.map Prod.fst).Nodup) (panelY : UInt32)
    (actions : List (Action ι)) :
    let sc := Screen.run ⟨f, setUp f c windows panel panelY, g⟩ actions
    let next := (compositorPresent sc).1
    (∀ x y, x < g.width → y < g.height → (x, y) ∉ pending sc.compositor sc.surfaces →
      gopGetpixel sc.gop x y = composedPixel sc.compositor sc.surfaces x y) ∧
    (∀ r ∈ sc.compositor.damage, r.Within g.width g.height) ∧
    sc.compositor.damage.length ≤ argusCompositorMaxDamage ∧
    (∀ i, (sc.surfaces i).DamageInside) ∧
    (compositorPresent sc).2 = true ∧
    ∀ x y, x < g.width → y < g.height →
      gopGetpixel next.gop x y = composedPixel next.compositor next.surfaces x y := by
  intro sc next
  have hsound : sc.Sound := Screen.run_sound (setUp_sound hf husable hinit hdistinct panelY) actions
  obtain ⟨hpresented, hnext⟩ := compositorPresent_complete hsound
  have hmode : SameMode g sc.gop := Screen.run_mode ⟨f, setUp f c windows panel panelY, g⟩ actions
  have hmode' : SameMode g next.gop := hmode.trans (compositorPresent_mode sc)
  have hwidth := hsound.fits.width.symm.trans hmode.width
  have hheight := hsound.fits.height.symm.trans hmode.height
  refine ⟨?_, ?_, hsound.arranged.few, hsound.arranged.inside, hpresented, ?_⟩
  · intro x y hx hy hfresh
    exact hsound.current (x, y) ⟨hwidth ▸ hx, hheight ▸ hy⟩ hfresh
  · intro r hr
    rw [← hwidth, ← hheight]
    exact hsound.arranged.damage r hr
  · intro x y hx hy
    refine hnext.shown (x, y) ⟨?_, ?_⟩
    · rw [← hnext.sound.fits.width, hmode'.width]
      exact hx
    · rw [← hnext.sound.fits.height, hmode'.height]
      exact hy

/-- A window of two by two pixels and a panel of one row, on a screen of four by three. -/
def smallSurfaces (panel : Bool) : Surface :=
  if panel then ⟨true, fun _ => 0, 4, 1, 4, false, .zero⟩
    else ⟨true, fun _ => 0, 2, 2, 2, false, .zero⟩

def smallGop : Gop := ⟨fun _ => 0, 4, 3, 4, true, fun _ => by decide⟩

def smallCompositor : Compositor Bool := ⟨4, 3, 2, 7, [], [], none, 0, [], 0, 0, 0⟩

def smallScreen : Screen Bool :=
  ⟨smallSurfaces, setUp smallSurfaces smallCompositor [(false, 1, 0)] true 2, smallGop⟩

theorem composition_eq_redraw_onePixel :
    let next := (compositorPresent (smallScreen.run [.draw false (.putpixel 1 1 5)])).1
    gopGetpixel next.gop 2 1 = composedPixel next.compositor next.surfaces 2 1 :=
  (composition_eq_redraw smallSurfaces
    (fun panel hdirty => by cases panel <;> cases hdirty) smallGop rfl 2 7 smallCompositor rfl
    [(false, 1, 0)] true (by decide) 2 [.draw false (.putpixel 1 1 5)]).2.2.2.2.2 2 1 (by decide)
    (by decide)

end ArgusOs.Display
