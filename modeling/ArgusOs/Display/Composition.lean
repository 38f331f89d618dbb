/-
  What is seen on the screen, what is pending, and what each operation does to both.

  The picture is `composed_pixel` at every point of the screen. A point is pending if it lies
  in a damage rectangle of the compositor, or in the damage of the panel or of a visible
  window's surface, moved to where that surface is shown. Every operation but presenting obeys
  `Repaints`: a point that is not pending afterwards was not pending before and shows what it
  showed before.

  The windows and the panel have surfaces of their own: the damage of a surface is taken once,
  for the first window that shows it.
-/
import ArgusOs.Display.Compositor

namespace ArgusOs.Display

open Lib

variable {ι : Type}

/-! ## What the screen shows and what is pending -/

/-- A point of the screen. -/
abbrev Point := UInt32 × UInt32

def onScreen (c : Compositor ι) : Set Point := {p | p.1 < c.width ∧ p.2 < c.height}

/-- The full redraw. -/
def picture (c : Compositor ι) (f : ι → Surface) (p : Point) : UInt32 := composedPixel c f p.1 p.2

def Gop.shown (g : Gop) (p : Point) : UInt32 := gopGetpixel g p.1 p.2

/-- The point lies in one of the rectangles. -/
def CoveredBy (damage : List Rect) (p : Point) : Prop :=
  ∃ r ∈ damage, r.Covers p.1.toNat p.2.toNat

/-- The point lies in the damage of a surface shown at `(x, y)`. -/
def Surface.DamagedFrom (s : Surface) (x y : UInt32) (p : Point) : Prop :=
  x.toNat ≤ p.1.toNat ∧ y.toNat ≤ p.2.toNat ∧
    s.DamagedAt (p.1.toNat - x.toNat) (p.2.toNat - y.toNat)

def pending (c : Compositor ι) (f : ι → Surface) : Set Point :=
  {p | CoveredBy c.damage p ∨
    (∃ w ∈ c.windows, w.visible = true ∧ (f w.surface).DamagedFrom w.x w.y p) ∨
    ∃ panel, c.panel = some panel ∧ (f panel).DamagedFrom 0 c.panelY p}

/-- The window lies in the work area. -/
structure Placed (c : Compositor ι) (s : Surface) (w : Window ι) : Prop where
  valid : surfaceValid s = true
  right : w.x.toNat + s.width.toNat ≤ c.width.toNat
  bottom : w.y.toNat + s.height.toNat ≤ c.workHeight.toNat

/-- The compositor and its surfaces as the operations keep them. -/
structure Arranged (c : Compositor ι) (f : ι → Surface) : Prop where
  size : c.width ≠ 0 ∧ c.height ≠ 0 ∧ c.workHeight ≠ 0 ∧ c.workHeight ≤ c.height
  order : c.zOrder.Perm (List.range c.windows.length)
  count : c.windows.length ≤ argusCompositorMaxWindows
  placed : ∀ w ∈ c.windows, Placed c (f w.surface) w
  distinct : (c.windows.map (·.surface)).Nodup
  panel : ∀ panel, c.panel = some panel → surfaceValid (f panel) = true ∧
    (f panel).width = c.width ∧ c.panelY.toNat + (f panel).height.toNat ≤ c.height.toNat ∧
    ∀ w ∈ c.windows, w.surface ≠ panel
  inside : ∀ i, (f i).DamageInside
  damage : ∀ r ∈ c.damage, r.Within c.width c.height
  few : c.damage.length ≤ argusCompositorMaxDamage

/-- What every operation but presenting does. -/
structure Repaints (c : Compositor ι) (f : ι → Surface) (c' : Compositor ι) (f' : ι → Surface) :
    Prop where
  arranged : Arranged c' f'
  width : c'.width = c.width
  height : c'.height = c.height
  keeps : ∀ p ∈ onScreen c, p ∉ pending c' f' → p ∉ pending c f ∧ picture c' f' p = picture c f p

variable {c : Compositor ι} {f : ι → Surface}

theorem Repaints.refl (h : Arranged c f) : Repaints c f c f :=
  ⟨h, rfl, rfl, fun _ _ hp => ⟨hp, rfl⟩⟩

theorem onScreen_congr {c' : Compositor ι} (hwidth : c'.width = c.width)
    (hheight : c'.height = c.height) : onScreen c' = onScreen c := by
  unfold onScreen
  rw [hwidth, hheight]

theorem Repaints.trans {c' c'' : Compositor ι} {f' f'' : ι → Surface}
    (h : Repaints c f c' f') (h' : Repaints c' f' c'' f'') : Repaints c f c'' f'' where
  arranged := h'.arranged
  width := h'.width.trans h.width
  height := h'.height.trans h.height
  keeps p hp hfresh := by
    rw [← onScreen_congr h.width h.height] at hp
    obtain ⟨hfresh', hpicture⟩ := h'.keeps p hp hfresh
    rw [onScreen_congr h.width h.height] at hp
    obtain ⟨hfresh'', hpicture'⟩ := h.keeps p hp hfresh'
    exact ⟨hfresh'', hpicture.trans hpicture'⟩

/-- The screen stays up to date outside of what is pending. -/
theorem Repaints.current {c' : Compositor ι} {f' : ι → Surface} {shown : Point → UInt32}
    (h : Repaints c f c' f') (hcur : Current (onScreen c) (pending c f) (picture c f) shown) :
    Current (onScreen c') (pending c' f') (picture c' f') shown := by
  rw [onScreen_congr h.width h.height]
  exact hcur.change h.keeps

/-! ## Damage -/

theorem mergeDamage_spec {width height : UInt32} {q : Rect} (hq : q.Within width height)
    {damage damage' : List Rect} (h : mergeDamage q damage = some damage')
    (hin : ∀ r ∈ damage, r.Within width height) :
    damage'.length = damage.length ∧ (∀ r ∈ damage', r.Within width height) ∧
      ∀ p : Point, CoveredBy damage p ∨ q.Covers p.1.toNat p.2.toNat → CoveredBy damage' p := by
  induction damage generalizing damage' with
  | nil => cases h
  | cons r rest ih =>
    rw [List.forall_mem_cons] at hin
    unfold mergeDamage at h
    split at h
    · obtain rfl := Option.some.inj h
      obtain ⟨hjoin, hcovers⟩ := Rect.join_spec hin.1 hq
      refine ⟨rfl, List.forall_mem_cons.mpr ⟨hjoin, hin.2⟩, ?_⟩
      rintro p (⟨r', hr', hcov⟩ | hcov)
      · rcases List.mem_cons.mp hr' with rfl | hr'
        · exact ⟨_, List.mem_cons_self .., hcovers _ _ (Or.inl hcov)⟩
        · exact ⟨r', List.mem_cons_of_mem _ hr', hcov⟩
      · exact ⟨_, List.mem_cons_self .., hcovers _ _ (Or.inr hcov)⟩
    · obtain ⟨rest', hrest', rfl⟩ := Option.map_eq_some_iff.mp h
      obtain ⟨hlen, hin', hcovers⟩ := ih hrest' hin.2
      refine ⟨by simp [hlen], List.forall_mem_cons.mpr ⟨hin.1, hin'⟩, ?_⟩
      have htail : ∀ p, CoveredBy rest' p → CoveredBy (r :: rest') p := by
        rintro p ⟨r', hr', hcov⟩
        exact ⟨r', List.mem_cons_of_mem _ hr', hcov⟩
      rintro p (⟨r', hr', hcov⟩ | hcov)
      · rcases List.mem_cons.mp hr' with rfl | hr'
        · exact ⟨_, List.mem_cons_self .., hcov⟩
        · exact htail p (hcovers p (Or.inl ⟨r', hr', hcov⟩))
      · exact htail p (hcovers p (Or.inr hcov))

variable {p : Point}

theorem full_covers (hp : p ∈ onScreen c) : CoveredBy [⟨0, 0, c.width, c.height⟩] p := by
  refine ⟨_, List.mem_singleton_self _, ⟨Nat.zero_le _, ?_⟩, Nat.zero_le _, ?_⟩
  · simpa using UInt32.lt_iff_toNat_lt.mp hp.1
  · simpa using UInt32.lt_iff_toNat_lt.mp hp.2

theorem full_within (c : Compositor ι) :
    Rect.Within ⟨0, 0, c.width, c.height⟩ c.width c.height := by
  simp [Rect.Within]

/-- A list of damage on the screen that is no longer than it may be. -/
structure DamageOk (c : Compositor ι) : Prop where
  within : ∀ r ∈ c.damage, r.Within c.width c.height
  few : c.damage.length ≤ argusCompositorMaxDamage

theorem addDamage_spec (h : DamageOk c) {q : Rect} (hq : q.Within c.width c.height) :
    DamageOk { c with damage := addDamage c q } ∧ ∀ p ∈ onScreen c,
      CoveredBy c.damage p ∨ q.Covers p.1.toNat p.2.toNat → CoveredBy (addDamage c q) p := by
  unfold addDamage
  split
  · rename_i damage hmerge
    obtain ⟨hlen, hin, hcovers⟩ := mergeDamage_spec hq hmerge h.within
    refine ⟨⟨hin, ?_⟩, fun p _ => hcovers p⟩
    dsimp only
    rw [hlen]
    exact h.few
  · split
    · refine ⟨⟨?_, show 1 ≤ 16 by decide⟩, fun p hp _ => full_covers hp⟩
      exact List.forall_mem_singleton.mpr (full_within c)
    · rename_i hfull
      refine ⟨⟨?_, ?_⟩, ?_⟩
      · exact List.forall_mem_append.mpr ⟨h.within, List.forall_mem_singleton.mpr hq⟩
      · have := h.few
        dsimp only
        rw [List.length_append, List.length_singleton]
        omega
      · rintro p _ (⟨r, hr, hcov⟩ | hcov)
        · exact ⟨r, List.mem_append_left _ hr, hcov⟩
        · exact ⟨q, List.mem_append_right _ (List.mem_singleton_self q), hcov⟩

/-- `compositor_damage` touches nothing but the list, loses nothing and adds the part of the
    rectangle that is on the screen. -/
structure Damages (c c' : Compositor ι) (x y width height : UInt32) : Prop where
  rest : c' = { c with damage := c'.damage }
  ok : DamageOk c'
  keeps : ∀ p ∈ onScreen c, CoveredBy c.damage p → CoveredBy c'.damage p
  covers : ∀ p ∈ onScreen c, Rect.Covers ⟨x, y, width, height⟩ p.1.toNat p.2.toNat →
    CoveredBy c'.damage p

theorem compositorDamage_spec (h : DamageOk c) (x y width height : UInt32) :
    Damages c (compositorDamage c x y width height) x y width height := by
  unfold compositorDamage
  by_cases hout : x ≥ c.width ∨ y ≥ c.height
  · rw [if_pos hout]
    refine ⟨rfl, h, fun _ _ hp => hp, ?_⟩
    rintro p ⟨hpx, hpy⟩ ⟨⟨hx, _⟩, hy, _⟩
    simp only [ge_iff_le, UInt32.le_iff_toNat_le] at hout
    rw [UInt32.lt_iff_toNat_lt] at hpx hpy
    dsimp only at hx hy
    omega
  · rw [if_neg hout]
    push Not at hout
    have hx := UInt32.not_le.mp hout.1
    have hy := UInt32.not_le.mp hout.2
    have hq := Rect.clip_within hx hy (w := width) (h := height)
    have hclip : ∀ p ∈ onScreen c, Rect.Covers ⟨x, y, width, height⟩ p.1.toNat p.2.toNat →
        Rect.Covers ⟨x, y, minimum width (c.width - x), minimum height (c.height - y)⟩
          p.1.toNat p.2.toNat := by
      rintro p ⟨hpx, hpy⟩ ⟨⟨h1, h2⟩, h3, h4⟩
      rw [UInt32.lt_iff_toNat_lt] at hpx hpy
      dsimp only at h1 h2 h3 h4
      refine ⟨⟨h1, ?_⟩, h3, ?_⟩ <;> dsimp only <;>
        rw [toNat_minimum, UInt32.toNat_sub_of_le _ _ (UInt32.le_of_lt (by assumption))] <;> omega
    dsimp only
    split
    · rename_i hnone
      refine ⟨rfl, h, fun _ _ hp => hp, ?_⟩
      intro p hp hcov
      obtain ⟨⟨h1, h2⟩, h3, h4⟩ := hclip p hp hcov
      dsimp only at h1 h2 h3 h4
      rcases hnone with hnone | hnone
      · rw [hnone, UInt32.toNat_zero] at h2
        omega
      · rw [hnone, UInt32.toNat_zero] at h4
        omega
    · obtain ⟨hok, hcovers⟩ := addDamage_spec h hq
      exact ⟨rfl, hok, fun p hp hcov => hcovers p hp (Or.inl hcov),
        fun p hp hcov => hcovers p hp (Or.inr (hclip p hp hcov))⟩

variable (c)

/-- Whatever the list was, nothing else changes. -/
theorem compositorDamage_rest (x y width height : UInt32) :
    compositorDamage c x y width height =
      { c with damage := (compositorDamage c x y width height).damage } := by
  unfold compositorDamage
  dsimp only
  split
  · rfl
  split <;> rfl

@[simp] theorem compositorDamage_width (x y width height : UInt32) :
    (compositorDamage c x y width height).width = c.width := by
  rw [compositorDamage_rest]

@[simp] theorem compositorDamage_height (x y width height : UInt32) :
    (compositorDamage c x y width height).height = c.height := by
  rw [compositorDamage_rest]

@[simp] theorem compositorDamage_windows (x y width height : UInt32) :
    (compositorDamage c x y width height).windows = c.windows := by
  rw [compositorDamage_rest]

@[simp] theorem compositorDamage_panel (x y width height : UInt32) :
    (compositorDamage c x y width height).panel = c.panel := by
  rw [compositorDamage_rest]

variable {c}

theorem Arranged.damageOk (h : Arranged c f) : DamageOk c :=
  ⟨h.damage, h.few⟩

theorem Damages.repaints {c c' : Compositor ι} {x y width height : UInt32}
    (hd : Damages c c' x y width height) (h : Arranged c f) : Repaints c f c' f := by
  have hrest := hd.rest
  have hok := hd.ok
  have hkeeps := hd.keeps
  generalize c'.damage = damage at hrest hkeeps
  subst hrest
  refine ⟨⟨h.size, h.order, h.count, fun w hw => ?_, h.distinct, h.panel, h.inside, hok.within,
    hok.few⟩, rfl, rfl, ?_⟩
  · exact ⟨(h.placed w hw).valid, (h.placed w hw).right, (h.placed w hw).bottom⟩
  · intro p hp hfresh
    refine ⟨fun hpending => hfresh ?_, rfl⟩
    rcases hpending with hcov | hother
    · exact Or.inl (hkeeps p hp hcov)
    · exact Or.inr hother

theorem compositorDamage_repaints (h : Arranged c f) (x y width height : UInt32) :
    Repaints c f (compositorDamage c x y width height) f :=
  (compositorDamage_spec h.damageOk x y width height).repaints h

/-! ## Where a window shows -/

/-- The rectangle a window occupies. -/
def Window.bounds (w : Window ι) (s : Surface) : Rect := ⟨w.x, w.y, s.width, s.height⟩

variable {s : Surface} {w : Window ι}

theorem Window.showsAt_iff (h : Placed c s w) (p : Point) : w.showsAt s p.1 p.2 = true ↔
      w.visible = true ∧ (w.bounds s).Covers p.1.toNat p.2.toNat := by
  have hx := toNat_add_of_le h.right
  have hy : (w.y + s.height).toNat = w.y.toNat + s.height.toNat := toNat_add_of_le h.bottom
  simp only [Window.showsAt, Window.bounds, Rect.Covers, ge_iff_le, UInt32.le_iff_toNat_le,
    UInt32.lt_iff_toNat_lt, hx, hy, decide_eq_true_eq]
  exact and_congr_right fun _ => by omega

theorem Window.pixelAt_outside (h : Placed c s w)
    (hout : w.visible = true → ¬(w.bounds s).Covers p.1.toNat p.2.toNat) :
    w.pixelAt s p.1 p.2 = none := by
  unfold Window.pixelAt
  rw [if_neg]
  intro hshows
  obtain ⟨hvisible, hcov⟩ := (Window.showsAt_iff h p).mp hshows
  exact hout hvisible hcov

/-- The damage of a surface lies in the rectangle of its window. -/
theorem Surface.DamagedFrom.bounds (h : s.DamagedFrom w.x w.y p) (hs : s.DamageInside) :
    (w.bounds s).Covers p.1.toNat p.2.toNat := by
  obtain ⟨hx, hy, hdirty, ⟨h1, h2⟩, h3, h4⟩ := h
  obtain ⟨hw, hh⟩ := hs hdirty
  unfold Window.bounds Rect.Covers
  dsimp only
  omega

theorem Surface.DamagedFrom.mono {s' : Surface} {x y : UInt32} (h : s.DamagedFrom x y p)
    (hkeeps : ∀ x y, s.DamagedAt x y → s'.DamagedAt x y) : s'.DamagedFrom x y p :=
  ⟨h.1, h.2.1, hkeeps _ _ h.2.2⟩

theorem paintLayers_congr {background : UInt32} {layer layer' : Nat → Option UInt32}
    {order : List Nat} (h : ∀ id, layer' id = layer id) :
    paintLayers background layer' order = paintLayers background layer order := by
  rw [show layer' = layer from funext h]

/-- Points at which every window and the panel contribute the same look the same. -/
theorem picture_congr {c c' : Compositor ι} {f' : ι → Surface}
    (hback : c'.background = c.background) (horder : c'.zOrder = c.zOrder)
    (hlayer : ∀ id, layerPixel c' f' p.1 p.2 id = layerPixel c f p.1 p.2 id)
    (hpanel : panelPixel c' f' p.1 p.2 = panelPixel c f p.1 p.2) :
    picture c' f' p = picture c f p := by
  unfold picture composedPixel
  rw [hpanel, hback, horder, paintLayers_congr hlayer]

/-! ## Drawing on a surface -/

theorem surfaceGetpixel_drawn {s' : Surface} (h : Drawn s s') {x y : UInt32} (hx : x ≤ p.1)
    (hy : y ≤ p.2) (hfresh : ¬s'.DamagedFrom x y p) :
    surfaceGetpixel s' (p.1 - x) (p.2 - y) = surfaceGetpixel s (p.1 - x) (p.2 - y) := by
  by_contra hne
  have hd := h.covers _ _ hne
  rw [UInt32.toNat_sub_of_le _ _ hx, UInt32.toNat_sub_of_le _ _ hy] at hd
  exact hfresh ⟨UInt32.le_iff_toNat_le.mp hx, UInt32.le_iff_toNat_le.mp hy, hd⟩

theorem Repaints.of_drawn {f' : ι → Surface} (h : Arranged c f)
    (hdrawn : ∀ i, Drawn (f i) (f' i)) : Repaints c f c f' where
  arranged :=
    { size := h.size
      order := h.order
      count := h.count
      placed := by
        intro w hw
        have hshape := (hdrawn w.surface).shape
        obtain ⟨hvalid, hright, hbottom⟩ := h.placed w hw
        exact ⟨hshape.valid.trans hvalid, by rwa [hshape.width], by rwa [hshape.height]⟩
      distinct := h.distinct
      panel := by
        intro panel hpanel
        have hshape := (hdrawn panel).shape
        obtain ⟨hvalid, hwidth, hheight, hother⟩ := h.panel panel hpanel
        exact ⟨hshape.valid.trans hvalid, hshape.width.trans hwidth, by rwa [hshape.height], hother⟩
      inside := fun i => (hdrawn i).inside
      damage := h.damage
      few := h.few }
  width := rfl
  height := rfl
  keeps p _ hfresh := by
    constructor
    · rintro (hcov | ⟨w, hw, hvisible, hd⟩ | ⟨panel, hpanel, hd⟩)
      · exact hfresh (Or.inl hcov)
      · exact hfresh (Or.inr (Or.inl ⟨w, hw, hvisible, hd.mono (hdrawn w.surface).keeps⟩))
      · exact hfresh (Or.inr (Or.inr ⟨panel, hpanel, hd.mono (hdrawn panel).keeps⟩))
    · apply picture_congr rfl rfl
      · intro id
        unfold layerPixel
        cases hget : c.windows[id]? with
        | none => rfl
        | some w =>
          have hw := List.mem_of_getElem? hget
          have hshape := (hdrawn w.surface).shape
          have hshows : w.showsAt (f' w.surface) p.1 p.2 = w.showsAt (f w.surface) p.1 p.2 := by
            unfold Window.showsAt
            rw [hshape.width, hshape.height]
          simp only [Option.bind_some, Window.pixelAt, hshows]
          by_cases hs : w.showsAt (f w.surface) p.1 p.2 = true
          · obtain ⟨hvisible, ⟨hx, _⟩, hy, _⟩ := (Window.showsAt_iff (h.placed w hw) p).mp hs
            rw [if_pos hs, if_pos hs, surfaceGetpixel_drawn (hdrawn w.surface) (x := w.x)
              (y := w.y) (UInt32.le_iff_toNat_le.mpr hx) (UInt32.le_iff_toNat_le.mpr hy)]
            exact fun hd => hfresh (Or.inr (Or.inl ⟨w, hw, hvisible, hd⟩))
          · rw [if_neg hs, if_neg hs]
      · unfold panelPixel
        cases hpanel : c.panel with
        | none => rfl
        | some panel =>
          simp only [Option.bind_some, (hdrawn panel).shape.height]
          by_cases hy : p.2 ≥ c.panelY ∧ p.2 < c.panelY + (f panel).height
          · have hpixel := surfaceGetpixel_drawn (hdrawn panel) (p := p) (x := 0) (y := c.panelY)
              (UInt32.le_iff_toNat_le.mpr (Nat.zero_le _)) hy.1
              (fun hd => hfresh (Or.inr (Or.inr ⟨panel, hpanel, hd⟩)))
            rw [UInt32.sub_zero] at hpixel
            rw [if_pos hy, if_pos hy, hpixel]
          · rw [if_neg hy, if_neg hy]

/-! ## Rearranging windows -/

/-- One window is replaced by another with the same surface, and both rectangles are damaged
    as far as they show. -/
theorem Repaints.of_set (h : Arranged c f) {id : Nat}
    {w' : Window ι} {damage : List Rect} (hget : c.windows[id]? = some w)
    (hsurface : w'.surface = w.surface) (hplaced : Placed c (f w.surface) w')
    (hok : DamageOk { c with damage := damage })
    (hkeeps : ∀ p ∈ onScreen c, CoveredBy c.damage p → CoveredBy damage p)
    (hold : w.visible = true → ∀ p ∈ onScreen c,
      (w.bounds (f w.surface)).Covers p.1.toNat p.2.toNat → CoveredBy damage p)
    (hnew : w'.visible = true → ∀ p ∈ onScreen c,
      (w'.bounds (f w.surface)).Covers p.1.toNat p.2.toNat → CoveredBy damage p) :
    Repaints c f { c with windows := c.windows.set id w', damage := damage } f := by
  have hsurfaces : (c.windows.set id w').map (·.surface) = c.windows.map (·.surface) := by
    rw [List.map_set, hsurface]
    apply List.ext_getElem?
    intro k
    by_cases hk : id = k
    · subst hk
      have hlt := (List.getElem?_eq_some_iff.mp hget).1
      rw [List.getElem?_set_self (by simpa using hlt), List.getElem?_map, hget]
      rfl
    · rw [List.getElem?_set_ne hk]
  have hmem : ∀ v ∈ c.windows.set id w', v = w' ∨ v ∈ c.windows := by
    intro v hv
    exact (List.mem_or_eq_of_mem_set hv).symm
  have hother : ∀ k, k ≠ id → (c.windows.set id w')[k]? = c.windows[k]? :=
    fun k hk => List.getElem?_set_ne (Ne.symm hk)
  refine ⟨⟨h.size, by simpa using h.order, by simpa using h.count, ?_,
    by rw [hsurfaces]; exact h.distinct, ?_, h.inside, hok.within, hok.few⟩, rfl, rfl, ?_⟩
  · intro v hv
    rcases hmem v hv with rfl | hv
    · rw [hsurface]
      exact ⟨hplaced.valid, hplaced.right, hplaced.bottom⟩
    · exact ⟨(h.placed v hv).valid, (h.placed v hv).right, (h.placed v hv).bottom⟩
  · intro panel hpanel
    obtain ⟨hvalid, hwidth, hheight, hne⟩ := h.panel panel hpanel
    refine ⟨hvalid, hwidth, hheight, ?_⟩
    intro v hv
    rcases hmem v hv with rfl | hv
    · rw [hsurface]
      exact hne w (List.mem_of_getElem? hget)
    · exact hne v hv
  · intro p hp hfresh
    have hcov : ¬CoveredBy damage p := fun hcov => hfresh (Or.inl hcov)
    constructor
    · rintro (hc | ⟨v, hv, hvisible, hd⟩ | hpanel)
      · exact hcov (hkeeps p hp hc)
      · obtain ⟨k, hk⟩ := List.mem_iff_getElem?.mp hv
        by_cases hkid : k = id
        · -- the replaced window: its damage lies in its rectangle, which is damaged
          obtain rfl : w = v := Option.some.inj (hget.symm.trans (hkid ▸ hk))
          exact hcov (hold hvisible p hp (hd.bounds (h.inside _)))
        · have hv' := List.mem_of_getElem? ((hother k hkid).trans hk)
          exact hfresh (Or.inr (Or.inl ⟨v, hv', hvisible, hd⟩))
      · exact hfresh (Or.inr (Or.inr hpanel))
    · refine picture_congr rfl rfl (fun k => ?_) rfl
      unfold layerPixel
      dsimp only
      by_cases hkid : k = id
      · subst hkid
        have hw := List.mem_of_getElem? hget
        rw [List.getElem?_set_self (List.getElem?_eq_some_iff.mp hget).1, hget,
          Option.bind_some, Option.bind_some, hsurface,
          Window.pixelAt_outside (h.placed w hw) fun hv hc => hcov (hold hv p hp hc),
          Window.pixelAt_outside hplaced fun hv hc => hcov (hnew hv p hp hc)]
      · rw [hother k hkid]

theorem confine_le (value limit : UInt32) : confine value limit ≤ limit := by
  unfold confine
  split
  · exact UInt32.le_refl _
  · exact UInt32.not_lt.mp (by assumption)

/-- A confined position keeps a window of the given size in the area. -/
theorem confine_fits {value size area : UInt32} (h : size.toNat ≤ area.toNat) :
    (confine value (area - size)).toNat + size.toNat ≤ area.toNat := by
  have hle := UInt32.le_iff_toNat_le.mp (confine_le value (area - size))
  rw [toNat_sub32 h] at hle
  omega

theorem compositorMoveWindow_repaints (h : Arranged c f) (windowId x y : UInt32) :
    Repaints c f (compositorMoveWindow c f windowId x y).1 f := by
  unfold compositorMoveWindow
  split
  · exact .refl h
  · rename_i window hget
    have hplaced := h.placed window (List.mem_of_getElem? hget)
    dsimp only
    split
    · exact .refl h
    split
    · exact .refl h
    · -- damage the old rectangle, move, damage the new one
      have hd₁ := compositorDamage_spec h.damageOk window.x window.y (f window.surface).width
        (f window.surface).height
      generalize compositorDamage c window.x window.y (f window.surface).width
        (f window.surface).height = c₁ at hd₁
      obtain ⟨hrest₁, hok₁, hkeeps₁, hcovers₁⟩ := hd₁
      generalize hnx : confine x (c.width - (f window.surface).width) = nx
      generalize hny : confine y (c.workHeight - (f window.surface).height) = ny
      generalize c₁.damage = damage₁ at hrest₁ hkeeps₁ hcovers₁
      subst hrest₁
      have hok₂ : @DamageOk ι { c with
          windows := c.windows.set windowId.toNat { window with x := nx, y := ny },
          damage := damage₁ } := ⟨hok₁.within, hok₁.few⟩
      have hd₂ := compositorDamage_spec hok₂ nx ny (f window.surface).width
        (f window.surface).height
      dsimp only
      generalize compositorDamage _ nx ny (f window.surface).width (f window.surface).height = c₂
        at hd₂ ⊢
      obtain ⟨hrest₂, hok₂, hkeeps₂, hcovers₂⟩ := hd₂
      generalize c₂.damage = damage₂ at hrest₂ hkeeps₂ hcovers₂
      subst hrest₂
      refine Repaints.of_set h hget rfl ⟨hplaced.valid, ?_, ?_⟩ ⟨hok₂.within, hok₂.few⟩
        (fun p hp hc => hkeeps₂ p hp (hkeeps₁ p hp hc))
        (fun _ p hp hc => hkeeps₂ p hp (hcovers₁ p hp hc)) (fun _ p hp hc => hcovers₂ p hp hc)
      · rw [← hnx]
        exact confine_fits (by have := hplaced.right; omega)
      · rw [← hny]
        exact confine_fits (by have := hplaced.bottom; omega)

theorem compositorSetWindowVisible_repaints (h : Arranged c f) (windowId : UInt32)
    (visible : Bool) : Repaints c f (compositorSetWindowVisible c f windowId visible).1 f := by
  unfold compositorSetWindowVisible
  split
  · exact .refl h
  · rename_i window hget
    have hplaced := h.placed window (List.mem_of_getElem? hget)
    dsimp only
    split
    · exact .refl h
    · have hd := compositorDamage_spec h.damageOk window.x window.y (f window.surface).width
        (f window.surface).height
      generalize compositorDamage c window.x window.y (f window.surface).width
        (f window.surface).height = c₁ at hd ⊢
      obtain ⟨hrest, hok, hkeeps, hcovers⟩ := hd
      generalize c₁.damage = damage at hrest hkeeps hcovers
      subst hrest
      exact Repaints.of_set h hget rfl ⟨hplaced.valid, hplaced.right, hplaced.bottom⟩ hok hkeeps
        (fun _ => hcovers) (fun _ => hcovers)

/-- A layer that contributes nothing can be anywhere in the order. -/
theorem paintLayers_raise {background : UInt32} {layer : Nat → Option UInt32} {order : List Nat}
    {id : Nat} (hmem : id ∈ order) (hnone : layer id = none) :
    paintLayers background layer (order.erase id ++ [id]) =
      paintLayers background layer order := by
  obtain ⟨front, back, _, horder, herase⟩ := List.exists_erase_eq hmem
  rw [herase, horder]
  simp [paintLayers, List.foldl_append, hnone]

theorem compositorRaiseWindow_repaints (h : Arranged c f) (windowId : UInt32) :
    Repaints c f (compositorRaiseWindow c f windowId).1 f := by
  unfold compositorRaiseWindow
  split
  · exact .refl h
  · rename_i window hget
    have hw := List.mem_of_getElem? hget
    dsimp only
    split
    · exact .refl h
    split
    · exact .refl h
    · rename_i hfound _
      have hmem : windowId.toNat ∈ c.zOrder := by
        rw [← List.idxOf_lt_length_iff]
        have := List.idxOf_le_length (a := windowId.toNat) (l := c.zOrder)
        omega
      rw [← List.erase_eq_eraseIdx_of_idxOf rfl]
      have hd := compositorDamage_spec
        (c := { c with zOrder := c.zOrder.erase windowId.toNat ++ [windowId.toNat] })
        ⟨h.damage, h.few⟩ window.x window.y (f window.surface).width (f window.surface).height
      generalize compositorDamage _ window.x window.y (f window.surface).width
        (f window.surface).height = c₁ at hd ⊢
      obtain ⟨hrest, hok, hkeeps, hcovers⟩ := hd
      generalize c₁.damage = damage at hrest hkeeps hcovers
      subst hrest
      refine ⟨⟨h.size, ?_, h.count, ?_, h.distinct, h.panel, h.inside, hok.within, hok.few⟩, rfl,
        rfl, ?_⟩
      · refine (List.perm_append_comm.trans ?_).trans h.order
        exact (List.perm_cons_erase hmem).symm
      · intro v hv
        exact ⟨(h.placed v hv).valid, (h.placed v hv).right, (h.placed v hv).bottom⟩
      · intro p hp hfresh
        refine ⟨fun hpending => hfresh ?_, ?_⟩
        · rcases hpending with hcov | hother
          · exact Or.inl (hkeeps p hp hcov)
          · exact Or.inr hother
        · -- outside its rectangle the raised window contributes nothing
          have hnone : layerPixel c f p.1 p.2 windowId.toNat = none := by
            unfold layerPixel
            rw [hget, Option.bind_some, Window.pixelAt_outside (h.placed window hw)]
            exact fun _ hcov => hfresh (Or.inl (hcovers p hp hcov))
          unfold picture composedPixel
          dsimp only
          rw [show layerPixel { c with
              zOrder := c.zOrder.erase windowId.toNat ++ [windowId.toNat], damage := damage } f
              p.1 p.2 = layerPixel c f p.1 p.2 from rfl, paintLayers_raise hmem hnone]
          rfl

end ArgusOs.Display
