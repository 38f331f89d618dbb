/-
  Which window a point hits, and which window it shows.

  `compositor_window_at` scans the stacking order from the top and stops; `composed_pixel` paints
  from the bottom and overwrites. Both pick the topmost window whose test passes. The test adds
  position and size in 32 bits: a window whose edge passes 2^32 fails it everywhere. No window is
  that large on a screen the kernel sets up, but `compositor_validate` does not exclude it, since
  the differences it compares the position with wrap for a surface that is larger than the screen.
-/
import ArgusOs.Display.Presenting

namespace ArgusOs.Display

open Lib

variable {ι : Type}

/-! ## The test of a window -/

/-- The point lies in the window, which is visible. -/
def Window.Contains (w : Window ι) (s : Surface) (x y : UInt32) : Prop :=
  w.visible = true ∧ (w.bounds s).Covers x.toNat y.toNat

/-- Both edges are numbers of 32 bits. -/
def Window.Fits (w : Window ι) (s : Surface) : Prop :=
  w.x.toNat + s.width.toNat < 2 ^ 32 ∧ w.y.toNat + s.height.toNat < 2 ^ 32

/-- The position plus the size, in 32 bits, bounds what is behind the position just if it does not
    wrap. -/
theorem before_edge {a n x : UInt32} (ha : a ≤ x) :
    ¬ x ≥ a + n ↔ x.toNat < a.toNat + n.toNat ∧ a.toNat + n.toNat < 2 ^ 32 := by
  have hx := x.toNat_lt
  have hn := n.toNat_lt
  rw [UInt32.le_iff_toNat_le] at ha
  rw [ge_iff_le, UInt32.le_iff_toNat_le, UInt32.toNat_add]
  omega

theorem Window.showsAt_iff_contains (w : Window ι) (s : Surface) (x y : UInt32) :
    w.showsAt s x y = true ↔ w.Contains s x y ∧ w.Fits s := by
  unfold Window.showsAt Window.Contains Window.Fits Window.bounds Rect.Covers
  rw [decide_eq_true_iff, not_or, not_or, not_or, UInt32.not_lt, UInt32.not_lt]
  constructor
  · rintro ⟨hvisible, hx, hy, hright, hbottom⟩
    obtain ⟨h1, h2⟩ := (before_edge hx).mp hright
    obtain ⟨h3, h4⟩ := (before_edge hy).mp hbottom
    exact ⟨⟨hvisible, ⟨UInt32.le_iff_toNat_le.mp hx, h1⟩, UInt32.le_iff_toNat_le.mp hy, h3⟩, h2, h4⟩
  · rintro ⟨⟨hvisible, ⟨hx, h1⟩, hy, h3⟩, h2, h4⟩
    have hx' := UInt32.le_iff_toNat_le.mpr hx
    have hy' := UInt32.le_iff_toNat_le.mpr hy
    exact ⟨hvisible, hx', hy', (before_edge hx').mpr ⟨h1, h2⟩, (before_edge hy').mpr ⟨h3, h4⟩⟩

/-- The place on the window of a point in it. -/
theorem Window.Contains.local_lt {w : Window ι} {s : Surface} {x y : UInt32}
    (h : w.Contains s x y) : x - w.x < s.width ∧ y - w.y < s.height := by
  unfold Window.Contains Window.bounds Rect.Covers at h
  dsimp only at h
  obtain ⟨-, ⟨hx, h1⟩, hy, h3⟩ := h
  rw [UInt32.lt_iff_toNat_lt, UInt32.lt_iff_toNat_lt,
    toNat_sub32 hx,
    toNat_sub32 hy]
  omega

/-! ## What `compositor_validate` says of the stacking order -/

section Validated
variable {c : Compositor ι} {f : ι → Surface}

theorem validateOrder_spec {seen order : List Nat} (h : validateOrder c f seen order = true) :
    order.Nodup ∧ (∀ id ∈ order, id ∉ seen) ∧
      ∀ id ∈ order, ∃ w, c.windows[id]? = some w ∧ surfaceValid (f w.surface) = true := by
  induction order generalizing seen with
  | nil => simp
  | cons id rest ih =>
    unfold validateOrder at h
    split at h
    · cases h
    · next w hw =>
      dsimp only at h
      split at h
      · cases h
      · next hnew =>
        split at h
        · cases h
        · next hplaced =>
          rw [not_or, Bool.not_eq_false] at hplaced
          obtain ⟨hnodup, hnot, hwindows⟩ := ih h
          refine ⟨List.nodup_cons.mpr ⟨fun hmem => hnot id hmem List.mem_cons_self, hnodup⟩, ?_, ?_⟩
          · rw [List.forall_mem_cons]
            exact ⟨hnew, fun id' hid' hseen => hnot id' hid' (List.mem_cons_of_mem _ hseen)⟩
          · rw [List.forall_mem_cons]
            exact ⟨⟨w, hw, hplaced.1⟩, hwindows⟩

/-- A state that passes the check, with a stacking order of as many places as there are windows. -/
structure Validated (c : Compositor ι) (f : ι → Surface) : Prop where
  valid : compositorValidate c f = true
  count : c.zOrder.length = c.windows.length

namespace Validated

theorem order (h : Validated c f) : validateOrder c f [] c.zOrder = true := by
  have hvalid := h.valid
  unfold compositorValidate at hvalid
  split at hvalid
  · cases hvalid
  · exact (Bool.and_eq_true_iff.mp hvalid).1

theorem few (h : Validated c f) : c.windows.length ≤ 8 := by
  have hvalid := h.valid
  unfold compositorValidate at hvalid
  split at hvalid
  · cases hvalid
  · next hsize =>
    simp only [not_or] at hsize
    exact Nat.not_lt.mp hsize.2.2.2.2.1

theorem mem_order (h : Validated c f) {id : Nat} (hid : id < c.windows.length) : id ∈ c.zOrder := by
  obtain ⟨hnodup, -, hwindows⟩ := validateOrder_spec h.order
  have hsub : c.zOrder ⊆ List.range c.windows.length := by
    intro id hid
    obtain ⟨w, hw, -⟩ := hwindows id hid
    exact List.mem_range.mpr (List.getElem?_eq_some_iff.mp hw).1
  have hperm : c.zOrder.Perm (List.range c.windows.length) :=
    (List.subperm_of_subset hnodup hsub).perm_of_length_le (by rw [List.length_range, h.count])
  exact hperm.mem_iff.mpr (List.mem_range.mpr hid)

end Validated

end Validated

/-! ## Scanning and painting -/

/-- Painting from the bottom leaves what the scan from the top finds. -/
theorem paintLayers_eq (background : UInt32) (layer : Nat → Option UInt32) (order : List Nat) :
    paintLayers background layer order = (order.reverse.findSome? layer).getD background := by
  unfold paintLayers
  induction order generalizing background with
  | nil => rfl
  | cons id rest ih =>
    rw [List.foldl_cons, ih, List.reverse_cons, List.findSome?_append, List.findSome?_singleton]
    cases rest.reverse.findSome? layer <;> rfl

variable {c : Compositor ι} {f : ι → Surface}

/-- Above the panel the picture is the windows over the background. -/
theorem composedPixel_above (hpanel : ∀ panel, c.panel = some panel → c.workHeight ≤ c.panelY)
    {x y : UInt32} (hy : y < c.workHeight) :
    composedPixel c f x y =
      (c.zOrder.reverse.findSome? (layerPixel c f x y)).getD c.background := by
  have hnone : panelPixel c f x y = none := by
    unfold panelPixel
    cases hp : c.panel with
    | none => rfl
    | some panel =>
      have hlow := UInt32.lt_of_lt_of_le hy (hpanel panel hp)
      rw [Option.bind_some, if_neg]
      exact fun hin => absurd hlow (UInt32.not_lt.mpr hin.1)
  unfold composedPixel
  rw [hnone, Option.getD_none, paintLayers_eq]

/-- What the scan finds at one place of the stacking order. -/
def windowHit (c : Compositor ι) (f : ι → Surface) (x y : UInt32) (id : Nat) :
    Option (UInt32 × UInt32 × UInt32) :=
  c.windows[id]?.bind fun window =>
    if surfaceValid (f window.surface) ∧ window.showsAt (f window.surface) x y then
      some (UInt32.ofNat id, x - window.x, y - window.y)
    else none

theorem compositorWindowAt_eq {x y : UInt32} (hx : x < c.width) (hy : y < c.workHeight) :
    compositorWindowAt c f x y = c.zOrder.reverse.findSome? (windowHit c f x y) := by
  unfold compositorWindowAt
  rw [if_neg]
  · rfl
  · rw [not_or, ge_iff_le, ge_iff_le, UInt32.not_le, UInt32.not_le]
    exact ⟨hx, hy⟩

section Scan
variable {c : Compositor ι} {f : ι → Surface} {x y : UInt32}

/-- At one place of the stacking order the scan and the painting see the same window or none. -/
theorem Validated.place_cases (h : Validated c f) (x y : UInt32) {id : Nat} (hid : id ∈ c.zOrder) :
    ∃ w, c.windows[id]? = some w ∧
      (((w.Contains (f w.surface) x y ∧ w.Fits (f w.surface)) ∧
          windowHit c f x y id = some (UInt32.ofNat id, x - w.x, y - w.y) ∧
          layerPixel c f x y id = some (surfaceGetpixel (f w.surface) (x - w.x) (y - w.y))) ∨
        (¬ (w.Contains (f w.surface) x y ∧ w.Fits (f w.surface)) ∧ windowHit c f x y id = none ∧
          layerPixel c f x y id = none)) := by
  obtain ⟨w, hw, hsurface⟩ := (validateOrder_spec h.order).2.2 id hid
  have hiff := w.showsAt_iff_contains (f w.surface) x y
  refine ⟨w, hw, ?_⟩
  unfold windowHit layerPixel Window.pixelAt
  rw [hw, Option.bind_some, Option.bind_some]
  by_cases hshows : w.showsAt (f w.surface) x y = true
  · exact Or.inl ⟨hiff.mp hshows, if_pos ⟨hsurface, hshows⟩, if_pos hshows⟩
  · exact Or.inr ⟨mt hiff.mpr hshows, if_neg fun hyes => hshows hyes.2, if_neg hshows⟩

/-- The scan and the painting pick one window, or neither picks any. -/
theorem Validated.scan (h : Validated c f)
    (hpanel : ∀ panel, c.panel = some panel → c.workHeight ≤ c.panelY) (hx : x < c.width)
    (hy : y < c.workHeight) :
    (∃ id w, c.windows[id]? = some w ∧ w.Contains (f w.surface) x y ∧ w.Fits (f w.surface) ∧
      compositorWindowAt c f x y = some (UInt32.ofNat id, x - w.x, y - w.y) ∧
      composedPixel c f x y = surfaceGetpixel (f w.surface) (x - w.x) (y - w.y)) ∨
    ((∀ w ∈ c.windows, ¬ (w.Contains (f w.surface) x y ∧ w.Fits (f w.surface))) ∧
      compositorWindowAt c f x y = none ∧ composedPixel c f x y = c.background) := by
  rw [compositorWindowAt_eq hx hy, composedPixel_above hpanel hy]
  cases hfind : c.zOrder.reverse.findSome? (windowHit c f x y) with
  | some found =>
    obtain ⟨above, id, below, horder, hid, habove⟩ := List.findSome?_eq_some_iff.mp hfind
    have hplace : ∀ id' ∈ above ++ id :: below, id' ∈ c.zOrder := by
      rw [← horder]
      exact fun id' hid' => List.mem_reverse.mp hid'
    obtain ⟨w, hw, ⟨hin, hhit, hpixel⟩ | ⟨-, hnone, -⟩⟩ := h.place_cases x y (hplace id (by simp))
    · -- above the window that is hit nothing is painted
      have hclear : above.findSome? (layerPixel c f x y) = none := by
        rw [List.findSome?_eq_none_iff]
        intro id' hid'
        obtain ⟨w', -, ⟨-, hhit', -⟩ | ⟨-, -, hpixel'⟩⟩ :=
          h.place_cases x y (hplace id' (by simp [hid']))
        · rw [habove id' hid'] at hhit'
          cases hhit'
        · exact hpixel'
      rw [hid] at hhit
      refine Or.inl ⟨id, w, hw, hin.1, hin.2, hhit, ?_⟩
      rw [horder, List.findSome?_append, hclear, List.findSome?_cons, hpixel]
      rfl
    · rw [hid] at hnone
      cases hnone
  | none =>
    rw [List.findSome?_eq_none_iff] at hfind
    have hnowhere : ∀ id ∈ c.zOrder, ∃ w, c.windows[id]? = some w ∧
        ¬ (w.Contains (f w.surface) x y ∧ w.Fits (f w.surface)) ∧ layerPixel c f x y id = none := by
      intro id hid
      obtain ⟨w, hw, ⟨-, hhit, -⟩ | ⟨hnot, -, hpixel⟩⟩ := h.place_cases x y hid
      · rw [hfind id (List.mem_reverse.mpr hid)] at hhit
        cases hhit
      · exact ⟨w, hw, hnot, hpixel⟩
    have hclear : c.zOrder.reverse.findSome? (layerPixel c f x y) = none := by
      rw [List.findSome?_eq_none_iff]
      intro id hid
      obtain ⟨-, -, -, hpixel⟩ := hnowhere id (List.mem_reverse.mp hid)
      exact hpixel
    refine Or.inr ⟨fun w hw => ?_, rfl, by rw [hclear]; rfl⟩
    obtain ⟨id, hid, rfl⟩ := List.mem_iff_getElem.mp hw
    obtain ⟨w', hw', hnot, -⟩ := hnowhere id (h.mem_order hid)
    rw [List.getElem?_eq_getElem hid, Option.some.injEq] at hw'
    rwa [hw']

end Scan

/-- Hit testing at a point agrees with what is drawn there. -/
structure HitAgrees (c : Compositor ι) (f : ι → Surface) (x y : UInt32) : Prop where
  hits : (compositorWindowAt c f x y).isSome = true ↔
    ∃ w ∈ c.windows, w.Contains (f w.surface) x y
  drawn : ∀ id localX localY, compositorWindowAt c f x y = some (id, localX, localY) →
    ∃ w, c.windows[id.toNat]? = some w ∧ localX < (f w.surface).width ∧
      localY < (f w.surface).height ∧
      composedPixel c f x y = surfaceGetpixel (f w.surface) localX localY
  missed : compositorWindowAt c f x y = none → composedPixel c f x y = c.background

/-- Hit testing agrees where a window with edges of 32 bits contains the point, or none does. -/
theorem Validated.hitAgrees (h : Validated c f)
    (hpanel : ∀ panel, c.panel = some panel → c.workHeight ≤ c.panelY) {x y : UInt32}
    (hx : x < c.width) (hy : y < c.workHeight)
    (hfit : (∃ w ∈ c.windows, w.Contains (f w.surface) x y) →
      ∃ w ∈ c.windows, w.Contains (f w.surface) x y ∧
      w.Fits (f w.surface)) : HitAgrees c f x y := by
  rcases h.scan hpanel hx hy with ⟨id, w, hw, hin, hfits, hhit, hpixel⟩ | ⟨hno, hmiss, hback⟩
  · have hlt : id < c.windows.length := (List.getElem?_eq_some_iff.mp hw).1
    have hid : (UInt32.ofNat id).toNat = id := by
      rw [UInt32.toNat_ofNat']
      have := h.few
      omega
    refine ⟨?_, ?_, ?_⟩
    · rw [hhit]
      exact iff_of_true rfl ⟨w, List.mem_of_getElem? hw, hin⟩
    · intro id' localX localY hat
      rw [hhit, Option.some.injEq, Prod.mk.injEq, Prod.mk.injEq] at hat
      obtain ⟨rfl, rfl, rfl⟩ := hat
      obtain ⟨hright, hbottom⟩ := hin.local_lt
      exact ⟨w, by rw [hid]; exact hw, hright, hbottom, hpixel⟩
    · intro hnone
      rw [hhit] at hnone
      cases hnone
  · refine ⟨?_, ?_, fun _ => hback⟩
    · rw [hmiss]
      refine iff_of_false Bool.false_ne_true fun hany => ?_
      obtain ⟨w, hw, hboth⟩ := hfit hany
      exact hno w hw hboth
    · intro id localX localY hat
      rw [hmiss] at hat
      cases hat

/-- In every state that passes `compositor_validate` with the panel below the work area, hit testing
    agrees with the picture at a point just if the point does not lie only in windows whose edges
    pass 2^32. -/
theorem hit_testing_agrees (c : Compositor ι) (f : ι → Surface) (h : Validated c f)
    (hpanel : ∀ panel, c.panel = some panel → c.workHeight ≤ c.panelY) (x y : UInt32)
    (hx : x < c.width) (hy : y < c.workHeight) :
    HitAgrees c f x y ↔
      ((∃ w ∈ c.windows, w.Contains (f w.surface) x y) →
        ∃ w ∈ c.windows, w.Contains (f w.surface) x y ∧ w.Fits (f w.surface)) := by
  refine ⟨fun hagrees hany => ?_, h.hitAgrees hpanel hx hy⟩
  rcases h.scan hpanel hx hy with ⟨id, w, hw, hin, hfits, -, -⟩ | ⟨-, hmiss, -⟩
  · exact ⟨w, List.mem_of_getElem? hw, hin, hfits⟩
  · have hsome := hagrees.hits.mpr hany
    rw [hmiss] at hsome
    cases hsome

/-- A screen of 8 by 8 with one window of the given width at (1, 0). -/
def oneWindow : Compositor Unit := ⟨8, 8, 8, 0, [⟨(), 1, 0, true⟩], [0], none, 0, [], 0, 0, 0⟩

def rowSurface (width : UInt32) : Surface := ⟨true, fun _ => 7, width, 1, width, false, .zero⟩

/-- A window of two pixels is hit where it is drawn. -/
theorem hit_testing_agrees_oneWindow : HitAgrees oneWindow (fun _ => rowSurface 2) 2 0 := by
  refine (hit_testing_agrees oneWindow (fun _ => rowSurface 2) ⟨by decide, rfl⟩
    (fun panel hpanel => by cases hpanel) 2 0 (by decide) (by decide)).mpr fun _ => ?_
  exact ⟨⟨(), 1, 0, true⟩, List.mem_singleton_self _,
    ⟨rfl, ⟨by decide, by decide⟩, by decide, by decide⟩, by decide, by decide⟩

/-- A window of 2^32 - 1 pixels passes the check. Its right edge is 0 in 32 bits, so that it is
    neither hit nor drawn, although the point lies in it. -/
theorem hit_testing_wrapped :
    Validated oneWindow (fun _ => rowSurface 0xFFFFFFFF) ∧ oneWindow.panel = none ∧
      (2 : UInt32) < oneWindow.width ∧ (0 : UInt32) < oneWindow.workHeight ∧
      compositorWindowAt oneWindow (fun _ => rowSurface 0xFFFFFFFF) 2 0 = none ∧
      (∃ w ∈ oneWindow.windows, w.Contains (rowSurface 0xFFFFFFFF) 2 0) ∧
      ¬ HitAgrees oneWindow (fun _ => rowSurface 0xFFFFFFFF) 2 0 := by
  have hmiss : compositorWindowAt oneWindow (fun _ => rowSurface 0xFFFFFFFF) 2 0 = none := by decide
  have hin : ∃ w ∈ oneWindow.windows, w.Contains (rowSurface 0xFFFFFFFF) 2 0 :=
    ⟨⟨(), 1, 0, true⟩, List.mem_singleton_self _, rfl, ⟨by decide, by decide⟩, by decide, by decide⟩
  refine ⟨⟨by decide, rfl⟩, rfl, by decide, by decide, hmiss, hin, fun hagrees => ?_⟩
  have hsome := hagrees.hits.mpr hin
  rw [hmiss] at hsome
  cases hsome

/-! ## What the operations make -/

theorem Placed.checked {s : Surface} {w : Window ι} (h : Placed c s w) :
    ¬(surfaceValid s = false ∨ w.x > c.width - s.width ∨ w.y > c.workHeight - s.height) := by
  have hright := h.right
  have hbottom := h.bottom
  simp only [h.valid, gt_iff_lt, UInt32.lt_iff_toNat_lt, Bool.true_eq_false, false_or, not_or]
  rw [toNat_sub32 (by omega),
    toNat_sub32 (by omega)]
  omega

theorem validateOrder_of_arranged (h : Arranged c f) {seen order : List Nat}
    (hnodup : order.Nodup) (hnew : ∀ id ∈ order, id ∉ seen)
    (hin : ∀ id ∈ order, id < c.windows.length) : validateOrder c f seen order = true := by
  induction order generalizing seen with
  | nil => rfl
  | cons id rest ih =>
    rw [List.nodup_cons] at hnodup
    rw [List.forall_mem_cons] at hnew hin
    have hplaced := h.placed _ (List.getElem_mem hin.1)
    unfold validateOrder
    rw [List.getElem?_eq_getElem hin.1]
    dsimp only
    rw [if_neg hnew.1, if_neg hplaced.checked]
    refine ih hnodup.2 (fun id' hid' hseen => ?_) hin.2
    rcases List.mem_cons.mp hseen with rfl | hseen
    · exact hnodup.1 hid'
    · exact hnew.2 id' hid' hseen

theorem validatePanel_of_arranged (h : Arranged c f) : validatePanel c f = true := by
  unfold validatePanel
  split
  · rfl
  · next panel hpanel =>
    obtain ⟨hvalid, hwidth, hheight, -⟩ := h.panel panel hpanel
    simp only [hvalid, hwidth, gt_iff_lt, UInt32.lt_iff_toNat_lt, decide_eq_true_eq, true_and]
    rw [toNat_sub32 (by omega)]
    omega

/-- `compositor_validate` accepts what the operations make. -/
theorem Arranged.validates (h : Arranged c f) : compositorValidate c f = true := by
  have hnodup : c.zOrder.Nodup := h.order.nodup_iff.mpr List.nodup_range
  have hin : ∀ id ∈ c.zOrder, id < c.windows.length := fun id hid =>
    List.mem_range.mp (h.order.mem_iff.mp hid)
  have horder := validateOrder_of_arranged h hnodup (fun id _ => List.not_mem_nil (a := id)) hin
  unfold compositorValidate
  rw [if_neg, horder, validatePanel_of_arranged h]
  · rfl
  · have hle := UInt32.le_iff_toNat_le.mp h.size.2.2.2
    have hcount := h.count
    have hfew := h.few
    simp only [h.size.1, h.size.2.1, h.size.2.2.1, gt_iff_lt, UInt32.lt_iff_toNat_lt, false_or]
    omega

/-- The panel leaves the work area free. -/
def Compositor.PanelBelow (c : Compositor ι) : Prop :=
  ∀ panel, c.panel = some panel → c.workHeight ≤ c.panelY

/-- What the operations on windows keep is enough: there hit testing agrees everywhere. -/
theorem Arranged.hitAgrees (h : Arranged c f) (hpanel : c.PanelBelow) {x y : UInt32}
    (hx : x < c.width) (hy : y < c.workHeight) : HitAgrees c f x y := by
  have hcount : c.zOrder.length = c.windows.length := by
    rw [h.order.length_eq, List.length_range]
  refine Validated.hitAgrees ⟨h.validates, hcount⟩ hpanel hx hy ?_
  rintro ⟨w, hw, hin⟩
  have hplaced := h.placed w hw
  have hwidth := c.width.toNat_lt
  have hheight := c.workHeight.toNat_lt
  exact ⟨w, hw, hin, by have := hplaced.right; omega, by have := hplaced.bottom; omega⟩

/-! ## Whole runs -/

theorem Compositor.PanelBelow.damage {x y width height : UInt32} (h : c.PanelBelow) :
    (compositorDamage c x y width height).PanelBelow := by
  rw [compositorDamage_rest]
  exact h

variable [DecidableEq ι] {sc : Screen ι}

theorem Screen.act_panelBelow (hs : sc.Sound) (h : sc.compositor.PanelBelow) (a : Action ι) :
    (sc.act a).compositor.PanelBelow := by
  cases a with
  | draw => exact h
  | damage => exact .damage h
  | moveWindow | raiseWindow | setWindowVisible =>
    dsimp only [Screen.act, compositorMoveWindow, compositorRaiseWindow, compositorSetWindowVisible]
    repeat' split
    all_goals first | exact h | exact .damage h | exact .damage (.damage h)
  | present =>
    obtain ⟨_, _, _, _, _, heq, -⟩ := compositorPresent_eq hs.arranged hs.fits.usable
    dsimp only [Screen.act]
    rw [heq]
    exact h

theorem Screen.run_panelBelow (hs : sc.Sound) (h : sc.compositor.PanelBelow)
    (actions : List (Action ι)) : (sc.run actions).compositor.PanelBelow := by
  induction actions generalizing sc with
  | nil => exact h
  | cons a actions ih => exact ih (Screen.act_sound hs a) (Screen.act_panelBelow hs h a)

/-- From any set-up with the panel below the work area, after any run: `compositor_validate`
    accepts, and everywhere in the work area hit testing agrees with what is drawn. -/
theorem run_hitAgrees (f : ι → Surface) (hf : ∀ i, (f i).DamageInside) (g : Gop)
    (husable : g.usable = true) (workHeight background : UInt32) (c : Compositor ι)
    (hinit : compositorInit g.width g.height workHeight background = some c)
    (windows : List (ι × UInt32 × UInt32)) (panel : ι)
    (hdistinct : (panel :: windows.map Prod.fst).Nodup) (panelY : UInt32)
    (hbelow : (setUp f c windows panel panelY).PanelBelow) (actions : List (Action ι)) :
    let sc := Screen.run ⟨f, setUp f c windows panel panelY, g⟩ actions
    compositorValidate sc.compositor sc.surfaces = true ∧
    ∀ x y, x < sc.compositor.width → y < sc.compositor.workHeight →
      HitAgrees sc.compositor sc.surfaces x y := by
  intro sc
  have hstart := setUp_sound hf husable hinit hdistinct panelY
  have harr : Arranged sc.compositor sc.surfaces := (Screen.run_sound hstart actions).arranged
  exact ⟨harr.validates, fun x y => harr.hitAgrees (Screen.run_panelBelow hstart hbelow actions)⟩

theorem run_hitAgrees_moved : let sc := smallScreen.run [.moveWindow 0 2 0, .present]
    HitAgrees sc.compositor sc.surfaces 3 1 :=
  (run_hitAgrees smallSurfaces (fun panel hdirty => by cases panel <;> cases hdirty) smallGop rfl
    2 7 smallCompositor rfl [(false, 1, 0)] true (by decide) 2 (fun _ _ => by decide +kernel)
    [.moveWindow 0 2 0, .present]).2 3 1 (by decide +kernel) (by decide +kernel)

end ArgusOs.Display
