/-
  Pixels within the palette.

  `present` accepts a surface only if every pixel of it is an index of the palette, and
  `render_user_app` looks every pixel up there (`renderUserApp`) at a later time. What has been
  presented stays within the palette (`Painted`) as long as its process stores no other value
  into it afterwards; `lateStores` counts the stores that do. `reachable_painted` is that
  invariant over whole runs: loads and releases leave the surfaces of other processes alone, and
  a store of user code lands in a page of its own process. A late store is not noticed
  (`late_pixel_outside`).
-/
import ArgusOs.Runtime.Isolation

namespace ArgusOs.Runtime

open Lib Memory Capability Ipc Elf Function

/-! ## Valid surfaces -/

theorem appSurfaceValid_iff (mem : Mem) (p : Process) :
    appSurfaceValid mem p = true ↔ p.surfacePhysical ≠ 0 ∧
      ∀ index, index < argusAppSurfaceBytes →
        mem (p.surfacePhysical.toNat + index) < argusAppPaletteCount := by
  unfold appSurfaceValid
  simp

/-! ## Rendering -/

def argusAppSurfaceWidth : Nat := 320
def argusAppSurfaceHeight : Nat := 224
def argusAppSurfaceStride : Nat := argusAppSurfaceWidth

/-- What `render_user_app` draws: a message, or the colours row by row. -/
inductive Rendering where
  | message (label : String)
  | pixels (rows : List (List UInt32)) (sequence : UInt32)

/-- The message for an app that cannot be shown, after its `process_app_status`. -/
def userAppMessage (k : Kernel) (appId : UInt32) : String :=
  if findCatalog appId = none then "UNAVAILABLE"
  else
    match (findApp k appId).elim .unused fun i => (k.processes i).state with
    | .unused => "STOPPED"
    | .faulted => "FAULTED"
    | .exited => "EXITED"
    | _ => "UNAVAILABLE"

variable (palette : Vector UInt32 argusAppPaletteCount.toNat)

/-- One row of `palette[source_row[column]]`; there is none if an index is not below the count. -/
def paletteRow (mem : Mem) (sourceRow : Nat) :
    Option (List UInt32) :=
  (List.range argusAppSurfaceWidth).mapM fun column => palette[(mem (sourceRow + column)).toNat]?

def renderUserApp (k : Kernel)
    (appId : UInt32) : Option Rendering :=
  match processAppSurface k appId with
  | none => some (.message (userAppMessage k appId))
  | some (source, sequence) => do
    let rows ← (List.range argusAppSurfaceHeight).mapM fun row =>
      paletteRow palette k.phys.mem (source.toNat + row * argusAppSurfaceStride)
    some (.pixels rows sequence)

theorem isSome_mapM_iff {α β : Type} (f : α → Option β) (l : List α) :
    (l.mapM f).isSome = true ↔ ∀ a ∈ l, (f a).isSome = true := by
  induction l with
  | nil => simp
  | cons a l ih =>
    rw [List.mapM_cons, List.forall_mem_cons, ← ih]
    cases f a with
    | none => simp
    | some b => cases l.mapM f <;> simp

theorem paletteRow_isSome (mem : Mem) (sourceRow : Nat) :
    (paletteRow palette mem sourceRow).isSome = true ↔
      ∀ column, column < argusAppSurfaceWidth → mem (sourceRow + column) <
        argusAppPaletteCount := by
  unfold paletteRow
  rw [isSome_mapM_iff]
  simp [UInt8.lt_iff_toNat_lt]

/-- Every look-up is within the palette exactly when every pixel is an index of it. -/
theorem renderUserApp_isSome {k : Kernel} {appId : UInt32} {source : UInt64} {sequence : UInt32}
    (palette : Vector UInt32 argusAppPaletteCount.toNat)
    (hsurface : processAppSurface k appId = some (source, sequence)) :
    (renderUserApp palette k appId).isSome = true ↔ ∀ index, index < argusAppSurfaceBytes →
      k.phys.mem (source.toNat + index) < argusAppPaletteCount := by
  have hrows : (renderUserApp palette k appId).isSome =
      ((List.range argusAppSurfaceHeight).mapM fun row =>
        paletteRow palette k.phys.mem (source.toNat + row * argusAppSurfaceStride)).isSome := by
    unfold renderUserApp
    rw [hsurface]
    dsimp only
    cases (List.range argusAppSurfaceHeight).mapM fun row =>
      paletteRow palette k.phys.mem (source.toNat + row * argusAppSurfaceStride) <;> rfl
  rw [hrows, isSome_mapM_iff]
  simp only [List.mem_range, paletteRow_isSome]
  unfold argusAppSurfaceHeight argusAppSurfaceStride argusAppSurfaceWidth argusAppSurfaceBytes
  constructor
  · intro h index hindex
    have hpixel := h (index / 320) (by omega) (index % 320) (Nat.mod_lt _ (by decide))
    rwa [Nat.add_assoc, Nat.div_add_mod'] at hpixel
  · intro h row hrow column hcolumn
    rw [Nat.add_assoc]
    exact h _ (by omega)

/-! ## Surfaces that stay as they are -/

/-- The check looks at the pixels and at nothing else. -/
theorem appSurfaceValid_congr {mem mem' : Mem} {p p' : Process}
    (hsurface : p'.surfacePhysical = p.surfacePhysical)
    (hmem : ∀ index, index < argusAppSurfaceBytes →
      mem' (p.surfacePhysical.toNat + index) = mem (p.surfacePhysical.toNat + index))
    (h : appSurfaceValid mem p = true) : appSurfaceValid mem' p' = true := by
  rw [appSurfaceValid_iff] at h ⊢
  rw [hsurface]
  refine ⟨h.1, fun index hindex => ?_⟩
  rw [hmem index hindex]
  exact h.2 index hindex

/-- The pixels of an app lie in pages of its own. -/
theorem Housing.pixel_mem {kernel : PagingInfo} {phys : Phys} {p : Process}
    (h : Housing kernel phys p) (happ : p.appId ≠ 0) {index : Nat}
    (hindex : index < argusAppSurfaceBytes) :
    (p.surfacePhysical.toNat + index) / argusPageSize ∈ p.pages := by
  obtain ⟨hsurface, hcount⟩ := h.surface happ
  obtain ⟨map, hmap⟩ := h.mapped
  have halign := (hmap.pages.surface hsurface).1.1
  refine List.mem_append_right _ (List.mem_append_right _ (List.mem_append_right _ ?_))
  unfold Process.surfaceFrames
  unfold argusAppSurfaceBytes at hindex
  rw [if_neg hsurface, hcount, List.mem_range'_1, surfacePageCount_eq]
  unfold frameOf argusPageSize
  omega

/-! ## What a step does to presented pixels -/

/-- A move either presents, after the check, or leaves the flag alone. -/
theorem Moves.presented {polls : Prop} {mem : Mem} {p p' : Process} {action : UserAction}
    (h : Moves polls mem p action p') (hvalid : p'.presentValid = true) :
    p'.surfacePhysical = p.surfacePhysical ∧ p'.appId = p.appId ∧
      (p.presentValid = true ∨ p.appId ≠ 0 ∧ appSurfaceValid mem p = true) := by
  cases h with
  | present sequence happ hsurface => exact ⟨rfl, rfl, Or.inr ⟨happ, hsurface⟩⟩
  | same | poll | yield | exit | wait | preempt | fault => exact ⟨rfl, rfl, Or.inl hvalid⟩

theorem Change.presented {images : Images} {k k' : Kernel} {i : Fin 8} {p p' : Process}
    (h : Change images k k' i p p') (hlive : p'.state ≠ .unused) (hvalid : p'.presentValid = true) :
    p.state ≠ .unused ∧ p'.surfacePhysical = p.surfacePhysical ∧ p'.appId = p.appId ∧
      (p.presentValid = true ∨ p.appId ≠ 0 ∧ appSurfaceValid k.phys.mem p = true) := by
  cases h with
  | same | active => exact ⟨hlive, rfl, rfl, Or.inl hvalid⟩
  | run h | wake h => exact ⟨by rw [h]; decide, rfl, rfl, Or.inl hvalid⟩
  | moves _ hstate h => exact ⟨by rw [hstate]; decide, h.presented hvalid⟩
  | key _ _ _ _ hlisten => exact ⟨listening_live hlisten, rfl, rfl, Or.inl hvalid⟩
  | load _ _ _ h =>
    have hfresh := congrArg Process.presentValid h.core
    change p'.presentValid = false at hfresh
    rw [hvalid] at hfresh
    cases hfresh
  | failed _ h => exact absurd h hlive
  | release => exact absurd rfl hlive

/-- Every surface that has been presented is within the palette. -/
def Painted (k : Kernel) : Prop :=
  ∀ i, k.Live i → (k.processes i).presentValid = true →
    (k.processes i).appId ≠ 0 ∧ appSurfaceValid k.phys.mem (k.processes i) = true

section Painted

variable {images : Images} {paging : PagingInfo} {mem₀ : Mem} {frames : List Nat} {total : Nat}
  {k k' : Kernel}

/-- The history only grows. -/
theorem Step.lateStores_le (hk : Sound paging mem₀ frames total k) (hs : Step images k k') :
    k.lateStores ≤ k'.lateStores := by
  cases hs.resources hk.scheduled with
  | keep hkept =>
    rcases hkept.effect with ⟨-, -, hlate⟩ | ⟨i, hrun, heffect⟩
    · exact hlate.ge
    · cases heffect (hk.wired.quiet (by rw [Kernel.Live, hrun]; decide)) with
      | none _ _ hlate => exact hlate.ge
      | store _ _ _ _ _ _ _ _ hlate =>
        rw [hlate]
        split
        · omega
        · omega
  | load i appId l done _ _ _ hsame | release i _ _ hsame => exact (Nat.le_of_eq hsame.late.symm)

/-- A store that is not late leaves presented pixels within the palette. -/
theorem Painted.store (hk : Sound paging mem₀ frames total k) (h : Painted k) {i : Fin 8}
    {address physical flags : UInt64} {value : UInt8} (hlive : k.Live i)
    (haddress : userAddress k.phys.mem (k.processes i).addressSpace address =
      some (physical, flags))
    (hphys : k'.phys = ⟨update k.phys.mem physical.toNat value, k.phys.pmm⟩)
    (hintime : ¬(presentedPixel (k.processes i) physical = true ∧ value ≥ argusAppPaletteCount))
    (hprocesses : k'.processes = k.processes) : Painted k' := by
  have hdata : frameOf physical ∈ (k.processes i).pages := by
    unfold userAddress at haddress
    split at haddress
    · cases haddress
    · exact List.mem_append_right _ ((hk.housed.live i hlive).translate haddress).1
  unfold Painted Kernel.Live
  rw [hprocesses, hphys]
  intro j hj hvalid
  obtain ⟨happ, hsurface⟩ := h j hj hvalid
  refine ⟨happ, ?_⟩
  rw [appSurfaceValid_iff] at hsurface ⊢
  refine ⟨hsurface.1, fun index hindex => ?_⟩
  by_cases hat : (k.processes j).surfacePhysical.toNat + index = physical.toNat
  · -- the process stored into its own surface, which has been presented
    have hpage := (hk.housed.live j hj).pixel_mem happ hindex
    have hji : j = i := by
      by_contra hne
      rw [hat] at hpage
      exact hk.housed.apart hne hpage hdata
    subst hji
    have hpixel : presentedPixel (k.processes j) physical = true := by
      unfold presentedPixel
      rw [hvalid]
      simp only [Bool.true_and, Bool.and_eq_true, decide_eq_true_eq, UInt64.le_iff_toNat_le]
      omega
    show update k.phys.mem physical.toNat value _ < _
    rw [hat, update_self]
    exact UInt8.not_le.mp fun hge => hintime ⟨hpixel, hge⟩
  · show update k.phys.mem physical.toNat value _ < _
    rw [update_of_ne hat]
    exact hsurface.2 index hindex

variable (hroot : KernelRoot mem₀ paging) (hin : frameOf paging.rootTable ∈ frames)

include hroot hin

theorem Painted.step (hk : Sound paging mem₀ frames total k) (h : Painted k)
    (hs : Step images k k') (hnone : k'.lateStores = 0) : Painted k' := by
  have hle := hs.lateStores_le hk
  have hchange := fun i => hs.change hk.scheduled i
  -- a slot whose pixels stay as they are
  have hkeep : ∀ i, (∀ a, a / argusPageSize ∈ (k.processes i).pages →
      k'.phys.mem a = k.phys.mem a) → k'.Live i →
      (k'.processes i).presentValid = true → (k'.processes i).appId ≠ 0 ∧
        appSurfaceValid k'.phys.mem (k'.processes i) = true := by
    intro i hmem hlive hvalid
    obtain ⟨hold, hsurface, happ, hwhy⟩ := (hchange i).presented hlive hvalid
    have hbefore : (k.processes i).appId ≠ 0 ∧ appSurfaceValid k.phys.mem (k.processes i) = true :=
      hwhy.elim (h i hold) id
    refine ⟨by rw [happ]; exact hbefore.1, appSurfaceValid_congr hsurface ?_ hbefore.2⟩
    intro index hindex
    exact hmem _ ((hk.housed.live i hold).pixel_mem hbefore.1 hindex)
  cases hs.resources hk.scheduled with
  | keep hkept =>
    rcases hkept.effect with ⟨hphys, -, -⟩ | ⟨i, hrun, heffect⟩
    · exact fun i => hkeep i fun _ _ => by rw [hphys]
    · have hlive : k.Live i := by
        rw [Kernel.Live, hrun]
        decide
      cases heffect (hk.wired.quiet hlive) with
      | none hphys _ _ => exact fun i => hkeep i fun _ _ => by rw [hphys]
      | store address physical flags value haddress _ hphys _ hlate hprocesses =>
        refine h.store hk hlive haddress hphys ?_ hprocesses
        intro hc
        rw [if_pos hc] at hlate
        omega
  | load i appId l done _ hfree hload hsame =>
    intro j hlive hvalid
    have hji : j ≠ i := by
      intro hc
      obtain ⟨hold, -⟩ := (hchange j).presented hlive hvalid
      rw [hc] at hold
      exact hold hfree
    refine hkeep j (fun a ha => ?_) hlive hvalid
    rw [hsame.phys]
    exact hk.housed.others_keep hji (hk.housed.load_exchange hroot hin hfree hload) ha
  | release i _ hold hsame =>
    intro j hlive hvalid
    have hji : j ≠ i := by
      intro hc
      rw [Kernel.Live, hc, hsame.processes] at hlive
      exact hlive (congrArg Process.state (store_same k i _))
    refine hkeep j (fun a ha => ?_) hlive hvalid
    rw [hsame.phys]
    exact hk.housed.others_keep hji (hk.housed.release_exchange hold) ha

end Painted

/-- In every reachable state without a late store, presented surfaces are within the palette. -/
theorem reachable_painted {images : Images} {paging : PagingInfo} {frames : List Nat}
    {k₀ k : Kernel} (hheld : KernelHeld k₀.phys paging frames) (h : Reachable images paging k₀ k)
    (hnone : k.lateStores = 0) : Painted k := by
  have hin := (hheld.tables 0 _ .root).2
  have hboth : Sound paging k₀.phys.mem frames k₀.phys.pmm.freeCount k ∧
      (k.lateStores = 0 → Painted k) := by
    refine Reachable.invariant (fun k => Sound paging k₀.phys.mem frames k₀.phys.pmm.freeCount k ∧
      (k.lateStores = 0 → Painted k)) ?_ ?_ h
    · intro k hk
      refine ⟨processInit_sound hheld hk, fun _ i hlive hvalid => ?_⟩
      have hfresh := congrArg Process.presentValid (processInit_born hk i hlive).2.core
      change (k.processes i).presentValid = false at hfresh
      rw [hvalid] at hfresh
      cases hfresh
    · intro k k' hk hs
      refine ⟨hk.1.step hheld.root hin hs, fun hnone => ?_⟩
      have hle := hs.lateStores_le hk.1
      exact (hk.2 (by omega)).step hheld.root hin hk.1 hs hnone
  exact hboth.2 hnone

/-- A surface that can be shown is one that has been presented. -/
theorem processAppSurface_cases {k : Kernel} {appId : UInt32} {source : UInt64} {sequence : UInt32}
    (h : processAppSurface k appId = some (source, sequence)) :
    ∃ i, k.Live i ∧ (k.processes i).presentValid = true ∧
      (k.processes i).surfacePhysical = source := by
  unfold processAppSurface at h
  split at h
  · cases h
  · next i hfind =>
    split at h
    · cases h
    · next honline =>
      rw [Bool.not_eq_false] at honline
      rw [Option.some.injEq, Prod.mk.injEq] at h
      refine ⟨i, (findApp_cases hfind).1, ?_, h.1⟩
      unfold Process.online at honline
      exact (Bool.and_eq_true_iff.mp honline).2

/-- **Indices of the palette.** As long as no process has stored another value into its surface
    after presenting it, `render_user_app` looks up only indices of the palette. -/
theorem rendered_pixels_in_palette (images : Images) (paging : PagingInfo) (frames : List Nat)
    (k₀ k : Kernel) (appId : UInt32) (source : UInt64) (sequence : UInt32)
    (hheld : KernelHeld k₀.phys paging frames) (h : Reachable images paging k₀ k)
    (hnone : k.lateStores = 0) (hsurface : processAppSurface k appId = some (source, sequence)) :
    (∀ index, index < argusAppSurfaceBytes →
      k.phys.mem (source.toNat + index) < argusAppPaletteCount) ∧
    ∀ palette, (renderUserApp palette k appId).isSome = true := by
  obtain ⟨i, hlive, hvalid, hsource⟩ := processAppSurface_cases hsurface
  have hpainted := (reachable_painted hheld h hnone i hlive hvalid).2
  rw [appSurfaceValid_iff, hsource] at hpainted
  exact ⟨hpainted.2, fun palette => (renderUserApp_isSome palette hsurface).mpr hpainted.2⟩

theorem Kernel.shows_cases {value : UInt8} (h : k.shows value = true) :
    ∃ source sequence, processAppSurface k 3 = some (source, sequence) ∧
      k.phys.mem source.toNat = value ∧ (value = 0 → k.lateStores = 0) := by
  unfold Kernel.shows at h
  rw [Bool.and_eq_true, Option.any_eq_true, Bool.or_eq_true, decide_eq_true_eq,
    decide_eq_true_eq] at h
  obtain ⟨⟨⟨source, sequence⟩, hsurface, hpixel⟩, hlate⟩ := h
  exact ⟨source, sequence, hsurface, of_decide_eq_true hpixel, fun hzero =>
    hlate.resolve_left (not_not.mpr hzero)⟩

/-- After a self-test in which the apps store the index 0 once they have presented. -/
theorem rendered_pixels_in_palette_presenting :
    ∃ k source sequence, Reachable presentingImages sampleKernel (.before sampleMachine) k ∧
      k.lateStores = 0 ∧ processAppSurface k 3 = some (source, sequence) ∧
      ∀ palette, (renderUserApp palette k 3).isSome = true := by
  obtain ⟨-, -, k, -, -, hreach, -, hshows, -⟩ := sampleRuns_passed 0 (by decide)
  obtain ⟨source, sequence, hsurface, -, hlate⟩ := Kernel.shows_cases hshows
  have hnone : k.lateStores = 0 := hlate rfl
  exact ⟨k, source, sequence, hreach, hnone, hsurface,
    (rendered_pixels_in_palette presentingImages sampleKernel [256] _ k 3 source sequence
      sampleMachine_kernelHeld hreach hnone hsurface).2⟩

/-- An app that presents and then stores 255 into its first pixel is shown with that index. -/
theorem late_pixel_outside :
    ∃ k source sequence, Reachable presentingImages sampleKernel (.before sampleMachine) k ∧
      k.currentProcess = none ∧ processAppSurface k 3 = some (source, sequence) ∧
      k.phys.mem source.toNat = 255 ∧ ∀ palette, renderUserApp palette k 3 = none := by
  obtain ⟨-, -, k, -, -, hreach, hcur, hshows, -⟩ := sampleRuns_passed 255 (by decide)
  obtain ⟨source, sequence, hsurface, hpixel, -⟩ := Kernel.shows_cases hshows
  refine ⟨k, source, sequence, hreach, hcur, hsurface, hpixel, fun palette => ?_⟩
  rw [← Option.not_isSome_iff_eq_none]
  intro hsome
  have hall := (renderUserApp_isSome palette hsurface).mp hsome
  have hfirst := hall 0 (by decide)
  rw [Nat.add_zero, hpixel] at hfirst
  exact absurd hfirst (by decide)

end ArgusOs.Runtime
