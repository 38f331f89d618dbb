/-
  What a loaded app finds: the image the validator accepted, and nothing else.

  `userView` is one byte of the new address space as the program sees it: the byte and what it
  may do with it. `startView` says what an image asks for, from the image alone. A completed
  load makes the two agree at every address a program can use (`userView_eq_startView`), so
  nothing of what the page frames held before shows, and two loads of one image start alike.
-/
import ArgusOs.Elf.Soundness
import ArgusOs.Runtime.ImageRoom

namespace ArgusOs.Runtime

open Lib Memory Capability Ipc Elf

variable {virtualAddress : UInt64} {i : Nat} {s : ElfSegment}

/-! ## The validator -/

theorem image_size_le (image : List UInt8) : (UInt64.ofNat image.length).toNat ≤ image.length := by
  rw [UInt64.toNat_ofNat']
  exact Nat.mod_le ..

/-- With the bounds the loader passes, every accepted image is sound, and its file ranges are
    inside the bytes that were given. -/
theorem validateImage_sound (image : List UInt8) (elf : ElfImage)
    (h : validateImage image = some elf) :
    ImageSound (imageBytes image) (UInt64.ofNat image.length) imageMin imageMax elf ∧
      ∀ s ∈ elf.segments, s.fileOffset.toNat + s.fileSize.toNat ≤ image.length := by
  have hsound := elfValidateUserImage_sound image_window (by decide) h
  refine ⟨hsound, fun s hs => ?_⟩
  exact ((hsound.segments s hs).file_range).trans (image_size_le image)

/-- The one-page image with a second segment, read and write, in the page behind the first. -/
def twoSegmentImage : List UInt8 :=
  (onePageImage.take 120).set 56 3 ++
    [1, 0, 0, 0, 6, 0, 0, 0, 0, 0, 0, 0, 0, 0, 0, 0,
     0x00, 0x20, 0x00, 0x00, 0x80, 0, 0, 0, 0, 0, 0, 0, 0, 0, 0, 0,
     16, 0, 0, 0, 0, 0, 0, 0, 0x00, 0x10, 0, 0, 0, 0, 0, 0,
     0x00, 0x10, 0, 0, 0, 0, 0, 0] ++ onePageImage.drop 120

theorem validateImage_sound_twoSegments :
    ∃ code data, validateImage twoSegmentImage = some ⟨0x8000001000, 2, [code, data]⟩ ∧
      code.Apart data ∧ data.fileOffset.toNat + data.fileSize.toNat ≤ twoSegmentImage.length := by
  have h : validateImage twoSegmentImage = some ⟨0x8000001000, 2,
      [⟨0, 176, 0x8000001000, 4096, 5, 1⟩, ⟨0, 16, 0x8000002000, 4096, 6, 1⟩]⟩ := by decide +kernel
  obtain ⟨hsound, hfile⟩ := validateImage_sound _ _ h
  exact ⟨_, _, h, List.pairwise_pair.mp hsound.apart, hfile _ (by simp)⟩

/-! ## Views -/

/-- One byte of an address space as its program sees it. -/
structure ByteView where
  byte : UInt8
  writable : Bool
  executable : Bool
  deriving DecidableEq, Repr

def userView (mem : Mem) (space : UserSpace) (virtualAddress : UInt64) : Option ByteView :=
  (pagingUserTranslate mem space virtualAddress).map fun r =>
    ⟨mem r.1.toNat, r.2 &&& pageWritable ≠ 0, r.2 &&& pageNx = 0⟩

/-- The addresses a program can use at all: bits 47 to 63 are equal. -/
def Canonical (virtualAddress : UInt64) : Prop :=
  virtualAddress.toNat < 2 ^ 47 ∨ 2 ^ 64 - 2 ^ 47 ≤ virtualAddress.toNat

def InSegment (s : ElfSegment) (virtualAddress : UInt64) : Prop :=
  s.virtualAddress.toNat ≤ virtualAddress.toNat ∧ virtualAddress.toNat < s.pagesEnd

def InStack (virtualAddress : UInt64) : Prop :=
  (argusUserBase + userStackOffset).toNat ≤ virtualAddress.toNat ∧
    virtualAddress.toNat < (argusUserBase + userStackOffset).toNat + argusPageSize

def InSurface (virtualAddress : UInt64) : Prop :=
  argusAppSurfaceAddress.toNat ≤ virtualAddress.toNat ∧
    virtualAddress.toNat < argusAppSurfaceAddress.toNat + surfacePageCount * argusPageSize

instance (s : ElfSegment) (virtualAddress : UInt64) : Decidable (InSegment s virtualAddress) :=
  inferInstanceAs (Decidable (_ ∧ _))

instance (virtualAddress : UInt64) : Decidable (InStack virtualAddress) :=
  inferInstanceAs (Decidable (_ ∧ _))

instance (virtualAddress : UInt64) : Decidable (InSurface virtualAddress) :=
  inferInstanceAs (Decidable (_ ∧ _))

/-- The byte at an offset of a segment: of the file, and zero behind it. -/
def segmentByte (image : List UInt8) (s : ElfSegment) (offset : Nat) : UInt8 :=
  if offset < s.fileSize.toNat then image.getD (s.fileOffset.toNat + offset) 0 else 0

/-- Without NX every page is executable. -/
def segmentView (nxEnabled : Bool) (image : List UInt8) (s : ElfSegment)
    (offset : Nat) : ByteView :=
  ⟨segmentByte image s offset, s.flags &&& elfFlagWrite ≠ 0,
    decide (s.flags &&& elfFlagExecute ≠ 0) || !nxEnabled⟩

/-- A byte of stack or surface. -/
def blankView (nxEnabled : Bool) : ByteView := ⟨0, true, !nxEnabled⟩

/-- What an image asks for. -/
def startView (nxEnabled : Bool) (image : List UInt8) (elf : ElfImage) (virtualAddress : UInt64) :
    Option ByteView :=
  match elf.segments.find? fun s => InSegment s virtualAddress with
  | some s => some (segmentView nxEnabled image s (virtualAddress.toNat - s.virtualAddress.toNat))
  | none =>
    if InStack virtualAddress ∨ InSurface virtualAddress then some (blankView nxEnabled) else none

/-- The registers an app starts with. -/
def startContext (entry pid : UInt64) : UserContext :=
  { UserContext.zero with
    rip := entry
    rdi := pid
    rsp := argusUserBase + userStackOffset + UInt64.ofNat argusPageSize - 8
    rflags := 0x202 }

/-! ## Pages and what they hold -/

/-- A page is mapped with these rights and holds these bytes. -/
def PageHolds (kernel : PagingInfo) (mem : Mem) (map : UserMap) (vpn : Nat)
    (writable executable : Bool) (bytes : Nat → UInt8) : Prop :=
  ∃ physical, PageAddress physical ∧
    map vpn = some (leafEntry kernel.nxEnabled physical writable executable) ∧
    ∀ i, i < argusPageSize → mem (physical.toNat + i) = bytes i

section View

variable {kernel : PagingInfo} {mem : Mem} {space : UserSpace} {map : UserMap}

theorem userView_of_holds (hrep : Represents mem space map) {writable executable : Bool}
    {bytes : Nat → UInt8}
    (h : PageHolds kernel mem map (vpnOf virtualAddress) writable executable bytes) :
    userView mem space virtualAddress =
      some ⟨bytes (virtualAddress.toNat % 4096), writable, executable || !kernel.nxEnabled⟩ := by
  obtain ⟨physical, hpage, hmap, hbytes⟩ := h
  obtain ⟨haddress, hwritable, hnx⟩ :=
    leafEntry_translation kernel.nxEnabled writable executable hpage virtualAddress
  unfold userView
  rw [hrep.translate, hmap, Option.map_some, Option.map_some, Option.some.injEq]
  dsimp only
  have hw : decide (leafEntry kernel.nxEnabled physical writable executable &&&
      ~~~pageAddressMask &&&
      pageWritable ≠ 0) = writable := by
    rw [Bool.eq_iff_iff, decide_eq_true_eq, hwritable]
  have hx : decide (leafEntry kernel.nxEnabled physical writable executable &&&
      ~~~pageAddressMask &&&
      pageNx = 0) = (executable || !kernel.nxEnabled) := by
    rw [Bool.eq_iff_iff, decide_eq_true_eq, ← not_iff_not, ← Ne, hnx]
    simp
  rw [haddress, hbytes (virtualAddress.toNat % 4096) (Nat.mod_lt _ (by decide)), hw, hx]

theorem userView_of_unmapped (hrep : Represents mem space map)
    (h : map (vpnOf virtualAddress) = none) : userView mem space virtualAddress = none := by
  unfold userView
  rw [hrep.translate, h]
  rfl

end View

theorem holds_of_cleared {kernel : PagingInfo} {mem : Mem} {map : UserMap} {vpn : Nat}
    {physical : UInt64} (hpage : PageAddress physical)
    (hmap : map vpn = some (leafEntry kernel.nxEnabled physical true false)) {frames : List Nat}
    (hclear : Cleared mem frames) (hin : frameOf physical ∈ frames) :
    PageHolds kernel mem map vpn true false fun _ => 0 := by
  refine ⟨physical, hpage, hmap, fun i hi => hclear _ ?_⟩
  have halign := hpage.1
  unfold frameOf argusPageSize at *
  rw [show (physical.toNat + i) / 4096 = physical.toNat / 4096 by omega]
  exact hin

theorem exists_of_forall₂ {α β : Type} {R : α → β → Prop} {xs : List α} {ys : List β}
    (h : List.Forall₂ R xs ys) {x : α} (hx : x ∈ xs) : ∃ y, R x y := by
  induction h with
  | nil => cases hx
  | cons hxy _ ih =>
    rcases List.mem_cons.mp hx with rfl | hx
    · exact ⟨_, hxy⟩
    · exact ih hx

/-! ## The pages of a completed load -/

/-- The pages of an accepted segment end below the stack. -/
theorem segment_bounds {image : List UInt8} {elf : ElfImage}
    (helf : validateImage image = some elf) (hs : s ∈ elf.segments) :
    s.virtualAddress.toNat % 4096 = 0 ∧
      s.virtualAddress.toNat + s.pageCount.toNat * 4096 ≤ 2 ^ 39 + 0x1FF000 ∧
      s.pagesEnd = s.virtualAddress.toNat + s.pageCount.toNat * 4096 := by
  have hsound := (elfValidateUserImage_sound image_window (by decide) helf).segments s hs
  have hhigh := hsound.address_high
  have hend : s.pagesEnd = s.virtualAddress.toNat + s.pageCount.toNat * 4096 := by
    rw [ElfSegment.pagesEnd, hsound.pages]
  rw [imageMax_toNat, hend] at hhigh
  exact ⟨hsound.address_aligned, hhigh, hend⟩

/-- The number of a page of an accepted segment. -/
theorem segmentPage_vpn {image : List UInt8} {elf : ElfImage}
    (helf : validateImage image = some elf) (hs : s ∈ elf.segments) (hi : i < s.pageCount.toNat) :
    vpnOf (s.virtualAddress + UInt64.ofNat i * UInt64.ofNat argusPageSize) =
      (s.virtualAddress.toNat + i * 4096) / 4096 := by
  have hbounds := segment_bounds helf hs
  unfold vpnOf
  rw [UInt64.toNat_add, pageOffset_toNat _ (by omega)]
  omega

theorem inStack_iff : InStack virtualAddress ↔
    2 ^ 39 + 0x200000 ≤ virtualAddress.toNat ∧ virtualAddress.toNat < 2 ^ 39 + 0x201000 := by
  unfold InStack
  rw [show (argusUserBase + userStackOffset).toNat = 2 ^ 39 + 0x200000 by decide]
  rfl

theorem inSurface_iff : InSurface virtualAddress ↔
    2 ^ 39 + 0x400000 ≤ virtualAddress.toNat ∧ virtualAddress.toNat < 2 ^ 39 + 0x412000 := by
  unfold InSurface
  rw [show argusAppSurfaceAddress.toNat = 2 ^ 39 + 0x400000 by decide, surfacePageCount_eq]
  rfl

/-- In the low half an address is its page number and its offset. -/
theorem Canonical.vpn_eq (h : Canonical virtualAddress) (hlow : vpnOf virtualAddress < 2 ^ 35) :
    vpnOf virtualAddress = virtualAddress.toNat / 4096 := by
  have hlt := virtualAddress.toNat_lt
  unfold vpnOf Canonical at *
  omega

section Done

variable {kernel : PagingInfo} {l l' : Loading} {pid : UInt64} {appId : UInt32} {x : Parts}
  {map : UserMap} {image : List UInt8} {elf : ElfImage}

section

variable (h : LoadDone kernel l l' pid appId x map elf.entry)

include h

theorem stack_holds
    (hf : Furnished kernel image (elf.segments.flatMap segmentPages) appId l'.phys.mem x map) :
    PageHolds kernel l'.phys.mem map stackVpn true false fun _ => 0 :=
  holds_of_cleared (h.outfit.under.loaded.pages.stack h.outfit.stack.1) h.outfit.stack.2 hf.stack
    (List.mem_singleton_self _)

/-- The surface is a run of pages the allocator has. -/
theorem surface_run (happ : appId ≠ 0) : RunOk x.surface surfacePageCount := by
  have hne := (h.outfit.app happ).surface
  refine ⟨(h.outfit.under.loaded.pages.surface hne).1, ?_⟩
  have hlast : frameOf x.surface + 17 ∈ (x.process pid appId).pages := by
    apply List.mem_append_right
    apply List.mem_append_right
    apply List.mem_append_right
    show _ ∈ if x.surface = 0 then [] else
      List.range' (frameOf x.surface) (if appId = 0 then 0 else surfacePageCount)
    rw [if_neg hne, if_neg happ, List.mem_range'_1, surfacePageCount_eq]
    omega
  have hlt := h.outfit.under.held.lt _ hlast
  have hcount := h.outfit.under.ok.page_count
  rw [surfacePageCount_eq]
  omega

theorem surface_holds (happ : appId ≠ 0) (hi : i < surfacePageCount) :
    PageHolds kernel l'.phys.mem map (surfaceVpn + i) true false fun _ => 0 := by
  have ho := h.outfit.app happ
  obtain ⟨hpage, hframe⟩ := (surface_run h happ).page_at hi
  refine holds_of_cleared hpage (ho.mapped i (Nat.zero_le i) (by omega)) ho.cleared ?_
  rw [hframe, List.mem_range'_1]
  omega

end

/-- The page of a segment with the given index. -/
theorem segment_holds (helf : validateImage image = some elf)
    (hf : Furnished kernel image (elf.segments.flatMap segmentPages) appId l'.phys.mem x map)
    (hs : s ∈ elf.segments) (hi : i < s.pageCount.toNat) :
    PageHolds kernel l'.phys.mem map ((s.virtualAddress.toNat + i * 4096) / 4096)
      (s.flags &&& elfFlagWrite ≠ 0) (s.flags &&& elfFlagExecute ≠ 0)
      fun j => segmentByte image s (i * 4096 + j) := by
  have hmem : (⟨s.virtualAddress + UInt64.ofNat i * UInt64.ofNat argusPageSize,
      s.flags &&& elfFlagWrite ≠ 0, s.flags &&& elfFlagExecute ≠ 0,
      s.fileOffset.toNat + i * argusPageSize,
      min (s.fileSize.toNat - i * argusPageSize) argusPageSize⟩ : ImagePage) ∈
        elf.segments.flatMap segmentPages :=
    List.mem_flatMap.mpr ⟨s, hs, List.mem_map.mpr ⟨i, List.mem_range.mpr hi, rfl⟩⟩
  obtain ⟨physical, hfilled⟩ := exists_of_forall₂ hf.filled hmem
  have hmapped := hfilled.mapped
  rw [segmentPage_vpn helf hs hi] at hmapped
  refine ⟨physical, hfilled.address, hmapped, fun j hj => ?_⟩
  rw [hfilled.bytes j hj]
  unfold segmentByte argusPageSize at *
  dsimp only
  by_cases hin : i * 4096 + j < s.fileSize.toNat
  · rw [if_pos hin, if_pos (by omega), Nat.add_assoc]
  · rw [if_neg hin, if_neg (by omega)]

/-- Whatever is mapped belongs to a segment, to the stack or to the surface. -/
theorem mapped_cases (helf : validateImage image = some elf)
    (hf : Furnished kernel image (elf.segments.flatMap segmentPages) appId l'.phys.mem x map)
    (hcanonical : Canonical virtualAddress) (hmapped : map (vpnOf virtualAddress) ≠ none) :
    (∃ s ∈ elf.segments, InSegment s virtualAddress) ∨ InStack virtualAddress ∨
      InSurface virtualAddress := by
  rw [inStack_iff, inSurface_iff]
  rcases hf.only _ hmapped with hv | ⟨-, hv⟩ | ⟨page, hpage, hv⟩
  · unfold stackVpn at hv
    have := hcanonical.vpn_eq (by omega)
    exact Or.inr (Or.inl (by omega))
  · unfold SurfacePage surfaceVpn at hv
    rw [surfacePageCount_eq] at hv
    have := hcanonical.vpn_eq (by omega)
    exact Or.inr (Or.inr (by omega))
  · left
    obtain ⟨s, hs, hpage⟩ := List.mem_flatMap.mp hpage
    obtain ⟨i, hi, rfl⟩ := List.mem_map.mp hpage
    rw [List.mem_range] at hi
    have hbounds := segment_bounds helf hs
    dsimp only at hv
    rw [segmentPage_vpn helf hs hi] at hv
    have := hcanonical.vpn_eq (by omega)
    refine ⟨s, hs, ?_⟩
    unfold InSegment
    omega

theorem userView_eq_startView (helf : validateImage image = some elf) (happ : appId ≠ 0)
    (h : LoadDone kernel l l' pid appId x map elf.entry)
    (hf : Furnished kernel image (elf.segments.flatMap segmentPages) appId l'.phys.mem x map)
    (hcanonical : Canonical virtualAddress) :
    userView l'.phys.mem x.space virtualAddress =
      startView kernel.nxEnabled image elf virtualAddress := by
  have hrep : Represents l'.phys.mem x.space map := h.outfit.under.loaded.rep
  unfold startView
  cases hfind : elf.segments.find? fun s => InSegment s virtualAddress with
  | some s =>
    have hs := List.mem_of_find?_eq_some hfind
    have hin : InSegment s virtualAddress := by
      simpa using List.find?_some hfind
    have hbounds := segment_bounds helf hs
    unfold InSegment at hin
    have hi : (virtualAddress.toNat - s.virtualAddress.toNat) / 4096 < s.pageCount.toNat := by
      omega
    have hholds := segment_holds helf hf hs hi
    have hvpn : vpnOf virtualAddress = (s.virtualAddress.toNat +
        (virtualAddress.toNat - s.virtualAddress.toNat) / 4096 * 4096) / 4096 := by
      unfold vpnOf
      omega
    rw [← hvpn] at hholds
    rw [userView_of_holds hrep hholds]
    dsimp only
    unfold segmentView
    rw [show (virtualAddress.toNat - s.virtualAddress.toNat) / 4096 * 4096 +
      virtualAddress.toNat % 4096 = virtualAddress.toNat - s.virtualAddress.toNat by omega]
  | none =>
    dsimp only
    by_cases hin : InStack virtualAddress ∨ InSurface virtualAddress
    · rw [if_pos hin]
      rw [inStack_iff, inSurface_iff] at hin
      rcases hin with hin | hin
      · have hvpn : vpnOf virtualAddress = stackVpn := by
          unfold vpnOf stackVpn
          omega
        have hholds := stack_holds h hf
        rw [← hvpn] at hholds
        exact userView_of_holds hrep hholds
      · have hvpn : vpnOf virtualAddress =
            surfaceVpn + (virtualAddress.toNat / 4096 - surfaceVpn) := by
          unfold vpnOf surfaceVpn
          omega
        have hholds := surface_holds h happ (i := virtualAddress.toNat / 4096 - surfaceVpn) (by
          rw [surfacePageCount_eq]
          unfold surfaceVpn
          omega)
        rw [← hvpn] at hholds
        exact userView_of_holds hrep hholds
    · rw [if_neg hin]
      apply userView_of_unmapped hrep
      by_contra hmapped
      rcases mapped_cases helf hf hcanonical hmapped with ⟨s, hs, hseg⟩ | hrest
      · have := List.find?_eq_none.mp hfind s hs
        simp only [decide_eq_true_eq] at this
        exact this hseg
      · exact hin hrest

end Done

/-! ## What the specification says, address by address -/

section Start

variable {nxEnabled : Bool} {image : List UInt8} {elf : ElfImage}

instance : Std.Symm ElfSegment.Apart := ⟨fun _ _ h => ElfSegment.Apart.symm h⟩

/-- The page ranges of the segments are apart, so the one that holds an address is the one found. -/
theorem find_segment (helf : validateImage image = some elf) (hs : s ∈ elf.segments)
    (hin : InSegment s virtualAddress) :
    (elf.segments.find? fun s => InSegment s virtualAddress) = some s := by
  have hsound := elfValidateUserImage_sound image_window (by decide) helf
  cases hfind : elf.segments.find? fun s => InSegment s virtualAddress with
  | none =>
    have hnot := List.find?_eq_none.mp hfind s hs
    rw [decide_eq_true_eq] at hnot
    exact absurd hin hnot
  | some t =>
    have ht := List.mem_of_find?_eq_some hfind
    have hint : InSegment t virtualAddress := by
      simpa using List.find?_some hfind
    by_contra hne
    have hapart := hsound.apart.forall ht hs fun hc => hne (by rw [hc])
    unfold InSegment at hin hint
    unfold ElfSegment.Apart at hapart
    omega

theorem startView_segment (helf : validateImage image = some elf) (hs : s ∈ elf.segments)
    (hin : InSegment s virtualAddress) :
    startView nxEnabled image elf virtualAddress =
      some (segmentView nxEnabled image s (virtualAddress.toNat - s.virtualAddress.toNat)) := by
  unfold startView
  rw [find_segment helf hs hin]

/-- Segments end below the stack. -/
theorem startView_blank (helf : validateImage image = some elf)
    (hin : InStack virtualAddress ∨ InSurface virtualAddress) :
    startView nxEnabled image elf virtualAddress = some (blankView nxEnabled) := by
  have hnone : (elf.segments.find? fun s => InSegment s virtualAddress) = none := by
    rw [List.find?_eq_none]
    intro s hs
    rw [decide_eq_true_eq]
    intro hc
    have hbounds := segment_bounds helf hs
    rw [inStack_iff, inSurface_iff] at hin
    unfold InSegment at hc
    omega
  unfold startView
  rw [hnone]
  exact if_pos hin

theorem startView_ne_none_iff :
    startView nxEnabled image elf virtualAddress ≠ none ↔
      (∃ s ∈ elf.segments, InSegment s virtualAddress) ∨ InStack virtualAddress ∨
        InSurface virtualAddress := by
  unfold startView
  cases hfind : elf.segments.find? fun s => InSegment s virtualAddress with
  | some s =>
    have hin : InSegment s virtualAddress := by
      simpa using List.find?_some hfind
    refine iff_of_true (Option.some_ne_none _) (Or.inl ⟨s, List.mem_of_find?_eq_some hfind, hin⟩)
  | none =>
    have hnot : ¬ ∃ s ∈ elf.segments, InSegment s virtualAddress := by
      intro ⟨s, hs, hin⟩
      have := List.find?_eq_none.mp hfind s hs
      rw [decide_eq_true_eq] at this
      exact this hin
    by_cases hin : InStack virtualAddress ∨ InSurface virtualAddress
    · simp [hin]
    · simp [hin, hnot]

end Start

/-- A completed load of an accepted image realises the image and
    nothing else: which addresses are accessible, what they hold and allow, and the registers
    are fixed by the image and the pid. A second load, of the same image under the same pid on
    any other machine with the same NX support, starts alike. -/
theorem load_realises_image (kernel : PagingInfo) (l l' : Loading) (pid : UInt64) (appId : UInt32)
    (image : List UInt8) (elf : ElfImage) (hpre : LoadPre kernel l.phys) (hidle : Idle l.process)
    (happ : appId ≠ 0) (helf : validateImage image = some elf)
    (hload : loadElfApp kernel l pid appId image = .ok (l', true)) :
    (∀ virtualAddress, Canonical virtualAddress →
      (userView l'.phys.mem l'.process.addressSpace virtualAddress ≠ none ↔
        (∃ s ∈ elf.segments, InSegment s virtualAddress) ∨ InStack virtualAddress ∨
          InSurface virtualAddress)) ∧
    (∀ s ∈ elf.segments, ∀ virtualAddress, InSegment s virtualAddress →
      userView l'.phys.mem l'.process.addressSpace virtualAddress = some (segmentView
        kernel.nxEnabled image s (virtualAddress.toNat - s.virtualAddress.toNat))) ∧
    (∀ virtualAddress, InStack virtualAddress ∨ InSurface virtualAddress →
      userView l'.phys.mem l'.process.addressSpace virtualAddress =
        some (blankView kernel.nxEnabled)) ∧
    l'.process.context = startContext elf.entry pid ∧
    ∀ (kernel₂ : PagingInfo) (l₂ l₂' : Loading) (appId₂ : UInt32), LoadPre kernel₂ l₂.phys →
      Idle l₂.process → appId₂ ≠ 0 → kernel₂.nxEnabled = kernel.nxEnabled →
      loadElfApp kernel₂ l₂ pid appId₂ image = .ok (l₂', true) →
      l₂'.process.context = l'.process.context ∧
        ∀ virtualAddress, Canonical virtualAddress →
          userView l₂'.phys.mem l₂'.process.addressSpace virtualAddress =
            userView l'.phys.mem l'.process.addressSpace virtualAddress := by
  -- what any completed load of the image gives
  have hany : ∀ (kernel : PagingInfo) (l l' : Loading) (appId : UInt32), LoadPre kernel l.phys →
      Idle l.process → appId ≠ 0 → loadElfApp kernel l pid appId image = .ok (l', true) →
      l'.process.context = startContext elf.entry pid ∧
        ∀ virtualAddress, Canonical virtualAddress →
          userView l'.phys.mem l'.process.addressSpace virtualAddress =
            startView kernel.nxEnabled image elf virtualAddress := by
    intro kernel l l' appId hpre hidle happ hload
    rcases loadElfApp_spec hpre hidle pid appId image _ hload with
      ⟨-, elf', x, map, helf', hdone, hfurnished⟩ | ⟨hfalse, -⟩
    · rw [helf, Option.some.injEq] at helf'
      rw [← helf'] at hdone hfurnished
      rw [hdone.process]
      exact ⟨rfl, fun va hva => userView_eq_startView helf happ hdone hfurnished hva⟩
    · cases hfalse
  obtain ⟨hcontext, hview⟩ := hany kernel l l' appId hpre hidle happ hload
  have hlow : ∀ virtualAddress : UInt64, virtualAddress.toNat < 2 ^ 40 → Canonical virtualAddress :=
    fun va hva => Or.inl (by omega)
  refine ⟨?_, ?_, ?_, hcontext, ?_⟩
  · intro va hva
    rw [hview va hva]
    exact startView_ne_none_iff
  · intro s hs va hin
    have hbounds := segment_bounds helf hs
    have hend := hin.2
    rw [hview va (hlow va (by omega)), startView_segment helf hs hin]
  · intro va hin
    have hrange := hin
    rw [inStack_iff, inSurface_iff] at hrange
    rw [hview va (hlow va (by omega)), startView_blank helf hin]
  · intro kernel₂ l₂ l₂' appId₂ hpre₂ hidle₂ happ₂ hnx hload₂
    obtain ⟨hcontext₂, hview₂⟩ := hany kernel₂ l₂ l₂' appId₂ hpre₂ hidle₂ happ₂ hload₂
    refine ⟨hcontext₂.trans hcontext.symm, fun va hva => ?_⟩
    rw [hview₂ va hva, hview va hva, hnx]

/-- The one-page image on the sample machine: the byte at the entry point is the first of the
    file, the byte behind the file is zero. -/
theorem load_realises_image_onePage :
    ∃ l', loadElfApp sampleKernel sampleLoading 1 1 onePageImage = .ok (l', true) ∧
      userView l'.phys.mem l'.process.addressSpace 0x8000001000 = some ⟨0x7F, false, true⟩ ∧
      userView l'.phys.mem l'.process.addressSpace 0x80000010B0 = some ⟨0, false, true⟩ ∧
      l'.process.context = startContext 0x8000001000 1 := by
  obtain ⟨⟨l', done⟩, hload, hdone⟩ := ok_of_toOption_any (p := fun r => r.2)
    (show (loadElfApp sampleKernel sampleLoading 1 1 onePageImage).toOption.any _ = true by
      decide +kernel)
  change done = true at hdone
  rw [hdone] at hload
  have h := load_realises_image sampleKernel sampleLoading l' 1 1 onePageImage _
    sampleMachine_loadPre idle_zero (by decide) validate_onePageImage hload
  refine ⟨l', hload, ?_, ?_, h.2.2.2.1⟩
  · rw [h.2.1 _ (List.mem_singleton_self _) _ (by decide)]
    decide +kernel
  · rw [h.2.1 _ (List.mem_singleton_self _) _ (by decide)]
    decide +kernel

end ArgusOs.Runtime
