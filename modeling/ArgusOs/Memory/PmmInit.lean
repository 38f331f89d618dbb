/-
  The page allocator over whole runs: `pmm_init`, `pmm_validate` and what holds after any
  sequence of calls.

  `pmm_init` marks the conventional memory of the final memory map usable and then reserves
  the low megabyte and every live allocation of the handoff. The size of the bitmaps comes
  from `boot.c`: the page count is `highest_tracked_page` of an earlier memory map and each
  bitmap has a bit for every page (`Prepared`).

  The invariant is `Counted`: both counters are what a count of the bits gives. It is kept by
  single pages while `pmm_init` runs and by runs of pages afterwards. Page 0 is reserved first
  and stays so.
-/
import ArgusOs.Lib.Slots
import ArgusOs.Memory.Pmm

namespace ArgusOs.Memory

open Lib

variable {initial pmm : Pmm} {count page q start : Nat}

/-! ## The handoff -/

structure PhysicalRange where
  base : UInt64
  size : UInt64

/-- The fields of `EFI_MEMORY_DESCRIPTOR` that are read. -/
structure MemoryDescriptor where
  type : UInt32
  physicalStart : UInt64
  numberOfPages : UInt64

def efiLoaderCode : UInt32 := 1
def efiConventionalMemory : UInt32 := 7
def efiUnusableMemory : UInt32 := 8
def efiAcpiMemoryNvs : UInt32 := 10
def efiPersistentMemory : UInt32 := 14

def argusBootInfoMagic : UInt64 := 0x4152475553424F4F

/-- The fields of `boot_info_t` that the allocator reads; `memoryMap` are the descriptors the
    walk over the buffer visits. -/
structure BootInfo where
  magic : UInt64
  bootServicesExited : UInt32
  memoryMapBuffer : UInt64
  descriptorSize : UInt64
  memoryMap : List MemoryDescriptor
  framebuffer : PhysicalRange
  acpiRsdp : UInt64
  kernelImage : PhysicalRange
  bootInfoStorage : PhysicalRange
  kernelStack : PhysicalRange
  pmmBitmapStorage : PhysicalRange
  memoryMapStorage : PhysicalRange
  pmmPageCount : UInt64
  pmmBitmapBytes : UInt64

def memoryTypeNeedsTracking (type : UInt32) : Bool :=
  (efiLoaderCode ≤ type ∧ type ≤ efiAcpiMemoryNvs ∧ type ≠ efiUnusableMemory) ∨
    type = efiPersistentMemory

def highestTrackedPage (map : List MemoryDescriptor) : UInt64 :=
  map.foldl (fun highest descriptor =>
    if memoryTypeNeedsTracking descriptor.type ∧
        descriptor.numberOfPages ≤ (0xFFFFFFFFFFFFFFFF - descriptor.physicalStart) / 4096 then
      let rangeEnd := descriptor.physicalStart + descriptor.numberOfPages * 4096
      let endPage := rangeEnd / 4096
      if endPage > highest then endPage else highest
    else highest) 0

/-- What `prepare_allocations` stores for the allocator, given an earlier memory map. -/
structure Prepared (boot : BootInfo) (preliminaryMap : List MemoryDescriptor) : Prop where
  page_count : boot.pmmPageCount = highestTrackedPage preliminaryMap
  bitmap_bytes : boot.pmmBitmapBytes = (boot.pmmPageCount + 7) / 8

theorem div_4096_lt (w : UInt64) : (w / 4096).toNat < 2 ^ 52 := by
  have := w.toNat_lt
  rw [UInt64.toNat_div, show (4096 : UInt64).toNat = 4096 from rfl]
  omega

theorem highestTrackedPage_lt (map : List MemoryDescriptor) :
    (highestTrackedPage map).toNat < 2 ^ 52 := by
  refine List.foldlRecOn (motive := fun highest : UInt64 => highest.toNat < 2 ^ 52) map _
    (by decide) ?_
  intro highest h descriptor _
  split
  · dsimp only
    split
    · exact div_4096_lt _
    · exact h
  · exact h

/-! ## Initialisation -/

variable (pmm)

def makeUsable (page : Nat) : Pmm :=
  if page ≥ pmm.pageCount ∨ bitGet pmm.usableBitmap page then pmm
  else
    { pmm with
      usableBitmap := bitSet pmm.usableBitmap page
      usedBitmap := bitClear pmm.usedBitmap page
      managedCount := pmm.managedCount + 1
      freeCount := pmm.freeCount + 1 }

def reservePage (page : Nat) : Pmm :=
  if page ≥ pmm.pageCount ∨ !bitGet pmm.usableBitmap page then pmm
  else
    { pmm with
      usableBitmap := bitClear pmm.usableBitmap page
      usedBitmap := bitSet pmm.usedBitmap page
      freeCount := if !bitGet pmm.usedBitmap page then pmm.freeCount - 1 else pmm.freeCount
      managedCount := pmm.managedCount - 1 }

/-- The last byte of a range, cut off at the end of the address space. -/
def lastByte (range : PhysicalRange) : UInt64 :=
  if range.size - 1 > 0xFFFFFFFFFFFFFFFF - range.base then 0xFFFFFFFFFFFFFFFF
  else range.base + range.size - 1

/-- The pages of a range that the bitmaps cover. -/
def rangePages (pageCount : Nat) (range : PhysicalRange) : List Nat :=
  let start := (range.base / 4096).toNat
  let stop := min (lastByte range / 4096 + 1).toNat pageCount
  List.range' start (stop - start)

def reserveRange (range : PhysicalRange) : Pmm :=
  if range.size = 0 ∨ range.base ≥ UInt64.ofNat pmm.pageCount * 4096 then pmm
  else (rangePages pmm.pageCount range).foldl reservePage pmm

/-- The pages of a descriptor that the bitmaps cover. -/
def descriptorPages (pageCount : Nat) (descriptor : MemoryDescriptor) : List Nat :=
  let first := (descriptor.physicalStart / 4096).toNat
  let count := descriptor.numberOfPages.toNat
  if first < pageCount then List.range' first (min count (pageCount - first)) else []

def addDescriptor (descriptor : MemoryDescriptor) : Pmm :=
  if descriptor.type = efiConventionalMemory then
    (descriptorPages pmm.pageCount descriptor).foldl makeUsable pmm
  else pmm

/-- The ranges reserved, in order. -/
def reservedRanges (boot : BootInfo) : List PhysicalRange :=
  [⟨0, 0x100000⟩, boot.kernelImage, boot.bootInfoStorage, boot.kernelStack, boot.pmmBitmapStorage,
    boot.memoryMapStorage, boot.framebuffer] ++
  (if boot.acpiRsdp = 0 then [] else [⟨boot.acpiRsdp, 4096⟩])

/-- Both bitmaps cleared: nothing usable, everything used. -/
def clearedPmm (boot : BootInfo) (storage : Bitmap) : Pmm where
  usableBitmap := fun i => if i < boot.pmmBitmapBytes.toNat then 0 else storage i
  usedBitmap := fun i => if i < boot.pmmBitmapBytes.toNat then 0xFF
    else storage (boot.pmmBitmapBytes.toNat + i)
  pageCount := boot.pmmPageCount.toNat
  managedCount := 0
  freeCount := 0

/-- `pmm_init` over the allocator as it was and the bytes found at `pmm_bitmap_storage.base`. -/
def pmmInit (storage : Bitmap) (boot : Option BootInfo) : Pmm × Bool :=
  match boot with
  | none => (pmm, false)
  | some boot =>
    if boot.magic ≠ argusBootInfoMagic ∨ boot.bootServicesExited = 0 ∨ boot.memoryMapBuffer = 0 ∨
        boot.descriptorSize = 0 ∨ boot.pmmPageCount = 0 ∨ boot.pmmBitmapStorage.base = 0 ∨
        boot.pmmBitmapBytes = 0 then (pmm, false)
    else
      let pmm := boot.memoryMap.foldl addDescriptor (clearedPmm boot storage)
      let pmm := (reservedRanges boot).foldl reserveRange pmm
      (pmm, pmm.managedCount ≠ 0)

/-- The two counters of the loop in `pmm_validate`. -/
def countPages : Nat × Nat :=
  (List.range pmm.pageCount).foldl (fun counted page =>
    if !bitGet pmm.usableBitmap page then counted
    else (counted.1 + 1, if !bitGet pmm.usedBitmap page then counted.2 + 1 else counted.2)) (0, 0)

def pmmValidate : Bool :=
  (countPages pmm).1 = pmm.managedCount ∧ (countPages pmm).2 = pmm.freeCount ∧
    pmm.freeCount ≤ pmm.managedCount

/-! ## The counting invariant -/

/-- The counters count the bits. -/
structure Counted (pmm : Pmm) : Prop where
  managed : pmm.managedCount = countBelow pmm.isUsable pmm.pageCount
  free : pmm.freeCount = countBelow pmm.isFree pmm.pageCount

theorem countPages_eq :
    countPages pmm =
      (countBelow pmm.isUsable pmm.pageCount, countBelow pmm.isFree pmm.pageCount) := by
  have hfold : ∀ (pages : List Nat) (a b : Nat),
      pages.foldl (fun counted page =>
        if !bitGet pmm.usableBitmap page then counted
        else (counted.1 + 1, if !bitGet pmm.usedBitmap page then counted.2 + 1
          else counted.2)) (a, b)
      = (a + pages.countP pmm.isUsable, b + pages.countP pmm.isFree) := by
    intro pages
    induction pages with
    | nil => simp
    | cons page rest ih =>
      intro a b
      rw [List.foldl_cons, List.countP_cons, List.countP_cons]
      have hfree : pmm.isFree page =
          (bitGet pmm.usableBitmap page && !bitGet pmm.usedBitmap page) := rfl
      have husable : pmm.isUsable page = bitGet pmm.usableBitmap page := rfl
      rw [hfree, husable]
      cases bitGet pmm.usableBitmap page with
      | false => exact (ih a b).trans (by simp)
      | true =>
        cases bitGet pmm.usedBitmap page with
        | false => exact (ih (a + 1) (b + 1)).trans (by simp; omega)
        | true => exact (ih (a + 1) b).trans (by simp; omega)
  have h := hfold (List.range pmm.pageCount) 0 0
  rw [Nat.zero_add, Nat.zero_add] at h
  exact h

theorem countBelow_isFree_le :
    countBelow pmm.isFree pmm.pageCount ≤ countBelow pmm.isUsable pmm.pageCount := by
  unfold countBelow
  apply List.countP_mono_left
  intro page _ h
  rw [Pmm.isFree, Bool.and_eq_true] at h
  exact h.1

variable {pmm}

theorem Counted.validate (h : Counted pmm) : pmmValidate pmm = true := by
  have hle := countBelow_isFree_le pmm
  simp [pmmValidate, countPages_eq, h.managed, h.free, hle]

theorem countBelow_add_one {p q : Nat → Bool} {n : Nat} (hlt : page < n) (hp : p page = false)
    (hq : q page = true) (hout : ∀ i, i ≠ page → q i = p i) :
    countBelow q n = countBelow p n + 1 := by
  have hle : page + 1 ≤ n := hlt
  apply countBelow_run hle
  · intro i h1 h2
    rw [show i = page by omega]
    exact ⟨hp, hq⟩
  · intro i hi
    exact hout i (by omega)

theorem makeUsable_pageCount (pmm : Pmm) (page : Nat) :
    (makeUsable pmm page).pageCount = pmm.pageCount := by
  unfold makeUsable
  split <;> rfl

theorem reservePage_pageCount (pmm : Pmm) (page : Nat) :
    (reservePage pmm page).pageCount = pmm.pageCount := by
  unfold reservePage
  split <;> rfl

theorem Counted.makeUsable (h : Counted pmm) (page : Nat) : Counted (makeUsable pmm page) := by
  unfold Memory.makeUsable
  split
  · exact h
  · next hc =>
    rw [not_or, Bool.not_eq_true] at hc
    obtain ⟨hlt, hu⟩ := hc
    refine ⟨?_, ?_⟩
    · rw [h.managed]
      symm
      apply countBelow_add_one (Nat.lt_of_not_le hlt) hu
      · simp [Pmm.isUsable, bitGet_bitSet]
      · intro i hi
        simp [Pmm.isUsable, bitGet_bitSet, hi]
    · rw [h.free]
      symm
      apply countBelow_add_one (Nat.lt_of_not_le hlt)
      · simp [Pmm.isFree, Pmm.isUsable, hu]
      · simp [Pmm.isFree, Pmm.isUsable, Pmm.isUsed, bitGet_bitSet, bitGet_bitClear]
      · intro i hi
        simp [Pmm.isFree, Pmm.isUsable, Pmm.isUsed, bitGet_bitSet, bitGet_bitClear, hi]

theorem Counted.reservePage (h : Counted pmm) (page : Nat) : Counted (reservePage pmm page) := by
  unfold Memory.reservePage
  split
  · exact h
  · next hc =>
    rw [not_or] at hc
    obtain ⟨hlt, hu⟩ := hc
    have hu : bitGet pmm.usableBitmap page = true := by simpa using hu
    refine ⟨?_, ?_⟩
    · -- counted the other way round: the old bits have one page more
      have hadd := countBelow_add_one (p := bitGet (bitClear pmm.usableBitmap page))
        (q := pmm.isUsable) (Nat.lt_of_not_le hlt)
        (by simp [bitGet_bitClear]) hu
        (fun i hi => by simp [Pmm.isUsable, bitGet_bitClear, hi])
      show pmm.managedCount - 1 = countBelow (bitGet (bitClear pmm.usableBitmap page)) pmm.pageCount
      rw [h.managed, hadd]
      omega
    · cases hd : bitGet pmm.usedBitmap page with
      | true =>
        simp only [Bool.not_true, Bool.false_eq_true, if_false]
        rw [h.free]
        apply countBelow_congr
        intro i _
        by_cases hi : i = page
        · simp [Pmm.isFree, Pmm.isUsable, Pmm.isUsed, bitGet_bitClear, hi, hd]
        · simp [Pmm.isFree, Pmm.isUsable, Pmm.isUsed, bitGet_bitSet, bitGet_bitClear, hi]
      | false =>
        simp only [Bool.not_false, if_true]
        have hadd := countBelow_add_one
          (p := fun i => bitGet (bitClear pmm.usableBitmap page) i &&
            !bitGet (bitSet pmm.usedBitmap page) i)
          (q := pmm.isFree) (Nat.lt_of_not_le hlt)
          (by simp [bitGet_bitClear]) (by simp [Pmm.isFree, Pmm.isUsable, Pmm.isUsed, hu, hd])
          (fun i hi => by
            simp [Pmm.isFree, Pmm.isUsable, Pmm.isUsed, bitGet_bitSet, bitGet_bitClear, hi])
        show pmm.freeCount - 1 = countBelow (fun i => bitGet (bitClear pmm.usableBitmap page) i &&
            !bitGet (bitSet pmm.usedBitmap page) i) pmm.pageCount
        rw [h.free, hadd]
        omega

theorem foldl_pageCount {α : Type} {step : Pmm → α → Pmm}
    (hstep : ∀ pmm a, (step pmm a).pageCount = pmm.pageCount) (pmm : Pmm) (items : List α) :
    (items.foldl step pmm).pageCount = pmm.pageCount := by
  induction items generalizing pmm with
  | nil => rfl
  | cons a rest ih => rw [List.foldl_cons, ih, hstep]

theorem addDescriptor_pageCount (pmm : Pmm) (descriptor : MemoryDescriptor) :
    (addDescriptor pmm descriptor).pageCount = pmm.pageCount := by
  unfold addDescriptor
  split
  · exact foldl_pageCount makeUsable_pageCount _ _
  · rfl

theorem reserveRange_pageCount (pmm : Pmm) (range : PhysicalRange) :
    (reserveRange pmm range).pageCount = pmm.pageCount := by
  unfold reserveRange
  split
  · rfl
  · exact foldl_pageCount reservePage_pageCount _ _

/-- What every `make_usable` keeps, reading the memory map keeps. -/
theorem foldl_addDescriptor_induct {P : Pmm → Prop}
    (hstep : ∀ {pmm} page, P pmm → P (makeUsable pmm page)) (h : P pmm)
    (map : List MemoryDescriptor) : P (map.foldl addDescriptor pmm) := by
  refine List.foldlRecOn _ _ h fun pmm hp descriptor _ => ?_
  unfold addDescriptor
  split
  · exact List.foldlRecOn _ _ hp fun _ hp page _ => hstep page hp
  · exact hp

/-- What every `reserve_page` keeps, reserving the ranges keeps. -/
theorem foldl_reserveRange_induct {P : Pmm → Prop}
    (hstep : ∀ {pmm} page, P pmm → P (reservePage pmm page)) (h : P pmm)
    (ranges : List PhysicalRange) : P (ranges.foldl reserveRange pmm) := by
  refine List.foldlRecOn _ _ h fun pmm hp range _ => ?_
  unfold reserveRange
  split
  · exact hp
  · exact List.foldlRecOn _ _ hp fun _ hp page _ => hstep page hp

/-! ## Page 0 -/

theorem reservePage_keeps (page : Nat) (h : pmm.isUsable q = false) :
    (reservePage pmm page).isUsable q = false := by
  unfold reservePage
  split
  · exact h
  · have hq : bitGet pmm.usableBitmap q = false := h
    simp [Pmm.isUsable, bitGet_bitClear, hq]

theorem reservePage_self (hlt : page < pmm.pageCount) :
    (reservePage pmm page).isUsable page = false := by
  unfold reservePage
  split
  · next h =>
    rcases h with h | h
    · omega
    · simpa [Pmm.isUsable] using h
  · simp [Pmm.isUsable, bitGet_bitClear]

/-- Reserving low memory reserves page 0. -/
theorem reserveRange_low (hpos : 0 < pmm.pageCount) (hlt : pmm.pageCount < 2 ^ 52) :
    (reserveRange pmm ⟨0, 0x100000⟩).isUsable 0 = false := by
  have hbase : ¬ ((0x100000 : UInt64) = 0 ∨ (0 : UInt64) ≥ UInt64.ofNat pmm.pageCount * 4096) := by
    rw [not_or]
    refine ⟨by decide, ?_⟩
    rw [ge_iff_le, UInt64.le_iff_toNat_le, UInt64.toNat_mul, UInt64.toNat_ofNat',
      show (4096 : UInt64).toNat = 4096 from rfl, show (0 : UInt64).toNat = 0 from rfl]
    omega
  have hstop : (lastByte ⟨0, 0x100000⟩ / 4096 + 1).toNat = 256 := by decide
  unfold reserveRange rangePages
  rw [if_neg hbase]
  dsimp only
  rw [hstop, show ((0 : UInt64) / 4096).toNat = 0 from rfl, Nat.sub_zero]
  obtain ⟨n, hn⟩ : ∃ n, min 256 pmm.pageCount = n + 1 := ⟨min 256 pmm.pageCount - 1, by omega⟩
  rw [hn, List.range'_succ, List.foldl_cons]
  exact List.foldlRecOn (motive := fun pmm : Pmm => pmm.isUsable 0 = false) _ _
    (reservePage_self hpos) fun _ hp page _ => reservePage_keeps page hp

/-! ## A run of the allocator -/

inductive PmmCall where
  | allocPage
  | allocPages (count : UInt64)
  | freePage (address : UInt64)
  | releasePages (address count : UInt64)

def pmmStep (pmm : Pmm) : PmmCall → Pmm
  | .allocPage => (pmmAllocPage pmm).1
  | .allocPages count => (pmmAllocPages pmm count.toNat).1
  | .freePage address => (pmmFreePage pmm address).1
  | .releasePages address count => (pmmReleasePages pmm address count.toNat).1

def pmmRun (pmm : Pmm) (calls : List PmmCall) : Pmm := calls.foldl pmmStep pmm

/-- The state between calls, with the usable pages and the size it started with. -/
structure Between (initial pmm : Pmm) : Prop where
  counted : Counted pmm
  usable : pmm.usableBitmap = initial.usableBitmap
  page_count : pmm.pageCount = initial.pageCount
  managed : pmm.managedCount = initial.managedCount

theorem countBelow_take (hle : start + count ≤ pmm.pageCount)
    (hrun : FreeRun pmm.isFree start count) :
    countBelow pmm.isFree pmm.pageCount =
      countBelow (pmm.take start count).isFree pmm.pageCount + count := by
  apply countBelow_run hle
  · intro i h1 h2
    refine ⟨?_, hrun i h1 h2⟩
    simp [Pmm.isFree, Pmm.take_isUsed, List.mem_range'_1, h1, h2]
  · intro i hi
    simp [Pmm.isFree, Pmm.take_isUsed, List.mem_range'_1, hi]

theorem Counted.take (h : Counted pmm) (hle : start + count ≤ pmm.pageCount)
    (hrun : FreeRun pmm.isFree start count) : Counted (pmm.take start count) := by
  refine ⟨h.managed, ?_⟩
  rw [Pmm.take_freeCount, Pmm.take_pageCount, h.free, countBelow_take hle hrun]
  omega

/-- The first test of `pmm_alloc_pages` refuses no run there is. -/
theorem Counted.run_le (h : Counted pmm) (hle : start + count ≤ pmm.pageCount)
    (hrun : FreeRun pmm.isFree start count) : count ≤ pmm.freeCount := by
  rw [h.free, countBelow_take hle hrun]
  omega

theorem Counted.give (h : Counted pmm) (hle : start + count ≤ pmm.pageCount)
    (hrun : ∀ page, start ≤ page → page < start + count →
      pmm.isUsable page = true ∧ pmm.isUsed page = true) : Counted (pmm.give start count) := by
  refine ⟨h.managed, ?_⟩
  rw [Pmm.give_freeCount, Pmm.give_pageCount, h.free]
  symm
  apply countBelow_run hle
  · intro i h1 h2
    obtain ⟨hu, hd⟩ := hrun i h1 h2
    simp [Pmm.isFree, Pmm.give_isUsed, List.mem_range'_1, h1, h2, hu, hd]
  · intro i hi
    simp [Pmm.isFree, Pmm.give_isUsed, List.mem_range'_1, hi]

/-- A release gives a run of used pages back, or it refuses and says why. -/
theorem pmmReleasePages_cases (pmm : Pmm) (address : UInt64) (count : Nat) :
    (pmmReleasePages pmm address count = (pmm, false) ∧
      (address.toNat % argusPageSize ≠ 0 ∨ count = 0 ∨
        frameOf address + count > pmm.pageCount ∨
        ∃ page, frameOf address ≤ page ∧ page < frameOf address + count ∧
          (pmm.isUsable page = false ∨ pmm.isUsed page = false))) ∨
    (pmmReleasePages pmm address count = (pmm.give (frameOf address) count, true) ∧
      address.toNat % argusPageSize = 0 ∧ count ≠ 0 ∧
      frameOf address + count ≤ pmm.pageCount ∧
      ∀ page, frameOf address ≤ page → page < frameOf address + count →
        pmm.isUsable page = true ∧ pmm.isUsed page = true) := by
  have hmask : address &&& 4095 = 0 ↔ address.toNat % argusPageSize = 0 := by
    rw [← UInt64.toNat_inj, UInt64.toNat_and, show (4095 : UInt64).toNat = 2 ^ 12 - 1 from rfl,
      Nat.and_two_pow_sub_one_eq_mod]
    rfl
  unfold pmmReleasePages
  by_cases ha : address &&& 4095 = 0
  · rw [if_neg (not_not.mpr ha)]
    rw [hmask] at ha
    dsimp only
    change _ ∨ _
    split
    · next hr =>
      left
      refine ⟨rfl, ?_⟩
      rcases hr with hr | hr | hr
      · exact Or.inr (Or.inl hr)
      · by_cases h0 : count = 0
        · exact Or.inr (Or.inl h0)
        · refine Or.inr (Or.inr (Or.inl ?_))
          show address.toNat / argusPageSize + count > _
          omega
      · refine Or.inr (Or.inr (Or.inl ?_))
        show address.toNat / argusPageSize + count > _
        omega
    · next hr =>
      rw [not_or, not_or] at hr
      have hle : frameOf address + count ≤ pmm.pageCount := by
        show address.toNat / argusPageSize + count ≤ _
        omega
      split
      · next hany =>
        left
        refine ⟨rfl, Or.inr (Or.inr (Or.inr ?_))⟩
        rw [List.any_eq_true] at hany
        obtain ⟨page, hmem, hbad⟩ := hany
        rw [List.mem_range'_1] at hmem
        exact ⟨page, hmem.1, hmem.2, by simpa using hbad⟩
      · next hany =>
        right
        refine ⟨rfl, ha, hr.1, hle, ?_⟩
        intro page h1 h2
        by_contra hbad
        apply hany
        rw [List.any_eq_true]
        refine ⟨page, List.mem_range'_1.mpr ⟨h1, h2⟩, ?_⟩
        cases hu : pmm.isUsable page <;> cases hd : pmm.isUsed page <;> simp_all
  · rw [if_pos ha]
    left
    exact ⟨rfl, Or.inl fun h => ha (hmask.mpr h)⟩

theorem Between.allocPages (h : Between initial pmm) (count : Nat) :
    Between initial (pmmAllocPages pmm count).1 := by
  rcases pmmAllocPages_cases pmm count with ⟨heq, _⟩ | ⟨_, _, start, hle, hrun, _, heq⟩
  · rw [heq]
    exact h
  · rw [heq]
    exact ⟨h.counted.take hle hrun, h.usable, h.page_count, h.managed⟩

theorem Between.releasePages (h : Between initial pmm) (address : UInt64) (count : Nat) :
    Between initial (pmmReleasePages pmm address count).1 := by
  rcases pmmReleasePages_cases pmm address count with ⟨heq, _⟩ | ⟨heq, _, _, hle, hrun⟩
  · rw [heq]
    exact h
  · rw [heq]
    exact ⟨h.counted.give hle hrun, h.usable, h.page_count, h.managed⟩

theorem Between.step (h : Between initial pmm) (call : PmmCall) :
    Between initial (pmmStep pmm call) := by
  cases call with
  | allocPage => exact h.allocPages 1
  | allocPages count => exact h.allocPages count.toNat
  | freePage address => exact h.releasePages address 1
  | releasePages address count => exact h.releasePages address count.toNat

theorem Between.run (h : Between initial pmm) (calls : List PmmCall) :
    Between initial (pmmRun pmm calls) := by
  induction calls generalizing pmm with
  | nil => exact h
  | cons call rest ih => exact ih (h.step call)

/-! ## The state `pmm_init` leaves -/

/-- The allocator as the kernel gets it. -/
structure Initialised (pmm : Pmm) : Prop where
  counted : Counted pmm
  zero_reserved : pmm.isUsable 0 = false
  page_count : pmm.pageCount < 2 ^ 52

theorem Initialised.between (h : Initialised initial) (calls : List PmmCall) :
    Between initial (pmmRun initial calls) :=
  Between.run ⟨h.counted, rfl, rfl, rfl⟩ calls

/-- No run of calls changes what `pmm_init` has established. -/
theorem Initialised.run (h : Initialised initial) (calls : List PmmCall) :
    Initialised (pmmRun initial calls) := by
  have hrun := h.between calls
  refine ⟨hrun.counted, ?_, ?_⟩
  · unfold Pmm.isUsable
    rw [hrun.usable]
    exact h.zero_reserved
  · rw [hrun.page_count]
    exact h.page_count

theorem clearedPmm_counted {boot : BootInfo} (storage : Bitmap)
    (hbytes : boot.pmmPageCount.toNat ≤ 8 * boot.pmmBitmapBytes.toNat) :
    Counted (clearedPmm boot storage) := by
  have hclear : ∀ page, page < boot.pmmPageCount.toNat →
      (clearedPmm boot storage).isUsable page = false := by
    intro page hlt
    have hbyte : page / 8 < boot.pmmBitmapBytes.toNat := by omega
    simp [Pmm.isUsable, clearedPmm, bitGet_eq_testBit, hbyte]
  refine ⟨(countBelow_eq_zero hclear).symm, ?_⟩
  symm
  apply countBelow_eq_zero
  intro page hlt
  simp [Pmm.isFree, hclear page hlt]

theorem loops_counted {boot : BootInfo} (storage : Bitmap)
    (hbytes : boot.pmmPageCount.toNat ≤ 8 * boot.pmmBitmapBytes.toNat) :
    Counted ((reservedRanges boot).foldl reserveRange
      (boot.memoryMap.foldl addDescriptor (clearedPmm boot storage))) :=
  foldl_reserveRange_induct (fun page hp => hp.reservePage page)
    (foldl_addDescriptor_induct (fun page hp => hp.makeUsable page)
      (clearedPmm_counted storage hbytes) _) _

theorem pmmInit_initialised {old : Pmm} {storage : Bitmap} {boot : BootInfo}
    {preliminaryMap : List MemoryDescriptor} (hprep : Prepared boot preliminaryMap)
    (hinit : (pmmInit old storage (some boot)).2 = true) :
    Initialised (pmmInit old storage (some boot)).1 := by
  have hlt : boot.pmmPageCount.toNat < 2 ^ 52 := by
    rw [hprep.page_count]
    exact highestTrackedPage_lt preliminaryMap
  have hbytes : boot.pmmPageCount.toNat ≤ 8 * boot.pmmBitmapBytes.toNat := by
    rw [hprep.bitmap_bytes, UInt64.toNat_div, UInt64.toNat_add,
      show (7 : UInt64).toNat = 7 from rfl, show (8 : UInt64).toNat = 8 from rfl]
    omega
  unfold pmmInit at hinit ⊢
  dsimp only at hinit ⊢
  split at hinit
  · cases hinit
  · next hc =>
    rw [if_neg hc]
    have hpos : 0 < boot.pmmPageCount.toNat := by
      have hne : boot.pmmPageCount ≠ 0 := fun h0 => hc (by simp [h0])
      rw [Ne, ← UInt64.toNat_inj] at hne
      exact Nat.pos_of_ne_zero hne
    have hcount : (boot.memoryMap.foldl addDescriptor (clearedPmm boot storage)).pageCount =
        boot.pmmPageCount.toNat := foldl_pageCount addDescriptor_pageCount _ _
    refine ⟨?_, ?_, ?_⟩
    · exact loops_counted storage hbytes
    · -- the first range reserved is low memory; the others take nothing back
      exact foldl_reserveRange_induct (P := fun pmm => pmm.isUsable 0 = false) reservePage_keeps
        (reserveRange_low (by omega) (by omega)) _
    · rw [foldl_pageCount reserveRange_pageCount, hcount]
      exact hlt

/-! ## What calls do, in every state of a run -/

/-- A failed allocation answers 0 and changes nothing; one that succeeds answers the address of
    a run of usable unused pages, none of them page 0, and marks exactly that run. -/
def AllocOutcome (pmm : Pmm) (count : Nat) (pmm' : Pmm) (address : UInt64) : Prop :=
  (address = 0 ∧ pmm' = pmm) ∨
  (address ≠ 0 ∧ count ≠ 0 ∧ ∃ start, address.toNat = start * argusPageSize ∧
    start + count ≤ pmm.pageCount ∧
    (∀ page, start ≤ page → page < start + count →
      page ≠ 0 ∧ pmm.isUsable page = true ∧ pmm.isUsed page = false) ∧
    (∀ page, pmm'.isUsed page =
      (pmm.isUsed page || decide (start ≤ page ∧ page < start + count))) ∧
    pmm'.usableBitmap = pmm.usableBitmap ∧ pmm'.pageCount = pmm.pageCount ∧
    pmm'.managedCount = pmm.managedCount ∧ pmm'.freeCount + count = pmm.freeCount)

/-- A run of pages that may be released. -/
def Releasable (pmm : Pmm) (address : UInt64) (count : Nat) : Prop :=
  address.toNat % argusPageSize = 0 ∧ count ≠ 0 ∧
    address.toNat / argusPageSize + count ≤ pmm.pageCount ∧
    ∀ page, address.toNat / argusPageSize ≤ page → page < address.toNat / argusPageSize + count →
      pmm.isUsable page = true ∧ pmm.isUsed page = true

/-- A release frees exactly its run, or it refuses and changes nothing. -/
def ReleaseOutcome (pmm : Pmm) (address : UInt64) (count : Nat) (pmm' : Pmm) (done : Bool) : Prop :=
  (done = true ↔ Releasable pmm address count) ∧
  (done = false → pmm' = pmm) ∧
  (done = true →
    (∀ page, pmm'.isUsed page = (pmm.isUsed page && !decide (address.toNat / argusPageSize ≤ page ∧
      page < address.toNat / argusPageSize + count))) ∧
    pmm'.usableBitmap = pmm.usableBitmap ∧ pmm'.pageCount = pmm.pageCount ∧
    pmm'.managedCount = pmm.managedCount ∧ pmm'.freeCount = pmm.freeCount + count)

theorem pmmAllocPages_outcome (hzero : pmm.isUsable 0 = false) (hlt : pmm.pageCount < 2 ^ 52)
    (count : Nat) :
    AllocOutcome pmm count (pmmAllocPages pmm count).1 (pmmAllocPages pmm count).2 := by
  rcases pmmAllocPages_cases pmm count with ⟨heq, _⟩ | ⟨h0, hfree, start, hle, hrun, _, heq⟩
  · rw [heq]
    exact Or.inl ⟨rfl, rfl⟩
  · right
    have hpages : ∀ page, start ≤ page → page < start + count →
        page ≠ 0 ∧ pmm.isUsable page = true ∧ pmm.isUsed page = false := by
      intro page h1 h2
      obtain ⟨hu, hd⟩ := hrun.free_of_mem (List.mem_range'_1.mpr ⟨h1, h2⟩)
      refine ⟨?_, hu, hd⟩
      intro hz
      rw [hz, hzero] at hu
      cases hu
    have haddr := page_address_toNat hlt.le (show start < pmm.pageCount by omega)
    rw [heq]
    refine ⟨hrun.address_ne_zero h0 hzero haddr, h0, start, haddr, hle, hpages, ?_, rfl, rfl, rfl,
      ?_⟩
    · intro page
      simp [Pmm.take_isUsed, List.mem_range'_1]
    · rw [Pmm.take_freeCount]
      omega

theorem pmmReleasePages_outcome (pmm : Pmm) (address : UInt64) (count : Nat) :
    ReleaseOutcome pmm address count (pmmReleasePages pmm address count).1
      (pmmReleasePages pmm address count).2 := by
  rcases pmmReleasePages_cases pmm address count with ⟨heq, hbad⟩ | ⟨heq, ha, h0, hle, hrun⟩
  · rw [heq]
    refine ⟨?_, fun _ => rfl, fun h => by cases h⟩
    constructor
    · intro h
      cases h
    · rintro ⟨ha, h0, hle, hrun⟩
      rcases hbad with hbad | hbad | hbad | ⟨page, h1, h2, hbad⟩
      · exact absurd ha hbad
      · exact absurd hbad h0
      · unfold frameOf at hbad
        omega
      · obtain ⟨hu, hd⟩ := hrun page h1 h2
        rw [hu, hd] at hbad
        rcases hbad with hbad | hbad <;> cases hbad
  · rw [heq]
    refine ⟨⟨fun _ => ⟨ha, h0, hle, hrun⟩, fun _ => rfl⟩, ?_, ?_⟩
    · intro h
      cases h
    intro _
    refine ⟨?_, rfl, rfl, rfl, rfl⟩
    intro page
    rw [Pmm.give_isUsed]
    simp only [List.mem_range'_1, decide_not]
    rfl

/-- What holds of the allocator between any two calls. -/
structure PmmSound (initial pmm : Pmm) : Prop where
  managed : pmm.managedCount = countBelow pmm.isUsable pmm.pageCount
  free : pmm.freeCount = countBelow (fun page => pmm.isUsable page && !pmm.isUsed page)
    pmm.pageCount
  validate : pmmValidate pmm = true
  usable_fixed : pmm.usableBitmap = initial.usableBitmap
  alloc : ∀ count : UInt64, AllocOutcome pmm count.toNat (pmmAllocPages pmm count.toNat).1
    (pmmAllocPages pmm count.toNat).2
  alloc_page : AllocOutcome pmm 1 (pmmAllocPage pmm).1 (pmmAllocPage pmm).2
  release : ∀ address count : UInt64, ReleaseOutcome pmm address count.toNat
    (pmmReleasePages pmm address count.toNat).1 (pmmReleasePages pmm address count.toNat).2
  free_page : ∀ address : UInt64, ReleaseOutcome pmm address 1 (pmmFreePage pmm address).1
    (pmmFreePage pmm address).2
  restore : ∀ count : UInt64, (pmmAllocPages pmm count.toNat).2 ≠ 0 →
    pmmReleasePages (pmmAllocPages pmm count.toNat).1 (pmmAllocPages pmm count.toNat).2
      count.toNat = (pmm, true)

/-- After `pmm_init` has succeeded on what the boot code prepared, every run of calls leaves an
    allocator whose counters count its bits and whose calls do what they should. -/
theorem pmm_run_sound (old : Pmm) (storage : Bitmap) (boot : BootInfo)
    (preliminaryMap : List MemoryDescriptor) (hprep : Prepared boot preliminaryMap)
    (hinit : (pmmInit old storage (some boot)).2 = true) (calls : List PmmCall) :
    PmmSound (pmmInit old storage (some boot)).1
      (pmmRun (pmmInit old storage (some boot)).1 calls) := by
  have hready := pmmInit_initialised hprep hinit
  generalize (pmmInit old storage (some boot)).1 = initial at hready
  have hrun := hready.between calls
  have hready' := hready.run calls
  generalize pmmRun initial calls = pmm at hrun hready'
  have hzero := hready'.zero_reserved
  have hlt := hready'.page_count
  exact {
    managed := hrun.counted.managed
    free := hrun.counted.free
    validate := hrun.counted.validate
    usable_fixed := hrun.usable
    alloc := fun count => pmmAllocPages_outcome hzero hlt count.toNat
    alloc_page := pmmAllocPages_outcome hzero hlt 1
    release := fun address count => pmmReleasePages_outcome pmm address count.toNat
    free_page := fun address => pmmReleasePages_outcome pmm address 1
    restore := fun _ hne => pmmReleasePages_allocPages hlt.le hne }

/-- A machine with a single page above the low megabyte. -/
def onePageMap : List MemoryDescriptor := [⟨efiConventionalMemory, 0x100000, 1⟩]

def onePageBoot : BootInfo where
  magic := argusBootInfoMagic
  bootServicesExited := 1
  memoryMapBuffer := 0x1000
  descriptorSize := 48
  memoryMap := onePageMap
  framebuffer := ⟨0, 0⟩
  acpiRsdp := 0
  kernelImage := ⟨0x2000, 0x1000⟩
  bootInfoStorage := ⟨0x3000, 0x1000⟩
  kernelStack := ⟨0x4000, 0x11000⟩
  pmmBitmapStorage := ⟨0x20000, 0x1000⟩
  memoryMapStorage := ⟨0x1000, 0x1000⟩
  pmmPageCount := 257
  pmmBitmapBytes := 33

/-- Take the only page, fail to take another, give it back twice. -/
def onePageCalls : List PmmCall :=
  [.allocPage, .allocPages 1, .freePage 0x100000, .releasePages 0x100000 1]

abbrev onePageInit : Pmm × Bool :=
  pmmInit ⟨fun _ => 0, fun _ => 0, 0, 0, 0⟩ (fun _ => 0) (some onePageBoot)

theorem onePage_prepared : Prepared onePageBoot onePageMap ∧ onePageInit.2 = true :=
  ⟨⟨by decide, by decide⟩, by decide +kernel⟩

theorem pmm_run_sound_onePage :
    Prepared onePageBoot onePageMap ∧ onePageInit.2 = true ∧
      PmmSound onePageInit.1 (pmmRun onePageInit.1 onePageCalls) :=
  have h := onePage_prepared
  ⟨h.1, h.2, pmm_run_sound _ _ onePageBoot onePageMap h.1 h.2 onePageCalls⟩

/-! ## First fit -/

/-- The `count` pages from `start` on are managed, usable and unused. -/
def FreePages (pmm : Pmm) (start count : Nat) : Prop :=
  start + count ≤ pmm.pageCount ∧ ∀ page, start ≤ page → page < start + count →
    pmm.isUsable page = true ∧ pmm.isUsed page = false

theorem freePages_iff (pmm : Pmm) (start count : Nat) :
    FreePages pmm start count ↔ start + count ≤ pmm.pageCount ∧ FreeRun pmm.isFree start count := by
  simp [FreePages, FreeRun, Pmm.isFree]

/-- In every state a run of calls leads to, a request for pages is refused exactly when no run
    of that many free pages exists, and is otherwise answered with the lowest one; a refusal
    changes nothing. -/
theorem pmm_alloc_first_fit (old : Pmm) (storage : Bitmap) (boot : BootInfo)
    (preliminaryMap : List MemoryDescriptor) (hprep : Prepared boot preliminaryMap)
    (hinit : (pmmInit old storage (some boot)).2 = true) (calls : List PmmCall) (count : UInt64)
    (hcount : 1 ≤ count.toNat) : let pmm := pmmRun (pmmInit old storage (some boot)).1 calls
    let allocated := pmmAllocPages pmm count.toNat
    (allocated.2 = 0 ↔ ¬∃ start, FreePages pmm start count.toNat) ∧
    (allocated.2 ≠ 0 → ∃ start, allocated.2.toNat = start * argusPageSize ∧
      FreePages pmm start count.toNat ∧ ∀ start', FreePages pmm start' count.toNat →
      start ≤ start') ∧
    (allocated.2 = 0 → allocated.1 = pmm) := by
  intro pmm allocated
  have hready : Initialised pmm := (pmmInit_initialised hprep hinit).run calls
  rcases pmmAllocPages_cases pmm count.toNat with
    ⟨heq, hnone⟩ | ⟨-, -, start, hle, hrun, hlow, heq⟩
  · have hzero : allocated = (pmm, 0) := heq
    have hno : ¬∃ start, FreePages pmm start count.toNat := by
      rintro ⟨start, hpages⟩
      obtain ⟨hle, hrun⟩ := (freePages_iff pmm start _).mp hpages
      rcases hnone with hnone | hnone | hnone
      · omega
      · have := hready.counted.run_le hle hrun
        omega
      · exact hnone start hle hrun
    rw [hzero]
    exact ⟨⟨fun _ => hno, fun _ => rfl⟩, fun hne => absurd rfl hne, fun _ => rfl⟩
  · have hpages := (freePages_iff pmm start _).mpr ⟨hle, hrun⟩
    have haddr : allocated.2.toNat = start * argusPageSize := by
      rw [show allocated.2 = UInt64.ofNat (start * argusPageSize) from congrArg Prod.snd heq]
      exact page_address_toNat hready.page_count.le (by omega)
    have hne : allocated.2 ≠ 0 := hrun.address_ne_zero (by omega) hready.zero_reserved haddr
    refine ⟨⟨fun hzero => absurd hzero hne, fun hno => absurd ⟨start, hpages⟩ hno⟩, fun _ => ?_,
      fun hzero => absurd hzero hne⟩
    refine ⟨start, haddr, hpages, fun start' hpages' => ?_⟩
    by_contra hlt
    exact hlow start' (by omega) ((freePages_iff pmm start' _).mp hpages').2

/-- The only page is found, and then there is none. -/
theorem pmm_alloc_first_fit_onePage : let pmm := pmmRun onePageInit.1 [.allocPage]
    (pmmAllocPages pmm 1).2 = 0 ∧ ¬∃ start, FreePages pmm start 1 :=
  have hnone : (pmmAllocPages (pmmRun onePageInit.1 [.allocPage]) 1).2 = 0 := by decide +kernel
  ⟨hnone, (pmm_alloc_first_fit _ _ onePageBoot onePageMap onePage_prepared.1 onePage_prepared.2
    [.allocPage] 1 (by decide)).1.mp hnone⟩

end ArgusOs.Memory
