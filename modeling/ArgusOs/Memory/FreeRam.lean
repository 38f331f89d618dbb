/-
  Which pages `pmm_init` manages.

  While it runs, a page is either usable and unused or neither (`Settled`), so one bit tells.
  Adding descriptors sets it for the pages they cover, reserving ranges clears it for the pages
  they meet, and how often a page is added or reserved plays no part. What is left is a set
  difference: `FreeRam`. The counters are counts of the bits throughout (`Counted`), so they are
  the size of that set.
-/
import ArgusOs.Memory.PmmInit

namespace ArgusOs.Memory

open Lib

variable {pmm : Pmm} {page q : Nat}

/-! ## The set -/

/-- The descriptor is conventional memory and the page is one of its pages. -/
def Covers (descriptor : MemoryDescriptor) (page : Nat) : Prop :=
  descriptor.type = efiConventionalMemory ∧ descriptor.physicalStart.toNat / argusPageSize ≤ page ∧
    page < descriptor.physicalStart.toNat / argusPageSize + descriptor.numberOfPages.toNat

/-- Some byte of the range lies in the page. -/
def Meets (range : PhysicalRange) (page : Nat) : Prop :=
  ∃ byte, range.base.toNat ≤ byte ∧ byte < range.base.toNat + range.size.toNat ∧
    byte / argusPageSize = page

/-- The page is part of something that has to stay as it is. -/
def Reserved (boot : BootInfo) (page : Nat) : Prop :=
  Meets ⟨0, 0x100000⟩ page ∨ Meets boot.kernelImage page ∨ Meets boot.bootInfoStorage page ∨
    Meets boot.kernelStack page ∨ Meets boot.pmmBitmapStorage page ∨
    Meets boot.memoryMapStorage page ∨ Meets boot.framebuffer page ∨
    boot.acpiRsdp ≠ 0 ∧ Meets ⟨boot.acpiRsdp, 4096⟩ page

def FreeRam (boot : BootInfo) (page : Nat) : Prop :=
  page < boot.pmmPageCount.toNat ∧ (∃ descriptor ∈ boot.memoryMap, Covers descriptor page) ∧
    ¬ Reserved boot page

theorem meets_iff (range : PhysicalRange) (page : Nat) :
    Meets range page ↔ 0 < range.size.toNat ∧ range.base.toNat / argusPageSize ≤ page ∧
      page * argusPageSize < range.base.toNat + range.size.toNat := by
  unfold Meets argusPageSize
  constructor
  · rintro ⟨byte, h1, h2, h3⟩
    omega
  · rintro ⟨h1, h2, h3⟩
    by_cases hin : range.base.toNat ≤ page * 4096
    · exact ⟨page * 4096, hin, h3, by omega⟩
    · exact ⟨range.base.toNat, Nat.le_refl _, by omega, by omega⟩

/-! ## One page -/

/-- Every page is usable and unused, or neither. -/
def Settled (pmm : Pmm) : Prop :=
  ∀ page, page < pmm.pageCount → pmm.isUsed page = !pmm.isUsable page

theorem Settled.isFree (h : Settled pmm) (hlt : page < pmm.pageCount) :
    pmm.isFree page = pmm.isUsable page := by
  unfold Pmm.isFree
  rw [h page hlt]
  simp

theorem makeUsable_isUsable (hq : q < pmm.pageCount) :
    (makeUsable pmm page).isUsable q = true ↔ pmm.isUsable q = true ∨ q = page := by
  unfold makeUsable
  by_cases hskip : page ≥ pmm.pageCount ∨ bitGet pmm.usableBitmap page
  · rw [if_pos hskip]
    refine ⟨Or.inl, ?_⟩
    rintro (h | rfl)
    · exact h
    · exact hskip.resolve_left (Nat.not_le.mpr hq)
  · rw [if_neg hskip]
    simp [Pmm.isUsable, bitGet_bitSet]

theorem reservePage_isUsable (hq : q < pmm.pageCount) :
    (reservePage pmm page).isUsable q = true ↔ pmm.isUsable q = true ∧ q ≠ page := by
  unfold reservePage
  by_cases hskip : page ≥ pmm.pageCount ∨ !bitGet pmm.usableBitmap page
  · rw [if_pos hskip]
    refine ⟨fun h => ⟨h, ?_⟩, And.left⟩
    rintro rfl
    have hclear : pmm.isUsable q = false := by
      simpa [Pmm.isUsable] using hskip.resolve_left (Nat.not_le.mpr hq)
    rw [hclear] at h
    cases h
  · rw [if_neg hskip]
    simp [Pmm.isUsable, bitGet_bitClear]

theorem Settled.makeUsable (h : Settled pmm) (page : Nat) : Settled (makeUsable pmm page) := by
  intro q hq
  rw [makeUsable_pageCount] at hq
  have hold : bitGet pmm.usedBitmap q = !bitGet pmm.usableBitmap q := h q hq
  unfold Memory.makeUsable
  split
  · exact hold
  · by_cases hqp : q = page
    · simp [Pmm.isUsed, Pmm.isUsable, bitGet_bitSet, bitGet_bitClear, hqp]
    · simp [Pmm.isUsed, Pmm.isUsable, bitGet_bitSet, bitGet_bitClear, hqp, hold]

theorem Settled.reservePage (h : Settled pmm) (page : Nat) : Settled (reservePage pmm page) := by
  intro q hq
  rw [reservePage_pageCount] at hq
  have hold : bitGet pmm.usedBitmap q = !bitGet pmm.usableBitmap q := h q hq
  unfold Memory.reservePage
  split
  · exact hold
  · by_cases hqp : q = page
    · simp [Pmm.isUsed, Pmm.isUsable, bitGet_bitSet, bitGet_bitClear, hqp]
    · simp [Pmm.isUsed, Pmm.isUsable, bitGet_bitSet, bitGet_bitClear, hqp, hold]

/-! ## Loops -/

section

variable {α : Type} {step : Pmm → α → Pmm} {n : Nat}
  (hcount : ∀ pmm a, (step pmm a).pageCount = pmm.pageCount)

include hcount

/-- A loop of steps each of which adds a set of pages. -/
theorem foldl_adds (adds : α → Prop) (hstep : ∀ pmm a, pmm.pageCount = n →
      ((step pmm a).isUsable q = true ↔ pmm.isUsable q = true ∨ adds a)) (items : List α)
    (hn : pmm.pageCount = n) :
    (items.foldl step pmm).isUsable q = true ↔ pmm.isUsable q = true ∨ ∃ a ∈ items, adds a := by
  induction items generalizing pmm with
  | nil => simp
  | cons a rest ih =>
    rw [List.foldl_cons, ih ((hcount pmm a).trans hn), hstep pmm a hn, or_assoc]
    simp

/-- A loop of steps each of which takes a set of pages away. -/
theorem foldl_removes (removes : α → Prop) (hstep : ∀ pmm a, pmm.pageCount = n →
      ((step pmm a).isUsable q = true ↔ pmm.isUsable q = true ∧ ¬ removes a)) (items : List α)
    (hn : pmm.pageCount = n) :
    (items.foldl step pmm).isUsable q = true ↔
      pmm.isUsable q = true ∧ ∀ a ∈ items, ¬ removes a := by
  induction items generalizing pmm with
  | nil => simp
  | cons a rest ih =>
    rw [List.foldl_cons, ih ((hcount pmm a).trans hn), hstep pmm a hn, and_assoc]
    simp

end

theorem addDescriptor_isUsable (hq : q < pmm.pageCount) (descriptor : MemoryDescriptor) :
    (addDescriptor pmm descriptor).isUsable q = true ↔
      pmm.isUsable q = true ∨ Covers descriptor q := by
  unfold addDescriptor Covers
  by_cases htype : descriptor.type = efiConventionalMemory
  · have hfirst : (descriptor.physicalStart / 4096).toNat =
        descriptor.physicalStart.toNat / argusPageSize := UInt64.toNat_div ..
    have hmem : q ∈ descriptorPages pmm.pageCount descriptor ↔
        descriptor.physicalStart.toNat / argusPageSize ≤ q ∧
          q < descriptor.physicalStart.toNat / argusPageSize + descriptor.numberOfPages.toNat := by
      unfold descriptorPages
      dsimp only
      rw [hfirst]
      split
      · rw [List.mem_range'_1]
        omega
      · simp only [List.not_mem_nil, false_iff]
        omega
    rw [if_pos htype, foldl_adds makeUsable_pageCount (fun page => q = page)
      (fun p page hp => makeUsable_isUsable (hp ▸ hq)) _ rfl]
    simp [htype, hmem]
  · rw [if_neg htype]
    simp [htype]

theorem lastByte_toNat {range : PhysicalRange} (h : 0 < range.size.toNat) :
    (lastByte range).toNat = min (2 ^ 64 - 1) (range.base.toNat + range.size.toNat - 1) := by
  have hb := range.base.toNat_lt
  have hs := range.size.toNat_lt
  have hsub := toNat_room range.base
  have hsize : (range.size - 1).toNat = range.size.toNat - 1 :=
    toNat_sub64 h
  unfold lastByte
  by_cases hover : range.size - 1 > 0xFFFFFFFFFFFFFFFF - range.base
  · rw [if_pos hover]
    rw [gt_iff_lt, UInt64.lt_iff_toNat_lt, hsub, hsize] at hover
    rw [show (0xFFFFFFFFFFFFFFFF : UInt64).toNat = 2 ^ 64 - 1 from rfl]
    omega
  · rw [if_neg hover]
    rw [gt_iff_lt, UInt64.lt_iff_toNat_lt, hsub, hsize] at hover
    rw [UInt64.toNat_sub, UInt64.toNat_add, show (1 : UInt64).toNat = 1 from rfl]
    omega

theorem reserveRange_isUsable (hq : q < pmm.pageCount) (hlt : pmm.pageCount < 2 ^ 52)
    (range : PhysicalRange) :
    (reserveRange pmm range).isUsable q = true ↔ pmm.isUsable q = true ∧ ¬ Meets range q := by
  have hlimit : (UInt64.ofNat pmm.pageCount * 4096).toNat = pmm.pageCount * 4096 := by
    rw [UInt64.toNat_mul, UInt64.toNat_ofNat', show (4096 : UInt64).toNat = 4096 from rfl]
    omega
  unfold reserveRange
  rw [meets_iff]
  unfold argusPageSize
  by_cases hskip : range.size = 0 ∨ range.base ≥ UInt64.ofNat pmm.pageCount * 4096
  · rw [if_pos hskip, eq_comm, iff_self_and]
    intro _
    rcases hskip with hzero | hhigh
    · rw [hzero]
      simp
    · rw [ge_iff_le, UInt64.le_iff_toNat_le, hlimit] at hhigh
      omega
  · rw [not_or, ge_iff_le, UInt64.not_le, UInt64.lt_iff_toNat_lt, hlimit] at hskip
    have hpos : 0 < range.size.toNat :=
      Nat.pos_of_ne_zero fun hc => hskip.1 (UInt64.toNat_inj.mp hc)
    have hstop : (lastByte range / 4096 + 1).toNat =
        min (2 ^ 64 - 1) (range.base.toNat + range.size.toNat - 1) / 4096 + 1 := by
      rw [UInt64.toNat_add, UInt64.toNat_div, lastByte_toNat hpos,
        show (4096 : UInt64).toNat = 4096 from rfl, show (1 : UInt64).toNat = 1 from rfl]
      omega
    have hmem : q ∈ rangePages pmm.pageCount range ↔ range.base.toNat / 4096 ≤ q ∧
        q * 4096 < range.base.toNat + range.size.toNat := by
      unfold rangePages
      dsimp only
      rw [hstop, UInt64.toNat_div, show (4096 : UInt64).toNat = 4096 from rfl, List.mem_range'_1]
      omega
    rw [← hlimit, ← UInt64.lt_iff_toNat_lt, ← UInt64.not_le, ← not_or] at hskip
    rw [if_neg hskip, foldl_removes reservePage_pageCount (fun page => q = page)
      (fun p page hp => reservePage_isUsable (hp ▸ hq)) _ rfl]
    simp only [hpos, true_and, ← hmem]
    refine and_congr_right fun _ => ⟨fun h hc => h q hc rfl, ?_⟩
    rintro h page hpage rfl
    exact h hpage

/-! ## `pmm_init` -/

/-- The fields that `pmm_init` checks. -/
structure FieldsValid (boot : BootInfo) : Prop where
  magic : boot.magic = argusBootInfoMagic
  exited : boot.bootServicesExited ≠ 0
  buffer : boot.memoryMapBuffer ≠ 0
  descriptors : boot.descriptorSize ≠ 0
  pages : boot.pmmPageCount ≠ 0
  storage : boot.pmmBitmapStorage.base ≠ 0
  bytes : boot.pmmBitmapBytes ≠ 0

/-- The allocator after both loops. -/
def managedPmm (boot : BootInfo) (storage : Bitmap) : Pmm :=
  (reservedRanges boot).foldl reserveRange
    (boot.memoryMap.foldl addDescriptor (clearedPmm boot storage))

theorem pmmInit_eq {boot : BootInfo} (h : FieldsValid boot) (old : Pmm) (storage : Bitmap) :
    pmmInit old storage (some boot) =
      (managedPmm boot storage, decide ((managedPmm boot storage).managedCount ≠ 0)) := by
  unfold pmmInit
  dsimp only
  rw [if_neg]
  · rfl
  · simp [h.magic, h.exited, h.buffer, h.descriptors, h.pages, h.storage, h.bytes]

section Managed

variable {boot : BootInfo} (storage : Bitmap)
  (hbytes : boot.pmmPageCount.toNat ≤ 8 * boot.pmmBitmapBytes.toNat)

theorem managedPmm_pageCount : (managedPmm boot storage).pageCount = boot.pmmPageCount.toNat := by
  unfold managedPmm
  rw [foldl_pageCount reserveRange_pageCount, foldl_pageCount addDescriptor_pageCount]
  rfl

include hbytes

theorem clearedPmm_bits (hlt : page < boot.pmmPageCount.toNat) :
    (clearedPmm boot storage).isUsable page = false ∧
    (clearedPmm boot storage).isUsed page = true := by
  have hbyte : page / 8 < boot.pmmBitmapBytes.toNat := by omega
  have hones : ∀ k : Fin 8, (0xFF : UInt8).toNat.testBit k.val = true := by decide
  refine ⟨by simp [Pmm.isUsable, clearedPmm, bitGet_eq_testBit, hbyte], ?_⟩
  unfold Pmm.isUsed clearedPmm
  rw [bitGet_eq_testBit]
  dsimp only
  rw [if_pos hbyte]
  exact hones ⟨page % 8, Nat.mod_lt _ (by omega)⟩

theorem managedPmm_counted : Counted (managedPmm boot storage) :=
  loops_counted storage hbytes

theorem managedPmm_settled : Settled (managedPmm boot storage) := by
  have hcleared : Settled (clearedPmm boot storage) := by
    intro page hlt
    obtain ⟨husable, hused⟩ := clearedPmm_bits storage hbytes hlt
    rw [husable, hused]
    rfl
  exact foldl_reserveRange_induct (P := Settled) (fun page hp => hp.reservePage page)
    (foldl_addDescriptor_induct (fun page hp => hp.makeUsable page) hcleared _) _

theorem managedPmm_isUsable (hlt : boot.pmmPageCount.toNat < 2 ^ 52)
    (hpage : page < boot.pmmPageCount.toNat) :
    (managedPmm boot storage).isUsable page = true ↔ FreeRam boot page := by
  have hcount : (boot.memoryMap.foldl addDescriptor (clearedPmm boot storage)).pageCount =
      boot.pmmPageCount.toNat := foldl_pageCount addDescriptor_pageCount _ _
  have hreserved : Reserved boot page ↔ ∃ range ∈ reservedRanges boot, Meets range page := by
    unfold Reserved reservedRanges
    by_cases hrsdp : boot.acpiRsdp = 0
    · simp [hrsdp]
    · simp [hrsdp]
  unfold managedPmm FreeRam
  rw [foldl_removes reserveRange_pageCount (fun range => Meets range page)
      (fun p range hp => reserveRange_isUsable (hp ▸ hpage) (hp ▸ hlt) range) _ hcount,
    foldl_adds addDescriptor_pageCount (fun descriptor => Covers descriptor page)
      (fun p descriptor hp => addDescriptor_isUsable (hp ▸ hpage) descriptor) _ rfl,
    (clearedPmm_bits storage hbytes hpage).1, hreserved]
  simp [hpage]

end Managed

/-- **`pmm_init` manages exactly the free memory.** A page below `page_count` is usable and
    unused exactly if some conventional descriptor covers it and nothing reserved meets it; both
    counters are the number of these pages; and the call succeeds exactly if there is one. -/
theorem pmm_init_exact (old : Pmm) (storage : Bitmap) (boot : BootInfo) (hfields : FieldsValid boot)
    (hbytes : boot.pmmPageCount.toNat ≤ 8 * boot.pmmBitmapBytes.toNat)
    (hlt : boot.pmmPageCount.toNat < 2 ^ 52) : let r := pmmInit old storage (some boot)
    (∀ page, page < boot.pmmPageCount.toNat →
      (r.1.isUsable page = true ∧ r.1.isUsed page = false ↔ FreeRam boot page)) ∧
    r.1.managedCount = {page | FreeRam boot page}.ncard ∧
    r.1.freeCount = {page | FreeRam boot page}.ncard ∧
    (r.2 = true ↔ ∃ page, FreeRam boot page) := by
  rw [pmmInit_eq hfields]
  dsimp only
  have hcount : (managedPmm boot storage).pageCount = boot.pmmPageCount.toNat :=
    managedPmm_pageCount storage
  have hcounted := managedPmm_counted storage hbytes
  have hsettled := managedPmm_settled storage hbytes
  have hbits : ∀ page, page < boot.pmmPageCount.toNat →
      ((managedPmm boot storage).isUsable page = true ↔ FreeRam boot page) :=
    fun _ hpage => managedPmm_isUsable storage hbytes hlt hpage
  have hset : {page | page < boot.pmmPageCount.toNat ∧
      (managedPmm boot storage).isUsable page = true} =
      {page | FreeRam boot page} := by
    ext page
    exact ⟨fun h => (hbits page h.1).mp h.2, fun h => ⟨h.1, (hbits page h.1).mpr h⟩⟩
  have hmanaged : (managedPmm boot storage).managedCount = {page | FreeRam boot page}.ncard := by
    rw [hcounted.managed, countBelow_eq_ncard, hcount, hset]
  refine ⟨?_, hmanaged, ?_, ?_⟩
  · intro page hpage
    rw [hsettled page (hcount.symm ▸ hpage), ← hbits page hpage]
    simp
  · rw [← hmanaged, hcounted.free, hcounted.managed]
    exact countBelow_congr fun page hpage => hsettled.isFree hpage
  · have hfinite : {page | FreeRam boot page}.Finite :=
      (Set.finite_lt_nat boot.pmmPageCount.toNat).subset fun page h => h.1
    rw [decide_eq_true_iff, hmanaged, Ne, Set.ncard_eq_zero hfinite, ← Ne,
      ← Set.nonempty_iff_ne_empty]
    rfl

theorem pmm_init_exact_onePage :
    FieldsValid onePageBoot ∧ onePageInit.2 = true ∧ ∃ page, FreeRam onePageBoot page := by
  have hfields : FieldsValid onePageBoot :=
    ⟨by decide, by decide, by decide, by decide, by decide, by decide, by decide⟩
  have hinit := onePage_prepared.2
  exact ⟨hfields, hinit,
    (pmm_init_exact _ _ onePageBoot hfields (by decide) (by decide)).2.2.2.mp hinit⟩

end ArgusOs.Memory
