/-
  What the kernel map covers.

  `paging_init` takes the end of the map as the maximum of nine sums. Those of ranges are
  saturated, so a range that reaches past the end of the address space makes the map too long
  and `paging_init` gives up (`rangeEnd_exact`). That of the local APIC is not: within the last
  page of the address space it wraps around to a small number, and the map is made without it.
  `kernel_map_covers_iff` says that this is the only case, `local_apic_not_covered` that it
  occurs, from the tables of the firmware on.
-/
import ArgusOs.Acpi.Madt
import ArgusOs.Memory.KernelMap

namespace ArgusOs.Memory

open Lib

/-- The range lies below `mapped_bytes`. -/
def Inside (mappedBytes base size : UInt64) : Prop := base.toNat + size.toNat ≤ mappedBytes.toNat

/-- Everything the kernel touches through the map lies below `mapped_bytes`. -/
structure MapCovers (boot : PagingBoot) (acpi : AcpiInfo) (mappedBytes : UInt64) : Prop where
  kernelImage : Inside mappedBytes boot.kernelImage.base boot.kernelImage.size
  bootInfoStorage : Inside mappedBytes boot.bootInfoStorage.base boot.bootInfoStorage.size
  kernelStack : Inside mappedBytes boot.kernelStack.base boot.kernelStack.size
  pmmBitmap : Inside mappedBytes boot.pmmBitmapStorage.base boot.pmmBitmapStorage.size
  memoryMap : Inside mappedBytes boot.memoryMapStorage.base boot.memoryMapStorage.size
  framebuffer : Inside mappedBytes boot.framebuffer.base boot.framebuffer.size
  localApic : Inside mappedBytes acpi.localApicAddress 4096
  ioApic : Inside mappedBytes acpi.ioApicAddress 4096

theorem pagingInit_mapEnd {boot : PagingBoot} {acpi : AcpiInfo} {nx : Bool} {s s' : Building}
    {info : KernelPaging} (h : pagingInit boot acpi nx s = (s', some info)) :
    mapEnd boot acpi = some info.mappedBytes := by
  unfold pagingInit at h
  split at h
  · cases h
  split at h
  · cases h
  next maximum hend =>
  dsimp only at h
  split at h
  · cases h
  split at h
  · cases h
  split at h
  · cases h
  obtain ⟨-, hinfo⟩ := Prod.mk.inj h
  cases hinfo
  exact hend

section Covers

variable {boot : PagingBoot} {acpi : AcpiInfo} {maximum : UInt64}
  (h : mapEnd boot acpi = some maximum)

include h

theorem mapEnd_range {range : PhysicalRange} (hr : rangeEnd range ∈ candidates boot acpi) :
    Inside maximum range.base range.size := by
  obtain ⟨-, -, hhigh, hmax⟩ := mapEnd_spec h
  have hle := candidate_le hr
  unfold Inside
  rw [rangeEnd_exact (Nat.le_trans hle hhigh)]
  exact Nat.le_trans hle hmax

theorem mapEnd_page {address : UInt64} (hp : address + 4096 ∈ candidates boot acpi)
    (hlt : address.toNat + 4096 < 2 ^ 64) : Inside maximum address 4096 := by
  obtain ⟨-, -, -, hmax⟩ := mapEnd_spec h
  have hle := candidate_le hp
  rw [UInt64.toNat_add, show (4096 : UInt64).toNat = 4096 from rfl, Nat.mod_eq_of_lt hlt] at hle
  exact Nat.le_trans hle hmax

end Covers

/-- **What the kernel map covers.** When `paging_init` succeeds, all ranges and both APIC pages
    lie below `mapped_bytes`, unless the page from the local APIC's address on reaches the end of
    the address space. -/
theorem kernel_map_covers_iff {boot : PagingBoot} {acpi : AcpiInfo} {nx : Bool} {s s' : Building}
    {info : KernelPaging} (hio : acpi.ioApicAddress.toNat < 2 ^ 32)
    (h : pagingInit boot acpi nx s = (s', some info)) :
    MapCovers boot acpi info.mappedBytes ↔ acpi.localApicAddress.toNat + 4096 < 2 ^ 64 := by
  have hend := pagingInit_mapEnd h
  constructor
  · intro hcovers
    exact Nat.lt_of_le_of_lt hcovers.localApic info.mappedBytes.toNat_lt
  · intro hlocal
    exact
      { kernelImage := mapEnd_range hend (by simp [candidates])
        bootInfoStorage := mapEnd_range hend (by simp [candidates])
        kernelStack := mapEnd_range hend (by simp [candidates])
        pmmBitmap := mapEnd_range hend (by simp [candidates])
        memoryMap := mapEnd_range hend (by simp [candidates])
        framebuffer := mapEnd_range hend (by simp [candidates])
        localApic := mapEnd_page hend (by simp [candidates]) hlocal
        ioApic := mapEnd_page hend (by simp [candidates]) (by omega) }

/-! ## Sample machines -/

/-- The sample machine with a root pointer, an XSDT and a MADT at 0xF0000. The MADT has a
    processor and moves the local APIC to the last page of the address space. -/
def sampleTables : Mem :=
  writeBytes (writeBytes (writeBytes (fun _ => 0)
    0xF0000 36 fun i => [0x52, 0x53, 0x44, 0x20, 0x50, 0x54, 0x52, 0x20, 0xDF, 0, 0, 0, 0, 0, 0,
      0x02, 0, 0, 0, 0, 0x24, 0, 0, 0, 0x40, 0, 0x0F, 0, 0, 0, 0, 0, 0x8D].getD i 0)
    0xF0040 44 fun i => [0x58, 0x53, 0x44, 0x54, 0x2C, 0, 0, 0, 0, 0x02, 0, 0, 0, 0, 0, 0, 0, 0, 0,
      0, 0, 0, 0, 0, 0, 0, 0, 0, 0, 0, 0, 0, 0, 0, 0, 0, 0x80, 0, 0x0F].getD i 0)
    0xF0080 64 fun i => [0x41, 0x50, 0x49, 0x43, 0x40, 0, 0, 0, 0, 0xC1, 0, 0, 0, 0, 0, 0, 0, 0, 0,
      0, 0, 0, 0, 0, 0, 0, 0, 0, 0, 0, 0, 0, 0, 0, 0, 0, 0, 0, 0xE0, 0xFE, 0, 0, 0, 0,
      0, 0x08, 0, 0, 0x01, 0, 0, 0,
      0x05, 0x0C, 0, 0, 0, 0xF0, 0xFF, 0xFF, 0xFF, 0xFF, 0xFF, 0xFF].getD i 0

/-- The part of ACPI's information that the map is made from. -/
def AcpiInfo.ofAcpi (info : Acpi.Info) : AcpiInfo := ⟨info.localApicAddress, info.ioApicAddress⟩

theorem kernel_map_covers_sample :
    ∃ s' info, pagingInit sampleBoot sampleAcpi true ⟨sampleMachine, 0⟩ = (s', some info) ∧
      MapCovers sampleBoot sampleAcpi info.mappedBytes := by
  obtain ⟨info, hinfo⟩ : ∃ info, (pagingInit sampleBoot sampleAcpi true ⟨sampleMachine, 0⟩).2 =
    some info := Option.isSome_iff_exists.mp (by decide +kernel)
  exact ⟨_, info, built_eq hinfo, (kernel_map_covers_iff (by decide) (built_eq hinfo)).mpr
    (by decide)⟩

/-- From these tables `acpi_init` succeeds, `paging_init` does, and the local APIC is not
    mapped. -/
theorem local_apic_not_covered :
    (Acpi.acpiInit sampleTables 0xF0000).2 = true ∧
    (Acpi.acpiInit sampleTables 0xF0000).1.localApicAddress = 0xFFFFFFFFFFFFF000 ∧
    ∃ s' info, pagingInit sampleBoot (.ofAcpi (Acpi.acpiInit sampleTables 0xF0000).1) true
        ⟨⟨sampleTables, sampleMachine.pmm⟩, 0⟩ = (s', some info) ∧
      ¬ MapCovers sampleBoot (.ofAcpi (Acpi.acpiInit sampleTables 0xF0000).1) info.mappedBytes := by
  have hok : (Acpi.acpiInit sampleTables 0xF0000).2 = true := by decide +kernel
  have hlocal : (Acpi.acpiInit sampleTables 0xF0000).1.localApicAddress = 0xFFFFFFFFFFFFF000 := by
    decide +kernel
  obtain ⟨info, hinfo⟩ : ∃ info, (pagingInit sampleBoot
      (.ofAcpi (Acpi.acpiInit sampleTables 0xF0000).1) true
      ⟨⟨sampleTables, sampleMachine.pmm⟩, 0⟩).2 = some info :=
    Option.isSome_iff_exists.mp (by decide +kernel)
  generalize Acpi.acpiInit sampleTables 0xF0000 = reported at hok hlocal hinfo ⊢
  refine ⟨hok, hlocal, _, info, built_eq hinfo, ?_⟩
  intro hcovers
  have hin : reported.1.localApicAddress.toNat + 4096 ≤ info.mappedBytes.toNat := hcovers.localApic
  have hlt := info.mappedBytes.toNat_lt
  rw [hlocal] at hin
  exact absurd (Nat.lt_of_le_of_lt hin hlt) (by decide)

end ArgusOs.Memory
