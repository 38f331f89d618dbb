/-
  Kernel page tables: `paging_init` and what it uses of `paging.c`, and the walk the processor
  makes through the tables.

  The kernel map is made of 2 MiB pages, with the one that holds the stack guard split into
  4 KiB pages afterwards. Its tables form a tree (`KernelTree`): `tables` gives the table at a
  path of indices, and an entry either links to the table one step further or is a leaf. Hanging
  a table into the tree and setting a leaf are the only two changes (`KernelTree.grow`,
  `KernelTree.setLeaf`); the walk is a lookup in the leaves (`KernelTree.translate_large`,
  `KernelTree.translate_small`).
-/
import ArgusOs.Memory.PmmInit
import ArgusOs.Memory.UserSpace

namespace ArgusOs.Memory

open Lib Function

variable {mem : Mem} {root table : UInt64} {index : Nat} {frames path : List Nat}
  {tables : List Nat → Option UInt64} {leaves : List Nat → Nat → UInt64}

def pagePwt : UInt64 := (1 : UInt64) <<< 3
def pagePcd : UInt64 := (1 : UInt64) <<< 4
def largePageSize : UInt64 := 0x200000
def largeAddressMask : UInt64 := 0x000FFFFFFFE00000
def hugeAddressMask : UInt64 := 0x000FFFFFC0000000

def efiMemoryMappedIo : UInt32 := 11

/-- The fields of `boot_info_t` that `paging_init` reads. -/
structure PagingBoot extends BootInfo where
  kernelStackGuard : PhysicalRange

structure AcpiInfo where
  localApicAddress : UInt64
  ioApicAddress : UInt64

/-- `paging_info_t`. -/
structure KernelPaging where
  rootTable : UInt64
  mappedBytes : UInt64
  tablePages : UInt64
  stackGuardPage : UInt64
  nxEnabled : Bool

/-- Memory, the allocator and the static counter of table pages. -/
structure Building where
  phys : Phys
  tablePages : UInt64

variable (s : Building)

def Building.withMem (mem : Mem) : Building := { s with phys := ⟨mem, s.phys.pmm⟩ }

def allocateTable : Building × UInt64 :=
  let (pmm, address) := pmmAllocPage s.phys.pmm
  if address = 0 then ({ s with phys := ⟨s.phys.mem, pmm⟩ }, 0)
  else (⟨⟨zeroPage s.phys.mem address, pmm⟩, s.tablePages + 1⟩, address)

/-! ## Regions -/

def saturatedEnd (base size : UInt64) : UInt64 :=
  if base > 0xFFFFFFFFFFFFFFFF - size then 0xFFFFFFFFFFFFFFFF else base + size

def overlaps (base size otherBase otherSize : UInt64) : Bool :=
  if size = 0 ∨ otherSize = 0 then false
  else base < saturatedEnd otherBase otherSize ∧ otherBase < saturatedEnd base size

theorem saturatedEnd_toNat (base size : UInt64) :
    (saturatedEnd base size).toNat = min (base.toNat + size.toNat) (2 ^ 64 - 1) := by
  have hsize := size.toNat_lt
  unfold saturatedEnd
  split <;> rename_i h <;> rw [gt_iff_lt, UInt64.lt_iff_toNat_lt, toNat_room] at h
  · change 2 ^ 64 - 1 = _
    omega
  · rw [UInt64.toNat_add]
    omega

/-- Two ranges overlap when some address is in both; the last address counts in no range. -/
theorem overlaps_iff {base size otherBase otherSize : UInt64} :
    overlaps base size otherBase otherSize = true ↔
      ∃ a, (base.toNat ≤ a ∧ a < (saturatedEnd base size).toNat) ∧
        otherBase.toNat ≤ a ∧ a < (saturatedEnd otherBase otherSize).toNat := by
  unfold overlaps
  simp only [← UInt64.toNat_inj, UInt64.lt_iff_toNat_lt, saturatedEnd_toNat, UInt64.toNat_zero]
  constructor
  · intro h
    split at h
    · cases h
    · refine ⟨max base.toNat otherBase.toNat, ?_⟩
      rw [decide_eq_true_eq] at h
      omega
  · rintro ⟨a, h⟩
    rw [if_neg (by omega), decide_eq_true_eq]
    omega

/-- A memory-mapped device range of the memory map that meets the region at `base`. -/
def descriptorIsMmio (base : UInt64) (descriptor : MemoryDescriptor) : Bool :=
  descriptor.type = efiMemoryMappedIo ∧
    descriptor.numberOfPages ≤ 0xFFFFFFFFFFFFFFFF / 4096 ∧
    overlaps base largePageSize descriptor.physicalStart (descriptor.numberOfPages * 4096) = true

variable (boot : PagingBoot) (acpi : AcpiInfo)

def rangeIsMmio (base : UInt64) : Bool :=
  overlaps base largePageSize boot.framebuffer.base boot.framebuffer.size ||
  overlaps base largePageSize acpi.localApicAddress 4096 ||
  overlaps base largePageSize acpi.ioApicAddress 4096 ||
  boot.memoryMap.any (descriptorIsMmio base)

/-! ## Mapping -/

/-- The table below an entry of `map_large_page`, allocated if there is none. -/
def tableBelow (table : UInt64) (index : Nat) : Building × Option UInt64 :=
  if entryAt s.phys.mem table index &&& pagePresent = 0 then
    let (s, child) := allocateTable s
    if child = 0 then (s, none)
    else
      let mem := setEntry s.phys.mem table index (child ||| pagePresent ||| pageWritable)
      (s.withMem mem, some (entryAt mem table index &&& pageAddressMask))
  else (s, some (entryAt s.phys.mem table index &&& pageAddressMask))

def mapLargePage (root physical flags : UInt64) : Building × Bool :=
  match tableBelow s root (tableIndex physical 39) with
  | (s, none) => (s, false)
  | (s, some pdpt) =>
    match tableBelow s pdpt (tableIndex physical 30) with
    | (s, none) => (s, false)
    | (s, some pd) =>
      let entry := physical ||| flags ||| pagePresent ||| pageWritable ||| pageLarge
      (s.withMem (setEntry s.phys.mem pd (tableIndex physical 21) entry), true)

/-- The loop that fills the new table with the pages of the large one. -/
def fillTable (mem : Mem) (pt largeBase leafFlags : UInt64) : Mem :=
  (List.range 512).foldl
    (fun mem i => setEntry mem pt i ((largeBase + UInt64.ofNat i * 4096) ||| leafFlags)) mem

def unmap4kPage (root physical : UInt64) : Building × Bool :=
  let mem := s.phys.mem
  let rootEntry := entryAt mem root (tableIndex physical 39)
  if rootEntry &&& pagePresent = 0 then (s, false)
  else
    let pdpt := rootEntry &&& pageAddressMask
    let pdptEntry := entryAt mem pdpt (tableIndex physical 30)
    if pdptEntry &&& pagePresent = 0 then (s, false)
    else
      let pd := pdptEntry &&& pageAddressMask
      let entry := entryAt mem pd (tableIndex physical 21)
      if entry &&& pagePresent = 0 then (s, false)
      else if entry &&& pageLarge ≠ 0 then
        let largeBase := entry &&& largeAddressMask
        let leafFlags := (entry &&& ~~~pageAddressMask) &&& ~~~pageLarge
        let (s, pt) := allocateTable s
        if pt = 0 then (s, false)
        else
          let mem := fillTable s.phys.mem pt largeBase leafFlags
          let mem := setEntry mem pd (tableIndex physical 21) (pt ||| pagePresent ||| pageWritable)
          (s.withMem (setEntry mem pt (tableIndex physical 12) 0), true)
      else
        let pt := entry &&& pageAddressMask
        (s.withMem (setEntry mem pt (tableIndex physical 12) 0), true)

/-! ## Initialisation -/

def rangeEnd (range : PhysicalRange) : UInt64 := saturatedEnd range.base range.size

def stackRejected : Bool :=
  boot.kernelStack.size < 2 * 4096 ∨
  boot.kernelStackGuard.base ≠ boot.kernelStack.base ∨
  boot.kernelStackGuard.size ≠ 4096 ∨
  boot.kernelStackGuard.base &&& 4095 ≠ 0 ∨
  overlaps boot.kernelStack.base boot.kernelStack.size boot.kernelStackGuard.base
    boot.kernelStackGuard.size = false

def candidates : List UInt64 :=
  [rangeEnd boot.kernelImage, rangeEnd boot.bootInfoStorage, rangeEnd boot.kernelStack,
    rangeEnd boot.pmmBitmapStorage, rangeEnd boot.memoryMapStorage, rangeEnd boot.framebuffer,
    acpi.localApicAddress + 4096, acpi.ioApicAddress + 4096]

def highestAddress : UInt64 :=
  (candidates boot acpi).foldl
    (fun maximum candidate => if candidate > maximum then candidate else maximum)
    (boot.pmmPageCount * 4096)

/-- The end of the map, in whole large pages, unless it is refused. -/
def mapEnd : Option UInt64 :=
  let maximum := highestAddress boot acpi
  if maximum = 0 ∨ maximum > (1 : UInt64) <<< 47 then none
  else if maximum > 0xFFFFFFFFFFFFFFFF - (largePageSize - 1) then none
  else some ((maximum + largePageSize - 1) &&& ~~~(largePageSize - 1))

def regionFlags (nx : Bool) (address : UInt64) : UInt64 :=
  let flags := if nx && !overlaps address largePageSize boot.kernelImage.base boot.kernelImage.size
    then pageNx else 0
  if rangeIsMmio boot acpi address then flags ||| (pagePcd ||| pagePwt) else flags

/-- The loop over the regions, after so many of them. -/
def mapRegions (boot : PagingBoot) (acpi : AcpiInfo) (nx : Bool) (root : UInt64) :
    Nat → Building → Building × Bool
  | 0, s => (s, true)
  | n + 1, s =>
    match mapRegions boot acpi nx root n s with
    | (s, false) => (s, false)
    | (s, true) =>
      let address := UInt64.ofNat n * largePageSize
      mapLargePage s root address (regionFlags boot acpi nx address)

/-- `nx` is `cpu_has_nx`; loading the root and the control bits changes no table. -/
def pagingInit (nx : Bool) (s : Building) :
    Building × Option KernelPaging :=
  if stackRejected boot then (s, none)
  else
    match mapEnd boot acpi with
    | none => (s, none)
    | some maximum =>
      let (s, root) := allocateTable { s with tablePages := 0 }
      if root = 0 then (s, none)
      else
        match mapRegions boot acpi nx root (maximum / largePageSize).toNat s with
        | (s, false) => (s, none)
        | (s, true) =>
          match unmap4kPage s root boot.kernelStackGuard.base with
          | (s, false) => (s, none)
          | (s, true) =>
            (s, some
              { rootTable := root, mappedBytes := maximum, tablePages := s.tablePages
                stackGuardPage := boot.kernelStackGuard.base, nxEnabled := nx })

/-! ## The processor's walk -/

/-- Where an address leads: a page is writable, and open to users, if every level says so. -/
structure Mapping where
  physical : UInt64
  leaf : UInt64
  writable : Bool
  user : Bool

/-- The mapping of a leaf entry below entries that say `writable` and `user`. -/
def leafMapping (writable user : Bool) (leaf addressMask virtualAddress offsetMask : UInt64) :
    Mapping where
  physical := (leaf &&& addressMask) ||| (virtualAddress &&& offsetMask)
  leaf := leaf
  writable := writable && leaf &&& pageWritable ≠ 0
  user := user && leaf &&& pageUser ≠ 0

/-- The walk of the processor over four levels, with large pages at the second and third. -/
def translate (mem : Mem) (root virtualAddress : UInt64) : Option Mapping :=
  let e4 := entryAt mem root (tableIndex virtualAddress 39)
  let e3 := entryAt mem (e4 &&& pageAddressMask) (tableIndex virtualAddress 30)
  let e2 := entryAt mem (e3 &&& pageAddressMask) (tableIndex virtualAddress 21)
  let e1 := entryAt mem (e2 &&& pageAddressMask) (tableIndex virtualAddress 12)
  let writable4 := decide (e4 &&& pageWritable ≠ 0)
  let user4 := decide (e4 &&& pageUser ≠ 0)
  let writable3 := writable4 && decide (e3 &&& pageWritable ≠ 0)
  let user3 := user4 && decide (e3 &&& pageUser ≠ 0)
  let writable2 := writable3 && decide (e2 &&& pageWritable ≠ 0)
  let user2 := user3 && decide (e2 &&& pageUser ≠ 0)
  if e4 &&& pagePresent = 0 then none
  else if e3 &&& pagePresent = 0 then none
  else if e3 &&& pageLarge ≠ 0 then
    some (leafMapping writable4 user4 e3 hugeAddressMask virtualAddress 0x3FFFFFFF)
  else if e2 &&& pagePresent = 0 then none
  else if e2 &&& pageLarge ≠ 0 then
    some (leafMapping writable3 user3 e2 largeAddressMask virtualAddress 0x1FFFFF)
  else if e1 &&& pagePresent = 0 then none
  else some (leafMapping writable2 user2 e1 pageAddressMask virtualAddress 4095)

/-! ## The tree of tables -/

def kernelLink (child : UInt64) : UInt64 := child ||| pagePresent ||| pageWritable

section KernelLink

variable {child : UInt64} (h : PageAddress child)

include h

theorem kernelLink_toNat : (kernelLink child).toNat = child.toNat + 3 := by
  have hassoc : kernelLink child = child ||| 3 := by
    unfold kernelLink
    rw [UInt64.or_assoc]
    rfl
  rw [hassoc, toNat_or_of_lt child 3 12 h.1 (by decide)]
  rfl

theorem kernelLink_present : kernelLink child &&& pagePresent ≠ 0 := by
  rw [and_bit_ne_zero _ _ 0 (by decide), kernelLink_toNat h]
  have := h.1
  omega

theorem kernelLink_writable : kernelLink child &&& pageWritable ≠ 0 := by
  rw [and_bit_ne_zero _ _ 1 (by decide), kernelLink_toNat h]
  have := h.1
  omega

theorem kernelLink_user : kernelLink child &&& pageUser = 0 := by
  rw [and_bit_eq_zero _ _ 2 (by decide), kernelLink_toNat h]
  have := h.1
  omega

theorem kernelLink_large : kernelLink child &&& pageLarge = 0 := by
  rw [and_bit_eq_zero _ _ 7 (by decide), kernelLink_toNat h]
  have := h.1
  omega

theorem kernelLink_address : kernelLink child &&& pageAddressMask = child := by
  rw [← UInt64.toNat_inj, toNat_and_field _ _ 12 40 (by decide), kernelLink_toNat h]
  have h1 := h.1
  have h2 := h.2
  omega

end KernelLink

/-- The entry at a place of the tree: the link to the table below, or a leaf. -/
def treeEntry (tables : List Nat → Option UInt64) (leaves : List Nat → Nat → UInt64)
    (path : List Nat) (index : Nat) : UInt64 :=
  match tables (path ++ [index]) with
  | some child => kernelLink child
  | none => leaves path index

/-- A leaf that may stand in a table at this depth: none in the upper two levels, and none but a
    large page in the third. -/
def LeafAt (depth : Nat) (leaf : UInt64) : Prop :=
  (depth < 2 → leaf = 0) ∧ (depth = 2 → leaf &&& pagePresent ≠ 0 → leaf &&& pageLarge ≠ 0)

structure KernelTree (mem : Mem) (frames : List Nat) (root : UInt64)
    (tables : List Nat → Option UInt64) (leaves : List Nat → Nat → UInt64) : Prop where
  root : tables [] = some root
  page : ∀ path table, tables path = some table → PageAddress table ∧ frameOf table ∈ frames
  inj : ∀ path path' table, tables path = some table → tables path' = some table → path = path'
  parent : ∀ path index, tables (path ++ [index]) ≠ none → tables path ≠ none
  bare : ∀ path index, tables path = none → leaves path index = 0
  leaf : ∀ path index, LeafAt path.length (leaves path index)
  entry : ∀ path table index, tables path = some table → index < 512 →
    entryAt mem table index = treeEntry tables leaves path index

def setLeafAt (leaves : List Nat → Nat → UInt64) (path : List Nat) (index : Nat) (leaf : UInt64) :
    List Nat → Nat → UInt64 :=
  fun path' index' => if path' = path ∧ index' = index then leaf else leaves path' index'

theorem leafAt_zero (depth : Nat) : LeafAt depth 0 :=
  ⟨fun _ => rfl, fun _ hp => absurd UInt64.zero_and hp⟩

section

variable (h : KernelTree mem frames root tables leaves)

include h

theorem KernelTree.nodes : Nodes tables :=
  ⟨fun path table ht => (h.page path table ht).1, h.inj, h.parent⟩

theorem KernelTree.setLeaf (ht : tables path = some table) (hi : index < 512)
    (hnone : tables (path ++ [index]) = none) {leaf : UInt64} (hleaf : LeafAt path.length leaf) :
    KernelTree (setEntry mem table index leaf) frames root tables
      (setLeafAt leaves path index leaf) := by
  refine { h with bare := ?_, leaf := ?_, entry := ?_ }
  · intro path' index' hc
    unfold setLeafAt
    rw [if_neg]
    · exact h.bare path' index' hc
    · rintro ⟨rfl, -⟩
      rw [ht] at hc
      cases hc
  · intro path' index'
    unfold setLeafAt
    split
    · next heq =>
      rw [heq.1]
      exact hleaf
    · exact h.leaf path' index'
  · intro path' table' index' ht' hi'
    unfold treeEntry setLeafAt
    by_cases hplace : path' = path ∧ index' = index
    · obtain ⟨rfl, rfl⟩ := hplace
      rw [ht, Option.some.injEq] at ht'
      subst ht'
      rw [hnone, entryAt_setEntry]
      exact (if_pos ⟨rfl, rfl⟩).symm
    · rw [h.nodes.entryAt_set ht ht' hi hi' (by
        by_contra hc
        push Not at hc
        exact hplace hc) leaf rfl, if_neg hplace]
      exact h.entry path' table' index' ht' hi'

/-- A fresh page with known entries is hung below an entry; what that entry was before, a large
    page for instance, is gone. -/
theorem KernelTree.grow (ht : tables path = some table) (hi : index < 512)
    (hnone : tables (path ++ [index]) = none) {child : UInt64} (hchild : PageAddress child)
    (hfresh : frameOf child ∉ frames) {mem₁ : Mem} (hsame : SameOutside [frameOf child] mem mem₁)
    {contents : Nat → UInt64} (hcontents : ∀ i, i < 512 → entryAt mem₁ child i = contents i)
    (hleaf : ∀ i, LeafAt (path.length + 1) (contents i)) :
    KernelTree (setEntry mem₁ table index (kernelLink child)) (frameOf child :: frames) root
      (update tables (path ++ [index]) (some child))
      (update leaves (path ++ [index]) contents) := by
  have hne : ∀ path' table', tables path' = some table' → frameOf table' ≠ frameOf child := by
    intro path' table' ht' hf
    rw [← hf] at hfresh
    exact hfresh (h.page path' table' ht').2
  have hgrow : Nodes (update tables (path ++ [index]) (some child)) :=
    h.nodes.grow ht hne hchild
  refine ⟨?_, ?_, hgrow.inj, hgrow.parent, ?_, ?_, ?_⟩
  · rw [update_of_ne (by simp)]
    exact h.root
  · intro path' table' ht'
    refine ⟨hgrow.page path' table' ht', ?_⟩
    rcases grown_cases ht' with ⟨-, rfl⟩ | ⟨-, hwas⟩
    · exact List.mem_cons_self
    · exact List.mem_cons_of_mem _ (h.page path' table' hwas).2
  · intro path' index' hc
    have hp : path' ≠ path ++ [index] := by
      rintro rfl
      rw [update_self] at hc
      cases hc
    rw [update_of_ne hp] at hc
    rw [update_of_ne hp]
    exact h.bare path' index' hc
  · intro path' index'
    by_cases hp : path' = path ++ [index]
    · subst hp
      rw [update_self, List.length_append]
      exact hleaf index'
    · rw [update_of_ne hp]
      exact h.leaf path' index'
  · intro path' table' index' ht' hi'
    unfold treeEntry
    rcases grown_cases ht' with ⟨rfl, rfl⟩ | ⟨hp, hwas⟩
    · rw [update_of_ne (by simp), h.nodes.below hnone, update_self]
      dsimp only
      rw [h.nodes.entryAt_new ht hne hchild hi _ hi']
      exact hcontents index' hi'
    · by_cases hp' : path' ++ [index'] = path ++ [index]
      · obtain ⟨rfl, rfl⟩ := append_singleton_inj hp'
        rw [ht, Option.some.injEq] at hwas
        subst hwas
        rw [update_self, entryAt_setEntry]
      · rw [h.nodes.entryAt_old ht hne hsame hi _ hwas hi' (place_ne hp'), update_of_ne hp',
          update_of_ne hp]
        exact h.entry path' table' index' hwas hi'

/-! ## Lookup -/

theorem KernelTree.link {child : UInt64} (ht : tables path = some table) (hi : index < 512)
    (hc : tables (path ++ [index]) = some child) : entryAt mem table index = kernelLink child := by
  rw [h.entry path table index ht hi]
  unfold treeEntry
  rw [hc]

theorem KernelTree.leaf_entry (ht : tables path = some table) (hi : index < 512)
    (hc : tables (path ++ [index]) = none) : entryAt mem table index = leaves path index := by
  rw [h.entry path table index ht hi]
  unfold treeEntry
  rw [hc]

end

/-- The three upper indices of an address. -/
def directoryPath (virtualAddress : UInt64) : List Nat :=
  [tableIndex virtualAddress 39, tableIndex virtualAddress 30]

/-- The path to the page table of the region, if it has one. -/
abbrev regionPath (virtualAddress : UInt64) : List Nat :=
  directoryPath virtualAddress ++ [tableIndex virtualAddress 21]

/-- Without a page table for the region, the walk ends at the region's leaf. -/
theorem KernelTree.translate_large (h : KernelTree mem frames root tables leaves) (address : UInt64)
    (hnone : tables (regionPath address) = none) :
    translate mem root address =
      if leaves (directoryPath address) (tableIndex address 21) &&& pagePresent = 0
      then none
      else some (leafMapping true false
        (leaves (directoryPath address) (tableIndex address 21))
        largeAddressMask address 0x1FFFFF) := by
  have hlt := tableIndex_lt address
  unfold translate
  dsimp only
  cases h1 : tables ([] ++ [tableIndex address 39]) with
  | none =>
    have hdir : tables (directoryPath address) = none := by
      by_contra hc
      exact h.parent [tableIndex address 39] (tableIndex address 30) hc h1
    have hzero : leaves [] (tableIndex address 39) = 0 := (h.leaf [] _).1 (by decide)
    rw [h.leaf_entry h.root (hlt 39) h1, hzero, if_pos UInt64.zero_and, h.bare _ _ hdir,
      if_pos UInt64.zero_and]
  | some pdpt =>
    have hpdpt := (h.page _ _ h1).1
    rw [h.link h.root (hlt 39) h1, kernelLink_address hpdpt, if_neg (kernelLink_present hpdpt)]
    rw [List.nil_append] at h1
    cases h2 : tables ([tableIndex address 39] ++ [tableIndex address 30]) with
    | none =>
      have hzero : leaves [tableIndex address 39] (tableIndex address 30) = 0 :=
        (h.leaf _ _).1 (by simp)
      have hdir : tables (directoryPath address) = none := h2
      rw [h.leaf_entry h1 (hlt 30) h2, hzero, if_pos UInt64.zero_and, h.bare _ _ hdir,
        if_pos UInt64.zero_and]
    | some pd =>
      have hpd := (h.page _ _ h2).1
      have hentry : entryAt mem pd (tableIndex address 21) =
          leaves (directoryPath address) (tableIndex address 21) :=
        h.leaf_entry h2 (hlt 21) hnone
      have hlarge := (h.leaf (directoryPath address) (tableIndex address 21)).2 rfl
      rw [h.link h1 (hlt 30) h2, kernelLink_address hpd, if_neg (kernelLink_present hpd),
        if_neg (not_not.mpr (kernelLink_large hpd)), hentry]
      by_cases hp : leaves (directoryPath address) (tableIndex address 21) &&& pagePresent = 0
      · rw [if_pos hp, if_pos hp]
      · rw [if_neg hp, if_neg hp, if_pos (hlarge hp)]
        simp [kernelLink_writable hpdpt, kernelLink_writable hpd, kernelLink_user hpdpt]

/-- With a page table for the region, the walk ends at the page's leaf. -/
theorem KernelTree.translate_small (h : KernelTree mem frames root tables leaves)
    (address : UInt64) {pt : UInt64} (hpt : tables (regionPath address) = some pt)
    (hlast : tables (regionPath address ++
      [tableIndex address 12]) = none) :
    translate mem root address =
      let leaf := leaves (regionPath address)
        (tableIndex address 12)
      if leaf &&& pagePresent = 0 then none
      else some (leafMapping true false leaf pageAddressMask address 4095) := by
  have hlt := tableIndex_lt address
  have h2 : tables ([tableIndex address 39] ++ [tableIndex address 30]) ≠ none :=
    h.parent (directoryPath address) _ (by rw [hpt]; simp)
  have h1 : tables ([] ++ [tableIndex address 39]) ≠ none := h.parent _ _ h2
  obtain ⟨pd, h2⟩ := Option.ne_none_iff_exists'.mp h2
  obtain ⟨pdpt, h1⟩ := Option.ne_none_iff_exists'.mp h1
  have hpdpt := (h.page _ _ h1).1
  have hpd := (h.page _ _ h2).1
  have hpage := (h.page _ _ hpt).1
  have hentry : entryAt mem pt (tableIndex address 12) =
      leaves (regionPath address) (tableIndex address 12) :=
    h.leaf_entry hpt (hlt 12) hlast
  unfold translate
  dsimp only
  rw [h.link h.root (hlt 39) h1, kernelLink_address hpdpt, if_neg (kernelLink_present hpdpt),
    h.link h1 (hlt 30) h2, kernelLink_address hpd, if_neg (kernelLink_present hpd),
    if_neg (not_not.mpr (kernelLink_large hpd)), h.link h2 (hlt 21) hpt, kernelLink_address hpage,
    if_neg (kernelLink_present hpage), if_neg (not_not.mpr (kernelLink_large hpage)), hentry]
  simp [kernelLink_writable hpdpt, kernelLink_writable hpd, kernelLink_writable hpage,
    kernelLink_user hpdpt]

/-! ## The tables a walk can reach -/

/-- The page tables below a root, with their depth: the root, and what present entries that are
    not large pages point to. -/
inductive TableFrom (mem : Mem) (root : UInt64) : Nat → UInt64 → Prop
  | root : TableFrom mem root 0 root
  | child {depth index : Nat} {table : UInt64} (h : TableFrom mem root depth table)
      (hdepth : depth < 3) (hindex : index < 512)
      (hpresent : entryAt mem table index &&& pagePresent ≠ 0)
      (hlarge : entryAt mem table index &&& pageLarge = 0) :
      TableFrom mem root (depth + 1) (entryAt mem table index &&& pageAddressMask)

theorem KernelTree.tableFrom (h : KernelTree mem frames root tables leaves) {depth : Nat}
    (ht : TableFrom mem root depth table) :
    ∃ path, path.length = depth ∧ tables path = some table := by
  induction ht with
  | root => exact ⟨[], rfl, h.root⟩
  | @child depth index table _ hdepth hindex hpresent hlarge ih =>
    obtain ⟨path, hlen, hpath⟩ := ih
    rw [h.entry path table index hpath hindex] at hpresent hlarge ⊢
    unfold treeEntry at hpresent hlarge ⊢
    cases hchild : tables (path ++ [index]) with
    | some child =>
      refine ⟨path ++ [index], by rw [List.length_append, hlen]; rfl, ?_⟩
      show _ = some (kernelLink child &&& pageAddressMask)
      rw [kernelLink_address (h.page _ _ hchild).1, hchild]
    | none =>
      -- a leaf: absent in the upper levels, and large where it may be present
      rw [hchild] at hpresent hlarge
      have hleaf := h.leaf path index
      by_cases hup : path.length < 2
      · rw [hleaf.1 hup] at hpresent
        exact absurd UInt64.zero_and hpresent
      · exact absurd hlarge (hleaf.2 (by omega) hpresent)

theorem KernelTree.tables_held (h : KernelTree mem frames root tables leaves) (depth : Nat)
    (table : UInt64) (ht : TableFrom mem root depth table) :
    PageAddress table ∧ frameOf table ∈ frames := by
  obtain ⟨path, -, hpath⟩ := h.tableFrom ht
  exact h.page path table hpath

/-- No entry of the root is for user code. -/
theorem KernelTree.kernelRoot (h : KernelTree mem frames root tables leaves) (nx : Bool) :
    KernelRoot mem ⟨root, nx⟩ where
  page := (h.page _ _ h.root).1
  supervisor := by
    intro index hi
    show entryAt mem root index &&& pageUser = 0
    rw [h.entry _ _ index h.root hi]
    unfold treeEntry
    split
    · next child hchild => exact kernelLink_user (h.page _ _ hchild).1
    · rw [(h.leaf [] index).1 Nat.two_pos]
      exact UInt64.zero_and

/-- The kernel's page tables as processes are built on them: every table a walk from the root
    reaches is one of the pages `frames`, which are held. -/
structure KernelHeld (phys : Phys) (kernel : PagingInfo) (frames : List Nat) : Prop where
  ok : PmmOk phys.pmm
  held : Held phys.pmm frames
  tables : ∀ depth table, TableFrom phys.mem kernel.rootTable depth table →
    PageAddress table ∧ frameOf table ∈ frames
  root : KernelRoot phys.mem kernel

/-- While these pages keep their contents, the tables are the same. -/
theorem KernelHeld.tableFrom {phys : Phys} {kernel : PagingInfo} (h : KernelHeld phys kernel frames)
    (hsame : ∀ a, a / argusPageSize ∈ frames → mem a = phys.mem a) {depth : Nat}
    (ht : TableFrom mem kernel.rootTable depth table) :
    TableFrom phys.mem kernel.rootTable depth table := by
  induction ht with
  | root => exact .root
  | @child depth index table _ hdepth hindex hpresent hlarge ih =>
    obtain ⟨hpage, hframe⟩ := h.tables _ _ ih
    have hentry : entryAt mem table index = entryAt phys.mem table index := by
      apply entryAt_congr hpage.1 hindex
      intro a ha
      apply hsame
      rw [ha]
      exact hframe
    rw [hentry] at hpresent hlarge ⊢
    exact .child ih hdepth hindex hpresent hlarge

end ArgusOs.Memory
