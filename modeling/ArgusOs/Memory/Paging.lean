/-
  User page tables: the user half of `paging.c`.

  A user space is a four-level tree of table pages in physical memory. Its root is a copy of
  the kernel's; `paging_user_map_page` grows the subtree below root entry 1, where the user
  window lies, and never touches another root entry. Tables are read and written as
  little-endian 64-bit entries in byte memory, so nothing here assumes that two tables are
  different pages: that is proved where it is needed.

  The kernel runs identity mapped, so a physical address is dereferenced as it stands.
  Bulk loops over one page (clearing it, copying the kernel root) are one `writeBytes`.
  `paging_info_t` keeps the two fields these functions read.
-/
import ArgusOs.Lib.Bytes
import ArgusOs.Memory.Pmm

namespace ArgusOs.Memory

open Lib

def pagePresent : UInt64 := (1 : UInt64) <<< 0
def pageWritable : UInt64 := (1 : UInt64) <<< 1
def pageUser : UInt64 := (1 : UInt64) <<< 2
def pageLarge : UInt64 := (1 : UInt64) <<< 7
def pageNx : UInt64 := (1 : UInt64) <<< 63
def pageAddressMask : UInt64 := 0x000FFFFFFFFFF000

def argusUserTableMaxPages : Nat := 16
def argusUserBase : UInt64 := 0x0000008000000000

/-- Physical memory and the allocator over it. -/
structure Phys where
  mem : Mem
  pmm : Pmm

structure PagingInfo where
  rootTable : UInt64
  nxEnabled : Bool

structure UserSpace where
  rootTable : UInt64
  userBase : UInt64
  tablePages : List UInt64
  nxEnabled : Bool

def UserSpace.zero : UserSpace := ⟨0, 0, [], false⟩

variable (mem : Mem) (table : UInt64)

def entryAt (index : Nat) : UInt64 :=
  load64 mem (table.toNat + 8 * index)

def setEntry (index : Nat) (entry : UInt64) : Mem :=
  store64 mem (table.toNat + 8 * index) entry

def zeroPage (physical : UInt64) : Mem :=
  writeBytes mem physical.toNat argusPageSize fun _ => 0

/-- The table index of an address at one level. -/
def tableIndex (virtualAddress shift : UInt64) : Nat := ((virtualAddress >>> shift) &&& 0x1FF).toNat

/-! ## Building -/

def allocateUserTable (s : Phys) (space : UserSpace) : Phys × UserSpace × UInt64 :=
  if space.tablePages.length ≥ argusUserTableMaxPages then (s, space, 0)
  else
    let (pmm, address) := pmmAllocPage s.pmm
    if address = 0 then (⟨s.mem, pmm⟩, space, 0)
    else
      (⟨zeroPage s.mem address, pmm⟩,
        { space with tablePages := space.tablePages ++ [address] }, address)

/-- The tables go back in reverse order. -/
def pagingUserSpaceDestroy (s : Phys) (space : UserSpace) : Phys × UserSpace :=
  (⟨s.mem, space.tablePages.reverse.foldl (fun pmm address => (pmmFreePage pmm address).1) s.pmm⟩,
    .zero)

def pagingUserSpaceCreate (s : Phys) (kernel : PagingInfo) (space : UserSpace) :
    Phys × UserSpace × Bool :=
  if kernel.rootTable = 0 then (s, space, false)
  else
    let (s, space, root) :=
      allocateUserTable s { UserSpace.zero with nxEnabled := kernel.nxEnabled }
    if root = 0 then (s, space, false)
    else
      let mem := writeBytes s.mem root.toNat argusPageSize fun i =>
        s.mem (kernel.rootTable.toNat + i)
      let s : Phys := ⟨mem, s.pmm⟩
      if entryAt mem root (tableIndex argusUserBase 39) &&& pagePresent ≠ 0 then
        let (s, space) := pagingUserSpaceDestroy s space
        (s, space, false)
      else (s, { space with rootTable := root, userBase := argusUserBase }, true)

/-- One level of `paging_user_map_page`: the table below `table[index]`, allocated if there is
    none. A large page is refused below the root only. -/
def descend (s : Phys) (space : UserSpace) (table : UInt64) (index : Nat) (refuseLarge : Bool) :
    Phys × UserSpace × Option UInt64 :=
  let (s, space, done) :=
    if entryAt s.mem table index &&& pagePresent = 0 then
      let (s, space, child) := allocateUserTable s space
      if child = 0 then (s, space, false)
      else
        let entry := child ||| pagePresent ||| pageWritable ||| pageUser
        (⟨setEntry s.mem table index entry, s.pmm⟩, space, true)
    else (s, space, true)
  let entry := entryAt s.mem table index
  if done = false ∨ entry &&& pageUser = 0 ∨ (refuseLarge ∧ entry &&& pageLarge ≠ 0) then
    (s, space, none)
  else (s, space, some (entry &&& pageAddressMask))

def leafFlags (nxEnabled writable executable : Bool) : UInt64 :=
  let flags := pagePresent ||| pageUser
  let flags := if writable then flags ||| pageWritable else flags
  if !executable && nxEnabled then flags ||| pageNx else flags

def pagingUserMapPage (s : Phys) (space : UserSpace) (virtualAddress physicalAddress : UInt64)
    (writable executable : Bool) : Phys × UserSpace × Bool :=
  if space.rootTable = 0 ∨ virtualAddress &&& 4095 ≠ 0 ∨ physicalAddress &&& 4095 ≠ 0 ∨
      virtualAddress < space.userBase ∨ virtualAddress ≥ space.userBase + (1 : UInt64) <<< 39 then
    (s, space, false)
  else
    match descend s space space.rootTable (tableIndex virtualAddress 39) false with
    | (s, space, none) => (s, space, false)
    | (s, space, some pdpt) =>
      match descend s space pdpt (tableIndex virtualAddress 30) true with
      | (s, space, none) => (s, space, false)
      | (s, space, some pd) =>
        match descend s space pd (tableIndex virtualAddress 21) true with
        | (s, space, none) => (s, space, false)
        | (s, space, some pt) =>
          let index := tableIndex virtualAddress 12
          if entryAt s.mem pt index &&& pagePresent ≠ 0 then (s, space, false)
          else
            let entry := physicalAddress ||| leafFlags space.nxEnabled writable executable
            (⟨setEntry s.mem pt index entry, s.pmm⟩, space, true)

/-! ## Walking -/

/-- One level of `paging_user_translate`. -/
def walkLevel (index : Nat) (refuseLarge : Bool) : Option UInt64 :=
  let entry := entryAt mem table index
  if entry &&& pagePresent = 0 ∨ entry &&& pageUser = 0 ∨
      (refuseLarge ∧ entry &&& pageLarge ≠ 0) then none
  else some (entry &&& pageAddressMask)

/-- The physical address and the flags of the leaf entry, if every level is user-accessible. -/
def pagingUserTranslate (space : UserSpace) (virtualAddress : UInt64) :
    Option (UInt64 × UInt64) :=
  if space.rootTable = 0 then none
  else
    match walkLevel mem space.rootTable (tableIndex virtualAddress 39) false with
    | none => none
    | some pdpt =>
      match walkLevel mem pdpt (tableIndex virtualAddress 30) true with
      | none => none
      | some pd =>
        match walkLevel mem pd (tableIndex virtualAddress 21) true with
        | none => none
        | some pt =>
          let entry := entryAt mem pt (tableIndex virtualAddress 12)
          if entry &&& pagePresent = 0 ∨ entry &&& pageUser = 0 then none
          else some ((entry &&& pageAddressMask) ||| (virtualAddress &&& 4095),
            entry &&& ~~~pageAddressMask)

/-! ## Words -/

theorem tableIndex_eq (address shift : UInt64) (h : shift.toNat < 64) :
    tableIndex address shift = address.toNat / 2 ^ shift.toNat % 512 := by
  unfold tableIndex
  rw [toNat_and_low _ 0x1FF 9 rfl, UInt64.toNat_shiftRight, Nat.mod_eq_of_lt h,
    Nat.shiftRight_eq_div_pow]
  rfl

theorem tableIndex_lt (address shift : UInt64) : tableIndex address shift < 512 := by
  unfold tableIndex
  rw [toNat_and_low _ 0x1FF 9 rfl]
  exact Nat.mod_lt _ (by decide)

/-- A page address a table entry can hold. -/
def PageAddress (a : UInt64) : Prop := a.toNat % 4096 = 0 ∧ a.toNat < 2 ^ 52

def tableEntry (child : UInt64) : UInt64 := child ||| pagePresent ||| pageWritable ||| pageUser

section TableEntry

variable {child : UInt64} (h : PageAddress child)

include h

theorem tableEntry_toNat : (tableEntry child).toNat = child.toNat + 7 := by
  have hassoc : tableEntry child = child ||| 7 := by
    unfold tableEntry
    rw [UInt64.or_assoc, UInt64.or_assoc]
    rfl
  rw [hassoc, toNat_or_of_lt child 7 12 h.1 (by decide)]
  rfl

theorem tableEntry_present : tableEntry child &&& pagePresent ≠ 0 := by
  rw [and_bit_ne_zero _ _ 0 (by decide), tableEntry_toNat h]
  have := h.1
  omega

theorem tableEntry_user : tableEntry child &&& pageUser ≠ 0 := by
  rw [and_bit_ne_zero _ _ 2 (by decide), tableEntry_toNat h]
  have := h.1
  omega

theorem tableEntry_large : tableEntry child &&& pageLarge = 0 := by
  rw [and_bit_eq_zero _ _ 7 (by decide), tableEntry_toNat h]
  have := h.1
  omega

theorem tableEntry_address : tableEntry child &&& pageAddressMask = child := by
  rw [← UInt64.toNat_inj, toNat_and_field _ _ 12 40 (by decide), tableEntry_toNat h]
  have h1 := h.1
  have h2 := h.2
  omega

end TableEntry

/-! ## Memory by pages -/

/-- The two memories agree on every page outside `frames`. -/
def SameOutside (frames : List Nat) (mem mem' : Mem) : Prop :=
  ∀ a, a / argusPageSize ∉ frames → mem' a = mem a

theorem SameOutside.refl (frames : List Nat) (mem : Mem) : SameOutside frames mem mem :=
  fun _ _ => rfl

theorem SameOutside.trans {frames frames' : List Nat} {mem mem' mem'' : Mem}
    (h : SameOutside frames mem mem') (h' : SameOutside frames' mem' mem'')
    (hsub : frames ⊆ frames') : SameOutside frames' mem mem'' := by
  intro a ha
  rw [h' a ha, h a (fun hm => ha (hsub hm))]

theorem SameOutside.mono {frames frames' : List Nat} {mem mem' : Mem}
    (h : SameOutside frames mem mem') (hsub : frames ⊆ frames') : SameOutside frames' mem mem' :=
  fun a ha => h a (fun hm => ha (hsub hm))

variable {page : UInt64}

/-- A store inside one page changes that page only. -/
theorem writeBytes_sameOutside (hpage : page.toNat % 4096 = 0) {offset n : Nat}
    (hn : offset + n ≤ 4096) (f : Nat → UInt8) :
    SameOutside [frameOf page] mem (writeBytes mem (page.toNat + offset) n f) := by
  intro a ha
  apply writeBytes_outside
  unfold frameOf argusPageSize at ha
  rw [List.mem_singleton] at ha
  omega

variable {index : Nat}

theorem setEntry_sameOutside {table : UInt64} (htable : table.toNat % 4096 = 0)
    (hindex : index < 512) (entry : UInt64) :
    SameOutside [frameOf table] mem (setEntry mem table index entry) :=
  writeBytes_sameOutside mem htable (by omega) _

theorem fillPage_sameOutside (hpage : page.toNat % 4096 = 0) {n : Nat} (hn : n ≤ 4096)
    (f : Nat → UInt8) : SameOutside [frameOf page] mem (writeBytes mem page.toNat n f) := by
  have := writeBytes_sameOutside mem hpage ((Nat.zero_add n).symm ▸ hn) f
  rwa [Nat.add_zero] at this

theorem zeroPage_sameOutside (hpage : page.toNat % 4096 = 0) :
    SameOutside [frameOf page] mem (zeroPage mem page) :=
  fillPage_sameOutside mem hpage (Nat.le_refl 4096) _

theorem entryAt_congr {mem mem' : Mem} {table : UInt64} (htable : table.toNat % 4096 = 0)
    (hindex : index < 512) (h : ∀ a, a / argusPageSize = frameOf table → mem' a = mem a) :
    entryAt mem' table index = entryAt mem table index := by
  apply load64_congr
  intro a h1 h2
  apply h
  unfold frameOf argusPageSize
  omega

theorem entryAt_setEntry (index : Nat) (entry : UInt64) :
    entryAt (setEntry mem table index entry) table index = entry :=
  load64_store64 ..

theorem entryAt_setEntry_of_ne {index' : Nat} (hne : index' ≠ index) (entry : UInt64) :
    entryAt (setEntry mem table index entry) table index' = entryAt mem table index' :=
  load64_store64_of_disjoint (by omega)

theorem entryAt_zeroPage (hindex : index < 512) : entryAt (zeroPage mem table) table index = 0 := by
  apply load64_zero
  intro a h1 h2
  exact writeBytes_inside (by omega) (by unfold argusPageSize; omega)

end ArgusOs.Memory
