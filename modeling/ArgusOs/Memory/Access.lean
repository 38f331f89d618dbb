/-
  Checks on user pointers: `user_range_readable` and `user_range_writable` of `process.c`.

  Before it dereferences an address that a user passed in, the kernel asks page by page
  whether the range is mapped. The walk of each page looks at bits 12 to 47 of the address
  only, while the dereference uses all 64: a range above bit 47 whose low 48 bits are mapped
  passes the check. `user_range_window_iff` says exactly which ranges are affected;
  `high_range_passes` is one.

  The loop over the pages runs on a counter of the pages left, which never runs out before
  the loop ends (`rangeScan_eq_true`).
-/
import ArgusOs.Memory.UserSpace

namespace ArgusOs.Memory

open Lib

/-- The loop of the two checks, from `page` up to `lastPage`. -/
def rangeScan (check : UInt64 → Bool) (lastPage : UInt64) : Nat → UInt64 → Bool
  | 0, _ => false
  | left + 1, page =>
    if check page = false then false
    else if page = lastPage then true
    else if page > 0xFFFFFFFFFFFFFFFF - 4096 then false
    else rangeScan check lastPage left (page + 4096)

/-- Both checks: they differ in what they ask of a page. -/
def userRange (check : UInt64 → Bool) (address length : UInt64) : Bool :=
  if length = 0 ∨ address > 0xFFFFFFFFFFFFFFFF - (length - 1) then false
  else
    let last := address + length - 1
    let page := address &&& ~~~4095
    let lastPage := last &&& ~~~4095
    rangeScan check lastPage ((lastPage.toNat - page.toNat) / argusPageSize + 1) page

def userRangeReadable (mem : Mem) (space : UserSpace) (address length : UInt64) : Bool :=
  userRange (fun page => (pagingUserTranslate mem space page).isSome) address length

def userRangeWritable (mem : Mem) (space : UserSpace) (address length : UInt64) : Bool :=
  userRange (fun page =>
    match pagingUserTranslate mem space page with
    | none => false
    | some (_, flags) => flags &&& pageWritable ≠ 0) address length

/-! ## What the checks decide -/

/-- The address of a page. -/
def pageAddress (page : Nat) : UInt64 := UInt64.ofNat (page * 4096)

theorem pageAddress_toNat (page : Nat) (h : page < 2 ^ 52) :
    (pageAddress page).toNat = page * 4096 := by
  unfold pageAddress
  rw [UInt64.toNat_ofNat']
  omega

theorem and_not_4095 (a : UInt64) : a &&& ~~~4095 = pageAddress (a.toNat / 4096) := by
  have hlt := a.toNat_lt
  rw [← UInt64.toNat_inj, toNat_and_field a _ 12 52 (by decide), pageAddress_toNat _ (by omega)]
  omega

theorem rangeScan_eq_true {check : UInt64 → Bool} {first last : Nat} (hle : first ≤ last)
    (hlast : last < 2 ^ 52) :
    rangeScan check (pageAddress last) (last - first + 1) (pageAddress first) = true ↔
      ∀ page, first ≤ page → page ≤ last → check (pageAddress page) = true := by
  obtain ⟨n, rfl⟩ := Nat.exists_eq_add_of_le hle
  rw [Nat.add_sub_cancel_left]
  -- on the number of pages left
  induction n generalizing first with
  | zero =>
    rw [rangeScan]
    constructor
    · intro h page h1 h2
      have : page = first := by omega
      subst this
      by_contra hc
      simp [hc] at h
    · intro h
      simp [h first (Nat.le_refl _) (Nat.le_refl _)]
  | succ n ih =>
    have hfirst := pageAddress_toNat first (by omega)
    have hend := pageAddress_toNat (first + (n + 1)) hlast
    have hne : pageAddress first ≠ pageAddress (first + (n + 1)) := by
      rw [Ne, ← UInt64.toNat_inj]
      omega
    have hmax : (0xFFFFFFFFFFFFFFFF - 4096 : UInt64).toNat = 2 ^ 64 - 4097 := by decide
    have hroom : ¬ pageAddress first > 0xFFFFFFFFFFFFFFFF - 4096 := by
      rw [gt_iff_lt, UInt64.lt_iff_toNat_lt, hmax]
      omega
    have hnext : pageAddress first + 4096 = pageAddress (first + 1) := by
      rw [← UInt64.toNat_inj, UInt64.toNat_add, hfirst, pageAddress_toNat _ (by omega)]
      show (first * 4096 + 4096) % 2 ^ 64 = (first + 1) * 4096
      omega
    have hshift : first + (n + 1) = first + 1 + n := by omega
    rw [rangeScan, if_neg hne, if_neg hroom, hnext, hshift]
    have ih' := @ih (first + 1) (by omega) (by omega)
    constructor
    · intro h page h1 h2
      by_cases hc : check (pageAddress first) = false
      · rw [if_pos hc] at h
        cases h
      · rw [if_neg hc] at h
        by_cases hp : page = first
        · rw [hp]
          simpa using hc
        · exact ih'.mp h page (by omega) (by omega)
    · intro h
      rw [if_neg (by simp [h first (Nat.le_refl _) (by omega)])]
      exact ih'.mpr fun page h1 h2 => h page (by omega) (by omega)

/-- A check passes when the range is not empty, does not wrap, and every page of it does. -/
theorem userRange_eq_true (check : UInt64 → Bool) (address length : UInt64) :
    userRange check address length = true ↔
      length ≠ 0 ∧ address.toNat + length.toNat ≤ 2 ^ 64 ∧
      ∀ page, address.toNat / 4096 ≤ page → page ≤ (address.toNat + length.toNat - 1) / 4096 →
        check (pageAddress page) = true := by
  have ha := address.toNat_lt
  have hl := length.toNat_lt
  unfold userRange
  by_cases h0 : length = 0
  · simp [h0]
  · have hpos : length.toNat ≠ 0 := fun h => h0 (UInt64.toNat_inj.mp h)
    have h1 : (length - 1).toNat = length.toNat - 1 :=
      UInt64.toNat_sub_of_le _ _ (by rw [UInt64.le_iff_toNat_le]; show 1 ≤ length.toNat; omega)
    have hover : address > 0xFFFFFFFFFFFFFFFF - (length - 1) ↔
        ¬ address.toNat + length.toNat ≤ 2 ^ 64 := by
      rw [gt_iff_lt, UInt64.lt_iff_toNat_lt, toNat_room, h1]
      omega
    by_cases hwrap : address.toNat + length.toNat ≤ 2 ^ 64
    · have hlastv : (address + length - 1).toNat = address.toNat + length.toNat - 1 := by
        have hone : (1 : UInt64).toNat = 1 := rfl
        rw [UInt64.toNat_sub, UInt64.toNat_add, hone]
        omega
      rw [if_neg (by rw [hover, not_or, not_not]; exact ⟨h0, hwrap⟩)]
      dsimp only
      rw [and_not_4095, and_not_4095, hlastv, pageAddress_toNat _ (by omega),
        pageAddress_toNat _ (by omega),
        show ((address.toNat + length.toNat - 1) / 4096 * 4096 - address.toNat / 4096 * 4096) /
          argusPageSize = (address.toNat + length.toNat - 1) / 4096 - address.toNat / 4096 by
          unfold argusPageSize; omega,
        rangeScan_eq_true (by omega) (by omega)]
      exact ⟨fun h => ⟨h0, hwrap, h⟩, fun h => h.2.2⟩
    · rw [if_pos (Or.inr (hover.mpr hwrap))]
      exact ⟨fun h => absurd h (by decide), fun h => absurd h.2.1 hwrap⟩

/-! ## Spaces built by `paging_user_map_page` -/

structure MapCall where
  virtualAddress : UInt64
  physicalAddress : UInt64
  writable : Bool
  executable : Bool

def mapStep (s : Phys × UserSpace) (call : MapCall) : Phys × UserSpace :=
  let (phys, space, _) := pagingUserMapPage s.1 s.2 call.virtualAddress call.physicalAddress
    call.writable call.executable
  (phys, space)

/-- A space made by `paging_user_space_create` and the calls that followed. -/
def mapRun (s : Phys) (kernel : PagingInfo) (calls : List MapCall) : Phys × UserSpace :=
  let (phys, space, _) := pagingUserSpaceCreate s kernel .zero
  calls.foldl mapStep (phys, space)

theorem foldl_mapStep_represents {s : Phys × UserSpace} {map : UserMap} (hok : PmmOk s.1.pmm)
    (h : Represents s.1.mem s.2 map) (hheld : Held s.1.pmm s.2.frames) (calls : List MapCall) :
    ∃ map', Represents (calls.foldl mapStep s).1.mem (calls.foldl mapStep s).2 map' := by
  induction calls generalizing s map with
  | nil => exact ⟨map, h⟩
  | cons call calls ih =>
    obtain ⟨s', space', done, heq, hex, -, -, -, hout⟩ := pagingUserMapPage_exchange hok h hheld
      call.virtualAddress call.physicalAddress call.writable call.executable
    have hstep : mapStep s call = (s', space') := by
      unfold mapStep
      rw [heq]
    have hheld' : Held s'.pmm space'.frames := by
      simpa using hex.held [] (by simpa using hheld)
    rw [List.foldl_cons, hstep]
    rcases hout with ⟨-, -, -, hrep⟩ | ⟨-, hrep⟩
    · exact ih hex.pmm_ok hrep hheld'
    · exact ih hex.pmm_ok hrep hheld'

theorem mapRun_represents {s : Phys} (hok : PmmOk s.pmm) {kernel : PagingInfo}
    (hk : KernelRoot s.mem kernel) {frames : List Nat} (hheld : Held s.pmm frames)
    (hroot : frameOf kernel.rootTable ∈ frames)
    (hcreate : (pagingUserSpaceCreate s kernel .zero).2.2 = true) (calls : List MapCall) :
    ∃ map, Represents (mapRun s kernel calls).1.mem (mapRun s kernel calls).2 map := by
  obtain ⟨s', space, done, heq, hex, hout⟩ := pagingUserSpaceCreate_spec hok hk hheld hroot
  have hrun : mapRun s kernel calls = calls.foldl mapStep (s', space) := by
    unfold mapRun
    rw [heq]
  rw [heq] at hcreate
  dsimp only at hcreate
  subst hcreate
  rcases hout with ⟨-, hrep, -, -⟩ | ⟨hd, -⟩
  · rw [hrun]
    exact foldl_mapStep_represents hex.pmm_ok hrep (hex.held frames hheld).left calls
  · cases hd

/-! ## The window -/

/-- Every byte of the range lies in the user window. -/
def InWindow (address length : UInt64) : Prop :=
  ∀ i, i < length.toNat → 2 ^ 39 ≤ address.toNat + i ∧ address.toNat + i < 2 ^ 39 + 2 ^ 39

/-- Every page of the range is mapped for the user, with the given flags set. -/
def PagesMapped (mem : Mem) (space : UserSpace) (address length flags : UInt64) : Prop :=
  ∀ page, address.toNat / 4096 ≤ page → page ≤ (address.toNat + length.toNat - 1) / 4096 →
    ∃ physical entryFlags,
      pagingUserTranslate mem space (pageAddress page) = some (physical, entryFlags) ∧
        entryFlags &&& flags = flags

section Window

variable {mem : Mem} {space : UserSpace} {map : UserMap}

theorem vpnOf_pageAddress {page : Nat} (h : page < 2 ^ 52) :
    vpnOf (pageAddress page) = page % 2 ^ 36 := by
  unfold vpnOf
  rw [pageAddress_toNat _ h]
  omega

/-- A page that translates has index 1 at the root. -/
theorem Represents.translate_window (h : Represents mem space map) (page : Nat)
    (hp : page < 2 ^ 52) (hsome : (pagingUserTranslate mem space (pageAddress page)).isSome) :
    page % 2 ^ 36 / 2 ^ 27 = 1 := by
  rw [← vpnOf_pageAddress hp]
  apply h.window
  intro hnone
  rw [h.translate, hnone] at hsome
  cases hsome

/-- A range below bit 48 all of whose pages translate is in the window. -/
theorem Represents.inWindow (h : Represents mem space map) {address length : UInt64}
    (hlow : address.toNat < 2 ^ 48) (hwrap : address.toNat + length.toNat ≤ 2 ^ 64)
    (hall : ∀ page, address.toNat / 4096 ≤ page →
      page ≤ (address.toNat + length.toNat - 1) / 4096 →
      (pagingUserTranslate mem space (pageAddress page)).isSome = true) :
    InWindow address length := by
  intro i hi
  have hfirst :=
    h.translate_window _ (by omega) (hall (address.toNat / 4096) (Nat.le_refl _) (by omega))
  -- the first page beyond the window has index 2, so the range cannot reach it
  have hend : (address.toNat + length.toNat - 1) / 4096 < 2 ^ 28 := by
    by_contra hc
    have := h.translate_window (2 ^ 28) (by omega) (hall (2 ^ 28) (by omega) (by omega))
    omega
  omega

theorem readable_mapped {address length : UInt64}
    (h : userRangeReadable mem space address length = true) :
    PagesMapped mem space address length 0 := by
  intro page h1 h2
  obtain ⟨-, -, hall⟩ := (userRange_eq_true _ address length).mp h
  obtain ⟨⟨physical, flags⟩, ht⟩ := Option.isSome_iff_exists.mp (hall page h1 h2)
  exact ⟨physical, flags, ht, UInt64.and_zero⟩

theorem writable_mapped {address length : UInt64}
    (h : userRangeWritable mem space address length = true) :
    PagesMapped mem space address length pageWritable := by
  intro page h1 h2
  obtain ⟨-, -, hall⟩ := (userRange_eq_true _ address length).mp h
  have hpage := hall page h1 h2
  cases ht : pagingUserTranslate mem space (pageAddress page) with
  | none =>
    rw [ht] at hpage
    cases hpage
  | some r =>
    rw [ht, decide_eq_true_eq] at hpage
    refine ⟨r.1, r.2, rfl, ?_⟩
    have hbit : pageWritable.toNat = 2 ^ 1 := by decide
    have hset := (and_bit_ne_zero r.2 pageWritable 1 hbit).mp hpage
    rw [← UInt64.toNat_inj, UInt64.toNat_and, hbit, nat_and_bit, hset, Nat.one_mul]

theorem writable_readable {address length : UInt64}
    (h : userRangeWritable mem space address length = true) :
    userRangeReadable mem space address length = true := by
  have hmapped := writable_mapped h
  obtain ⟨h0, hwrap, -⟩ := (userRange_eq_true _ address length).mp h
  refine (userRange_eq_true _ address length).mpr ⟨h0, hwrap, ?_⟩
  intro page h1 h2
  obtain ⟨physical, flags, ht, -⟩ := hmapped page h1 h2
  rw [ht]
  rfl

end Window

/-- **When the checks keep a range inside the user window.** Take a space built by
    `paging_user_space_create` and any calls of `paging_user_map_page`. For an address and a
    length, the guarantee "a range that passes lies in the user window, every page of it mapped
    for the user, and writable where `user_range_writable` passes" holds exactly when the address
    is below `2 ^ 48`, or the range is empty, wraps, or has a page that does not translate. -/
theorem user_range_window_iff (s : Phys) (hok : PmmOk s.pmm) (kernel : PagingInfo)
    (hk : KernelRoot s.mem kernel) (frames : List Nat) (hheld : Held s.pmm frames)
    (hroot : frameOf kernel.rootTable ∈ frames)
    (hcreate : (pagingUserSpaceCreate s kernel .zero).2.2 = true) (calls : List MapCall)
    (address length : UInt64) :
    ((userRangeReadable (mapRun s kernel calls).1.mem (mapRun s kernel calls).2 address length =
          true →
        InWindow address length ∧
        PagesMapped (mapRun s kernel calls).1.mem (mapRun s kernel calls).2 address length 0) ∧
      (userRangeWritable (mapRun s kernel calls).1.mem (mapRun s kernel calls).2 address length =
          true →
        InWindow address length ∧
        PagesMapped (mapRun s kernel calls).1.mem (mapRun s kernel calls).2 address length
          pageWritable)) ↔
    (address.toNat < 2 ^ 48 ∨ length = 0 ∨ address.toNat + length.toNat > 2 ^ 64 ∨
      ∃ page, address.toNat / 4096 ≤ page ∧ page ≤ (address.toNat + length.toNat - 1) / 4096 ∧
        pagingUserTranslate (mapRun s kernel calls).1.mem (mapRun s kernel calls).2
          (pageAddress page) = none) := by
  obtain ⟨map, hrep⟩ := mapRun_represents hok hk hheld hroot hcreate calls
  generalize (mapRun s kernel calls).1.mem = mem at hrep ⊢
  generalize (mapRun s kernel calls).2 = space at hrep ⊢
  constructor
  · intro h
    by_contra hc
    rw [not_or, not_or, not_or] at hc
    obtain ⟨hhigh, h0, hwrap, hpages⟩ := hc
    have hpass : userRangeReadable mem space address length = true := by
      refine (userRange_eq_true _ address length).mpr ⟨h0, by omega, ?_⟩
      intro page h1 h2
      rw [Option.isSome_iff_ne_none]
      intro hnone
      exact hpages ⟨page, h1, h2, hnone⟩
    have hpos : length.toNat ≠ 0 := fun h => h0 (UInt64.toNat_inj.mp h)
    have := (h.1 hpass).1 0 (by omega)
    omega
  · intro hc
    have key : userRangeReadable mem space address length = true → InWindow address length := by
      intro hpass
      obtain ⟨h0, hwrap, hall⟩ := (userRange_eq_true _ address length).mp hpass
      rcases hc with hc | hc | hc | ⟨page, h1, h2, hnone⟩
      · exact hrep.inWindow hc hwrap hall
      · exact absurd hc h0
      · omega
      · have := hall page h1 h2
        rw [hnone] at this
        cases this
    exact ⟨fun hr => ⟨key hr, readable_mapped hr⟩,
      fun hw => ⟨key (writable_readable hw), writable_mapped hw⟩⟩

/-- A machine with fifteen mebibytes of managed memory from the second mebibyte on, its first
    page taken by a kernel root without entries. -/
def sampleMachine : Phys where
  mem := fun _ => 0
  pmm :=
    { usableBitmap := fun b => if 32 ≤ b ∧ b < 512 then 0xFF else 0
      usedBitmap := fun b => if b = 32 then 0x01 else if 32 ≤ b ∧ b < 512 then 0 else 0xFF
      pageCount := 4096
      managedCount := 3840
      freeCount := 3839 }

def sampleKernel : PagingInfo := ⟨0x100000, true⟩

theorem sampleMachine_pmmOk : PmmOk sampleMachine.pmm := ⟨by decide, by decide⟩

theorem sampleMachine_kernelRoot : KernelRoot sampleMachine.mem sampleKernel where
  page := ⟨by decide, by decide⟩
  supervisor := fun index _ => by
    rw [show entryAt sampleMachine.mem sampleKernel.rootTable index = 0 from
      load64_zero fun _ _ _ => rfl]
    exact UInt64.zero_and

theorem sampleMachine_held : Held sampleMachine.pmm [256] where
  nodup := List.nodup_singleton 256
  lt := fun f hf => by rw [List.mem_singleton.mp hf]; decide
  usable := fun f hf => by rw [List.mem_singleton.mp hf]; decide
  used := fun f hf => by rw [List.mem_singleton.mp hf]; decide

/-- One read-only page at the code address. -/
def sampleCalls : List MapCall := [⟨0x8000001000, 0x300000, false, true⟩]

theorem user_range_window_iff_code_page :
    userRangeReadable (mapRun sampleMachine sampleKernel sampleCalls).1.mem
        (mapRun sampleMachine sampleKernel sampleCalls).2 0x8000001000 16 = true ∧
      InWindow 0x8000001000 16 := by
  have hpass : userRangeReadable (mapRun sampleMachine sampleKernel sampleCalls).1.mem
      (mapRun sampleMachine sampleKernel sampleCalls).2 0x8000001000 16 = true := by
    decide +kernel
  exact ⟨hpass, (((user_range_window_iff sampleMachine sampleMachine_pmmOk sampleKernel
    sampleMachine_kernelRoot [256] sampleMachine_held (by decide) (by decide +kernel) sampleCalls
    0x8000001000 16).mpr (Or.inl (by decide))).1 hpass).1⟩

/-- The same page with bit 48 set in its address passes the check as well, and is far outside
    the window: not even a canonical address. -/
theorem high_range_passes :
    userRangeReadable (mapRun sampleMachine sampleKernel sampleCalls).1.mem
        (mapRun sampleMachine sampleKernel sampleCalls).2 0x0001008000001000 1 = true ∧
      ¬ InWindow 0x0001008000001000 1 := by
  refine ⟨by decide +kernel, ?_⟩
  intro h
  exact absurd (h 0 (by decide)).2 (by decide)

end ArgusOs.Memory
