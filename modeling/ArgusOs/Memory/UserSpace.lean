/-
  User spaces: created from the kernel root and mapped into.

  `pagingUserSpaceCreate_spec` and `pagingUserMapPage_exchange` state the two builders as
  exchanges of pages together with the map the tables represent afterwards.
-/
import ArgusOs.Memory.Exchange

namespace ArgusOs.Memory

open Lib Function

variable {space : UserSpace} {map : UserMap} {mem : Mem} {kernel : PagingInfo} {vpn : Nat}
  {s : Phys}

/-- What `paging_init` leaves behind of the kernel root: a page whose entries are all
    supervisor-only. -/
structure KernelRoot (mem : Mem) (kernel : PagingInfo) : Prop where
  page : PageAddress kernel.rootTable
  supervisor : ∀ index, index < 512 → entryAt mem kernel.rootTable index &&& pageUser = 0

theorem KernelRoot.frame {mem' : Mem} (h : KernelRoot mem kernel)
    (hsame : ∀ a, a / argusPageSize = frameOf kernel.rootTable → mem' a = mem a) :
    KernelRoot mem' kernel where
  page := h.page
  supervisor := fun index hi => by
    rw [entryAt_congr h.page.1 hi hsame]
    exact h.supervisor index hi

/-! ## Creation -/

/-- The root page after the copy: entry by entry the kernel's. -/
theorem entryAt_copy (mem : Mem) (root source : UInt64) {index : Nat} (hi : index < 512) :
    entryAt (writeBytes mem root.toNat argusPageSize fun i => mem (source.toNat + i)) root index =
      entryAt mem source index := by
  have hshift : ∀ n a b, (∀ i, i < n → writeBytes mem root.toNat argusPageSize
      (fun i => mem (source.toNat + i)) (a + i) = mem (b + i)) →
      loadLe (writeBytes mem root.toNat argusPageSize fun i => mem (source.toNat + i)) a n =
        loadLe mem b n := by
    intro n
    induction n with
    | zero =>
      intro a b _
      rfl
    | succ n ih =>
      intro a b h
      have h0 := h 0 (by omega)
      rw [Nat.add_zero, Nat.add_zero] at h0
      rw [loadLe, loadLe, h0, ih (a + 1) (b + 1)]
      intro i hlt
      rw [Nat.add_assoc, Nat.add_assoc, Nat.add_comm 1 i]
      exact h (i + 1) (by omega)
  unfold entryAt load64
  rw [hshift 8 _ (source.toNat + 8 * index)]
  intro i hlt
  rw [writeBytes_inside (by omega) (by unfold argusPageSize; omega)]
  congr 1
  omega

/-- A fresh root that copies the kernel's, with the user window absent, represents the empty
    map. -/
theorem rootedTree_root {outside : Nat → UInt64 → Prop}
    (hk : ∀ index, index < 512 → index ≠ 1 → outside index (entryAt mem kernel.rootTable index))
    {root : UInt64} (hpage : PageAddress root) (hne : root ≠ 0) (nx : Bool)
    (habsent : entryAt (writeBytes mem root.toNat argusPageSize fun i =>
      mem (kernel.rootTable.toNat + i)) root 1 &&& pagePresent = 0) :
    RootedTree outside
      (writeBytes mem root.toNat argusPageSize fun i => mem (kernel.rootTable.toNat + i))
      ⟨root, argusUserBase, [root], nx⟩ (update (fun _ => none) [] (some root))
      (fun _ => none) := by
  have hroot : ∀ (path : List Nat) (table : UInt64),
      update (fun _ => none) [] (some root) path = some table →
        path = [] ∧ table = root := by
    intro path table ht
    by_cases hp : path = []
    · rw [hp, update_self, Option.some.injEq] at ht
      exact ⟨hp, ht.symm⟩
    · rw [update_of_ne hp] at ht
      cases ht
  refine
    { root := update_self .., root_ne := hne, base := rfl, listed := ?_, pages := ?_,
      inj := ?_, parent := ?_, window := ?_, kernel := ?_, node := ?_, leaf := ?_,
      covered := ?_ }
  · intro path table ht
    simp [(hroot path table ht).2]
  · intro table hm
    rw [List.mem_singleton] at hm
    rw [hm]
    exact hpage
  · intro path path' table h h'
    rw [(hroot path table h).1, (hroot path' table h').1]
  · intro path index hc
    rw [update_of_ne (by simp)] at hc
    exact absurd rfl hc
  · intro index hc
    rw [update_of_ne (by simp)] at hc
    exact absurd rfl hc
  · intro index hi hne1
    show outside index (entryAt _ root index)
    rw [entryAt_copy mem root kernel.rootTable hi]
    exact hk index hi hne1
  · intro path table index ht hlen hi hwin
    obtain ⟨rfl, rfl⟩ := hroot path table ht
    rw [update_of_ne (by simp), hwin.resolve_left fun hc => hc rfl]
    exact habsent
  · intro vpn table _ ht
    exact absurd (hroot _ table ht).1 (by simp [tablePath])
  · intro vpn hc
    exact absurd rfl hc

/-- Creation copies the kernel's entries; whatever is known of them is known of the copies. -/
theorem pagingUserSpaceCreate_copies {outside : Nat → UInt64 → Prop} {s : Phys}
    (hok : PmmOk s.pmm) {kernel : PagingInfo} (hkpage : PageAddress kernel.rootTable)
    (hk : ∀ index, index < 512 → index ≠ 1 → outside index (entryAt s.mem kernel.rootTable index))
    {frames : List Nat} (hheld : Held s.pmm frames) (hroot : frameOf kernel.rootTable ∈ frames) :
    ∃ s' space done, pagingUserSpaceCreate s kernel .zero = (s', space, done) ∧
      Exchange s [] s' space.frames ∧
      ((done = true ∧ RepresentsWith outside s'.mem space (fun _ => none) ∧
          space.nxEnabled = kernel.nxEnabled ∧ space.tablePages.length = 1) ∨
        (done = false ∧ space.tablePages = [])) := by
  unfold pagingUserSpaceCreate
  split
  · exact ⟨s, .zero, false, rfl, Exchange.refl hok [], Or.inr ⟨rfl, rfl⟩⟩
  · rcases allocateUserTable_spec hok { UserSpace.zero with nxEnabled := kernel.nxEnabled } with
      heq | ⟨root, pmm', heq, hne, hpage, hok', hcount, hfree, hfresh⟩
    · rw [heq]
      exact ⟨s, _, false, rfl, Exchange.refl hok [], Or.inr ⟨rfl, rfl⟩⟩
    · rw [heq]
      dsimp only
      rw [if_neg hne]
      -- the kernel root is held, so the fresh page is another one
      have hother : frameOf kernel.rootTable ≠ frameOf root := by
        intro hc
        have := (List.nodup_cons.mp (hfresh frames hheld).nodup).1
        rw [← hc] at this
        exact this hroot
      have hk' : ∀ index, index < 512 → index ≠ 1 →
          outside index (entryAt (zeroPage s.mem root) kernel.rootTable index) := by
        intro index hi hne1
        rw [entryAt_congr hkpage.1 hi]
        · exact hk index hi hne1
        · intro a ha
          apply zeroPage_sameOutside s.mem hpage.1
          rw [ha, List.mem_singleton]
          exact hother
      have hsame : SameOutside [frameOf root] s.mem
          (writeBytes (zeroPage s.mem root) root.toNat argusPageSize fun i =>
            zeroPage s.mem root (kernel.rootTable.toNat + i)) := by
        refine (zeroPage_sameOutside s.mem hpage.1).trans ?_ (List.Subset.refl _)
        exact fillPage_sameOutside (zeroPage s.mem root) hpage.1 (Nat.le_refl 4096) _
      have htake : Exchange s [] ⟨writeBytes (zeroPage s.mem root) root.toNat argusPageSize fun i =>
          zeroPage s.mem root (kernel.rootTable.toNat + i), pmm'⟩ [frameOf root] := by
        have h1 : Exchange s [] ⟨s.mem, pmm'⟩ [frameOf root] :=
          { pmm_ok := hok', page_count := hcount, free := hfree, held := hfresh
            mem := fun _ _ _ _ => rfl }
        exact h1.trans (Exchange.store hok' hsame)
      have hindex : tableIndex argusUserBase 39 = 1 := by decide
      rw [hindex]
      split
      · -- the user window is taken: the root page goes back
        have hback := @pagingUserSpaceDestroy_exchange _ _ htake.pmm_ok
          ⟨0, 0, [root], kernel.nxEnabled⟩
          (fun t ht => by rw [List.mem_singleton] at ht; rw [ht]; exact hpage)
          (htake.held frames hheld)
        exact ⟨_, .zero, false, rfl, htake.trans hback.1, Or.inr ⟨rfl, rfl⟩⟩
      · next habsent =>
        rw [not_not] at habsent
        exact ⟨_, ⟨root, argusUserBase, [root], kernel.nxEnabled⟩, true, rfl, htake,
          Or.inl ⟨rfl, ⟨_, rootedTree_root hk' hpage hne kernel.nxEnabled habsent⟩, rfl, rfl⟩⟩

theorem pagingUserSpaceCreate_spec (hok : PmmOk s.pmm) (hk : KernelRoot s.mem kernel)
    {frames : List Nat} (hheld : Held s.pmm frames) (hroot : frameOf kernel.rootTable ∈ frames) :
    ∃ s' space done, pagingUserSpaceCreate s kernel .zero = (s', space, done) ∧
      Exchange s [] s' space.frames ∧
      ((done = true ∧ Represents s'.mem space (fun _ => none) ∧
          space.nxEnabled = kernel.nxEnabled ∧ space.tablePages.length = 1) ∨
        (done = false ∧ space.tablePages = [])) :=
  pagingUserSpaceCreate_copies hok hk.page (fun index hi _ => hk.supervisor index hi) hheld hroot

/-! ## Mapping -/

section

variable (h : Represents mem space map)

include h

theorem Represents.pages : ∀ t ∈ space.tablePages, PageAddress t := by
  obtain ⟨tables, ht⟩ := h
  exact ht.pages

theorem Represents.base : space.userBase = argusUserBase := by
  obtain ⟨tables, ht⟩ := h
  exact ht.base

theorem Represents.frame {mem' : Mem}
    (hsame : ∀ a, a / argusPageSize ∈ space.frames → mem' a = mem a) :
    Represents mem' space map := by
  obtain ⟨tables, ht⟩ := h
  exact ⟨tables, ht.frame hsame⟩

theorem Represents.translate (address : UInt64) :
    pagingUserTranslate mem space address =
      (map (vpnOf address)).map fun leaf =>
        ((leaf &&& pageAddressMask) ||| (address &&& 4095), leaf &&& ~~~pageAddressMask) := by
  obtain ⟨tables, ht⟩ := h
  exact ht.translate address

/-- A mapped page has its address in the user window, up to the bits the walk ignores. -/
theorem Represents.window (hm : map vpn ≠ none) : vpn / 2 ^ 27 = 1 := by
  obtain ⟨tables, ht⟩ := h
  exact ht.window _ (ht.tables_of_mapped hm).2.1

end

theorem pagingUserMapPage_exchange (hok : PmmOk s.pmm) (h : Represents s.mem space map)
    (hheld : Held s.pmm space.frames) (address physicalAddress : UInt64)
    (writable executable : Bool) :
    ∃ s' space' done, pagingUserMapPage s space address physicalAddress writable executable =
        (s', space', done) ∧
      Exchange s space.frames s' space'.frames ∧ SameOutside space'.frames s.mem s'.mem ∧
      space'.nxEnabled = space.nxEnabled ∧ space.frames ⊆ space'.frames ∧
      ((done = true ∧ MapArgs address physicalAddress ∧ map (vpnOf address) = none ∧
          Represents s'.mem space' (update map (vpnOf address)
            (some (leafEntry space.nxEnabled physicalAddress writable executable)))) ∨
        (done = false ∧ Represents s'.mem space' map)) := by
  obtain ⟨tables, ht⟩ := h
  obtain ⟨s', space', done, heq, hg, hout⟩ := pagingUserMapPage_spec hok ht hheld address
    physicalAddress writable executable
  refine ⟨s', space', done, heq, hg.exchange, hg.mem, hg.nx_eq, hg.frames_subset, ?_⟩
  rcases hout with hdone | ⟨hdone, hrep⟩
  · exact Or.inl hdone
  · exact Or.inr ⟨hdone, hrep⟩

end ArgusOs.Memory
