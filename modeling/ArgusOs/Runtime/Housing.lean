/-
  Where the pages are.

  `Housed` is the ownership of memory over a whole run: the pages of the kernel and the pages
  all processes own are different from each other and in use, every other page the allocator
  counts is free, a process that is there sees exactly its own pages (`Housing`), and a slot
  without a process owns nothing. Loads and releases are exchanges of pages; anything else is
  at most a store by user code, which lands in a data page of the process that runs.

  `process_isolation` and `lifecycle_conserves` read the two halves of this off: what a process can
  reach, and what is left when it is gone.
-/
import ArgusOs.Runtime.Resources

namespace ArgusOs.Runtime

open Lib Memory Capability Ipc Elf

/-! ## One process -/

structure Housing (kernel : PagingInfo) (phys : Phys) (p : Process) : Prop where
  mapped : ∃ map, Loaded kernel phys p map
  stack : p.stackVirtual = argusUserBase + userStackOffset
  surface : p.appId ≠ 0 → p.surfacePhysical ≠ 0 ∧ p.surfacePageCount = surfacePageCount

section Housing

variable {kernel : PagingInfo} {phys phys' : Phys} {p p' : Process} (h : Housing kernel phys p)

include h

theorem Housing.static (hs : Static p p') : Housing kernel phys p' where
  mapped := by
    obtain ⟨map, hmap⟩ := h.mapped
    exact ⟨map, hmap.same hs.toSameData⟩
  stack := by
    rw [hs.stackVirtual]
    exact h.stack
  surface := by
    rw [hs.appId, hs.surface, hs.count]
    exact h.surface

/-- Stores outside the tables do not matter. -/
theorem Housing.frame
    (hmem : ∀ a, a / argusPageSize ∈ p.addressSpace.frames → phys'.mem a = phys.mem a) :
    Housing kernel phys' p where
  mapped := by
    obtain ⟨map, hmap⟩ := h.mapped
    exact ⟨map, hmap.frame hmem⟩
  stack := h.stack
  surface := h.surface

/-- What a user address translates to: a byte of a data page, never writable and executable at
    once. -/
theorem Housing.translate {address physical flags : UInt64}
    (ht : pagingUserTranslate phys.mem p.addressSpace address = some (physical, flags)) :
    frameOf physical ∈ p.dataFrames ∧
      (kernel.nxEnabled = true → flags &&& pageWritable = 0 ∨ flags &&& pageNx ≠ 0) := by
  obtain ⟨map, hmap⟩ := h.mapped
  rw [hmap.rep.translate, Option.map_eq_some_iff] at ht
  obtain ⟨leaf, hleaf, heq⟩ := ht
  obtain ⟨page, writable, executable, rfl, hpage, hdata, hwx⟩ := hmap.leaves _ leaf hleaf
  obtain ⟨haddress, hwritable, hnx⟩ :=
    leafEntry_translation kernel.nxEnabled writable executable hpage address
  rw [Prod.mk.injEq] at heq
  rw [← heq.1, ← heq.2]
  constructor
  · have hframe : frameOf ((leafEntry kernel.nxEnabled page writable executable &&&
        pageAddressMask) ||| (address &&& 4095)) = frameOf page := by
      have halign := hpage.1
      unfold frameOf argusPageSize at *
      rw [haddress]
      omega
    rw [hframe]
    exact hdata
  · intro hon
    rcases hwx with hw | hx
    · left
      by_contra hc
      rw [hwritable.mp hc] at hw
      cases hw
    · exact Or.inr (hnx.mpr ⟨hx, hon⟩)

theorem Housing.guard :
    pagingUserTranslate phys.mem p.addressSpace (p.stackVirtual - UInt64.ofNat argusPageSize) =
      none := by
  obtain ⟨map, hmap⟩ := h.mapped
  rw [hmap.rep.translate, h.stack,
    show vpnOf (argusUserBase + userStackOffset - UInt64.ofNat argusPageSize) = guardVpn by decide,
    hmap.guard]
  rfl

end Housing

theorem LoadDone.housing {kernel : PagingInfo} {l l' : Loading} {pid : UInt64} {appId : UInt32}
    {x : Parts} {map : UserMap} {entry : UInt64}
    (h : LoadDone kernel l l' pid appId x map entry) : Housing kernel l'.phys l'.process where
  mapped := by
    rw [h.process]
    exact ⟨map, h.outfit.under.loaded.same ⟨rfl, rfl, rfl, rfl, rfl⟩⟩
  stack := by
    rw [h.process]
    rfl
  surface := by
    rw [h.process]
    intro happ
    exact ⟨(h.outfit.app happ).surface, if_neg happ⟩

/-! ## All processes -/

/-- The pages all processes own. -/
def Kernel.ownedPages (k : Kernel) : List Nat := gather fun i => (k.processes i).pages

/-- Ownership of memory: `frames` are the kernel's pages, which hold what they held in `mem₀`, and
    `total` is the number of pages there are for processes. -/
structure Housed (paging : PagingInfo) (mem₀ : Mem) (frames : List Nat) (total : Nat) (k : Kernel) :
    Prop where
  kernelPaging : k.kernelPaging = paging
  ok : PmmOk k.phys.pmm
  kernel : ∀ a, a / argusPageSize ∈ frames → k.phys.mem a = mem₀ a
  held : Held k.phys.pmm (frames ++ k.ownedPages)
  free : k.phys.pmm.freeCount + k.ownedPages.length = total
  idle : ∀ i, (k.processes i).state = .unused → Idle (k.processes i)
  live : ∀ i, k.Live i → Housing paging k.phys (k.processes i)

section Housed

variable {paging : PagingInfo} {mem₀ : Mem} {frames : List Nat} {total : Nat} {k k' : Kernel}
  (h : Housed paging mem₀ frames total k)

include h

/-- The pages of one slot, and all others that are held. -/
theorem Housed.held_slot (i : Fin 8) : Held k.phys.pmm ((k.processes i).pages ++
    (gatherOthers i (fun j => (k.processes j).pages) ++ frames)) := by
  apply h.held.perm
  refine List.perm_append_comm.trans ?_
  rw [← List.append_assoc]
  exact (gather_perm (fun j => (k.processes j).pages) i).append_right frames

/-- The pages of different processes, and of the kernel, are different. -/
theorem Housed.apart {i j : Fin 8} (hne : i ≠ j) {f : Nat} (hf : f ∈ (k.processes i).pages) :
    f ∉ (k.processes j).pages :=
  gather_apart (List.nodup_append.mp h.held.nodup).2.1 hne hf

variable {i : Fin 8}

theorem Housed.not_kernel {f : Nat} (hf : f ∈ (k.processes i).pages) : f ∉ frames := by
  intro hc
  exact (List.nodup_append.mp h.held.nodup).2.2 f hc f
    (mem_gather (f := fun i => (k.processes i).pages) hf) rfl

/-- A load may go ahead. -/
theorem Housed.loadPre (hroot : KernelRoot mem₀ paging) (hin : frameOf paging.rootTable ∈ frames) :
    LoadPre k.kernelPaging k.phys := by
  rw [h.kernelPaging]
  refine ⟨h.ok, hroot.frame ?_, _, h.held, List.mem_append_left _ hin⟩
  intro a ha
  apply h.kernel
  rw [ha]
  exact hin

/-- When a slot exchanges its pages, the others keep what is in theirs. -/
theorem Housed.others_keep {j : Fin 8} (hji : j ≠ i) {phys : Phys} {own : List Nat}
    (hex : Exchange k.phys (k.processes i).pages phys own) {a : Nat}
    (ha : a / argusPageSize ∈ (k.processes j).pages) : phys.mem a = k.phys.mem a :=
  hex.mem _ (h.held_slot i) a
    (List.mem_append_left _ (mem_gatherOthers (f := fun j => (k.processes j).pages) hji ha))

/-- One slot exchanges its pages. -/
theorem Housed.replace {l : Loading} (hsame : SameHold (k.store i l) k')
    (hex : Exchange k.phys (k.processes i).pages l.phys l.process.pages)
    (hidle : l.process.state = .unused → Idle l.process)
    (hlive : l.process.state ≠ .unused → Housing paging l.phys l.process) :
    Housed paging mem₀ frames total k' := by
  have hslot := h.held_slot i
  have hphys : k'.phys = l.phys := hsame.phys
  have hself : k'.processes i = l.process := by
    rw [hsame.processes]
    exact store_same k i l
  have hother : ∀ j, j ≠ i → k'.processes j = k.processes j := by
    intro j hj
    rw [hsame.processes]
    exact store_of_ne k l hj
  have hrest : gatherOthers i (fun j => (k'.processes j).pages) =
      gatherOthers i fun j => (k.processes j).pages :=
    gatherOthers_congr fun j hj => by rw [hother j hj]
  have hperm : k'.ownedPages.Perm
      (l.process.pages ++ gatherOthers i fun j => (k.processes j).pages) := by
    rw [← hrest, ← hself]
    exact gather_perm (fun j => (k'.processes j).pages) i
  refine ⟨hsame.paging.trans h.kernelPaging, ?_, ?_, ?_, ?_, ?_, ?_⟩
  · rw [hphys]
    exact hex.pmm_ok
  · intro a ha
    rw [hphys, hex.mem _ hslot a (List.mem_append_right _ ha)]
    exact h.kernel a ha
  · rw [hphys]
    apply (hex.held _ hslot).perm
    rw [← List.append_assoc]
    exact (List.perm_append_comm.trans (hperm.symm.append_left frames))
  · have hfree := hex.free
    have hold := h.free
    have hlen := hperm.length_eq
    have hlen' := (gather_perm (fun j => (k.processes j).pages) i).length_eq
    rw [List.length_append] at hlen hlen'
    unfold Kernel.ownedPages at hold
    rw [hphys]
    omega
  · intro j hj
    by_cases hji : j = i
    · rw [hji, hself] at hj ⊢
      exact hidle hj
    · rw [hother j hji] at hj ⊢
      exact h.idle j hj
  · intro j hj
    unfold Kernel.Live at hj
    by_cases hji : j = i
    · rw [hji, hself] at hj ⊢
      rw [hphys]
      exact hlive hj
    · rw [hother j hji] at hj ⊢
      rw [hphys]
      exact (h.live j hj).frame fun a ha => h.others_keep hji hex (List.mem_append_left _ ha)

/-- Records keep what they own, and memory changes in data pages of one process at most. -/
theorem Housed.keep (hpaging : k'.kernelPaging = k.kernelPaging)
    (hrecords : ∀ i, KeptRecord (k.processes i) (k'.processes i))
    (hpmm : k'.phys.pmm = k.phys.pmm) (i : Fin 8)
    (hmem : SameOutside (k.processes i).dataFrames k.phys.mem k'.phys.mem) :
    Housed paging mem₀ frames total k' := by
  have howned : k'.ownedPages = k.ownedPages := by
    unfold Kernel.ownedPages
    congr 1
    funext j
    exact (hrecords j).pages_eq
  refine ⟨hpaging.trans h.kernelPaging, ?_, ?_, ?_, ?_, ?_, ?_⟩
  · rw [hpmm]
    exact h.ok
  · intro a ha
    rw [hmem a]
    · exact h.kernel a ha
    · intro hc
      exact h.not_kernel (List.mem_append_right _ hc) ha
  · rw [hpmm, howned]
    exact h.held
  · rw [hpmm, howned]
    exact h.free
  · intro j hj
    have hr := hrecords j
    obtain ⟨-, hpages, hend⟩ := h.idle j (hr.live.mp hj)
    exact ⟨hj, by rw [hr.pages_eq, hpages], by rw [hr.ipcEndpoint, hend]⟩
  · intro j hj
    have hr := hrecords j
    refine ((h.live j (fun hc => hj (hr.live.mpr hc))).static hr.toStatic).frame ?_
    intro a ha
    apply hmem
    intro hc
    rw [hr.space] at ha
    by_cases hji : j = i
    · rw [hji] at ha
      exact data_not_table (h.held_slot i).left hc ha
    · exact h.apart hji (List.mem_append_left _ ha) (List.mem_append_right _ hc)

theorem Housed.user (hk : Kept k k') (hquiet : ∀ i, k.Live i → Quiet k i) :
    Housed paging mem₀ frames total k' := by
  rcases hk.effect with ⟨hphys, -, -⟩ | ⟨i, hrun, heffect⟩
  · exact h.keep hk.paging hk.records (by rw [hphys]) 0 (by rw [hphys]; exact SameOutside.refl _ _)
  · have hlive : k.Live i := by
      rw [Kernel.Live, hrun]
      decide
    cases heffect (hquiet i hlive) with
    | none hphys _ _ =>
      exact h.keep hk.paging hk.records (by rw [hphys]) i
        (by rw [hphys]; exact SameOutside.refl _ _)
    | store address physical flags value haddress _ hphys _ _ =>
      refine h.keep hk.paging hk.records (by rw [hphys]) i ?_
      have hdata : frameOf physical ∈ (k.processes i).dataFrames := by
        unfold userAddress at haddress
        split at haddress
        · cases haddress
        · exact ((h.live i hlive).translate haddress).1
      rw [hphys]
      intro a ha
      apply Function.update_of_ne
      intro hc
      rw [hc] at ha
      exact ha hdata

theorem Housed.release_exchange (hlive : k.Live i) :
    Exchange k.phys (k.processes i).pages (releaseProcess (k.loading i)).phys
      (releaseProcess (k.loading i)).process.pages := by
  obtain ⟨map, hmap⟩ := (h.live i hlive).mapped
  exact releaseProcess_exchange (l := k.loading i) h.ok hmap.pages (h.held_slot i).left

theorem Housed.release (hlive : k.Live i)
    (hsame : SameHold (k.release i) k') : Housed paging mem₀ frames total k' :=
  h.replace hsame (h.release_exchange hlive) (fun _ => idle_zero) fun hc => absurd rfl hc

section Load

variable {images : Images} (hroot : KernelRoot mem₀ paging)
  (hin : frameOf paging.rootTable ∈ frames)
  {i : Fin 8} {appId : UInt32} {l : Loading} {done : Bool} (hfree : (k.processes i).state = .unused)
  (hload : Loads images k i appId l done)

include hroot hin hfree hload

theorem Housed.load_exchange : Exchange k.phys (k.processes i).pages l.phys l.process.pages := by
  have hidle := h.idle i hfree
  rw [hidle.pages]
  rcases hload.spec (h.loadPre hroot hin) hidle with ⟨-, x, map, entry, hdone⟩ | ⟨-, hfailed⟩
  · exact hdone.exchange
  · rw [hfailed.idle.pages]
    exact hfailed.exchange

theorem Housed.load (hsame : SameHold (k.store i l) k') : Housed paging mem₀ frames total k' := by
  have hex := h.load_exchange hroot hin hfree hload
  rcases hload.spec (h.loadPre hroot hin) (h.idle i hfree) with
    ⟨-, x, map, entry, hdone⟩ | ⟨-, hfailed⟩
  · rw [h.kernelPaging] at hdone
    refine h.replace hsame hex ?_ fun _ => hdone.housing
    intro hun
    rw [hdone.process] at hun
    cases hun
  · exact h.replace hsame hex (fun _ => hfailed.idle) fun hc => absurd hfailed.idle.state hc

end Load

end Housed

end ArgusOs.Runtime
