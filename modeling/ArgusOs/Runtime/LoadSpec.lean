/-
  What a load does: pages taken and given back, and the map the new process sees.

  `Loaded` is the state of a process under construction and of a finished one: its tables
  represent a map whose pages are its own data pages, never both writable and executable,
  with the page below the stack left out. Each step of a load either keeps it, adding to what
  the process owns, or releases everything; as exchanges of pages the steps compose
  (`prepareProcess_spec` and `loadPages_spec` of `Loaders`).

  Whatever else is held, by the kernel or by other processes, keeps its contents throughout.
-/
import ArgusOs.Runtime.Grants

namespace ArgusOs.Runtime

open Lib Memory Capability Ipc Elf Function

variable {p p' : Process} {mem : Mem} {phys : Phys} {physical : UInt64} {pmm : Pmm} {page : Nat}
  {l : Loading} {kernel : PagingInfo} {map : UserMap}

/-! ## Release -/

/-- The addresses a record holds are page addresses. -/
structure PagesOk (p : Process) : Prop where
  tables : ∀ t ∈ p.addressSpace.tablePages, PageAddress t
  image : ∀ a ∈ p.imagePhysical, PageAddress a ∧ a ≠ 0
  stack : p.stackPhysical ≠ 0 → PageAddress p.stackPhysical
  surface : p.surfacePhysical ≠ 0 → PageAddress p.surfacePhysical ∧ p.surfacePageCount ≠ 0

theorem freeImage_eq {pages : List UInt64} (h : ∀ a ∈ pages, a ≠ 0) (pmm : Pmm) :
    freeImage pmm pages = pages.foldl (fun pmm page => (pmmFreePage pmm page).1) pmm := by
  unfold freeImage
  induction pages generalizing pmm with
  | nil => rfl
  | cons page pages ih =>
    rw [List.foldl_cons, List.foldl_cons, if_neg (h page List.mem_cons_self),
      ih fun a ha => h a (List.mem_cons_of_mem page ha)]

theorem freeStack_exchange (hp : PagesOk p) {s : Phys} (hok : PmmOk s.pmm) {rest : List Nat}
    (hheld : Held s.pmm (p.stackFrames ++ rest)) :
    Exchange s p.stackFrames
      ⟨s.mem, if p.stackPhysical = 0 then s.pmm else (pmmFreePage s.pmm p.stackPhysical).1⟩ [] := by
  unfold Process.stackFrames at hheld ⊢
  by_cases h0 : p.stackPhysical = 0
  · rw [if_pos h0, if_pos h0]
    exact Exchange.refl hok []
  · rw [if_neg h0] at hheld
    rw [if_neg h0, if_neg h0]
    exact pmmFreePage_exchange hok (hp.stack h0) hheld

theorem freeSurface_exchange (hp : PagesOk p) {s : Phys} (hok : PmmOk s.pmm)
    {rest : List Nat} (hheld : Held s.pmm (p.surfaceFrames ++ rest)) :
    Exchange s p.surfaceFrames
      ⟨s.mem, if p.surfacePhysical = 0 ∨ p.surfacePageCount = 0 then s.pmm
        else (pmmReleasePages s.pmm p.surfacePhysical p.surfacePageCount).1⟩ [] := by
  unfold Process.surfaceFrames at hheld ⊢
  by_cases h0 : p.surfacePhysical = 0
  · rw [if_pos h0, if_pos (Or.inl h0)]
    exact Exchange.refl hok []
  · obtain ⟨hpage, hcount⟩ := hp.surface h0
    rw [if_neg h0] at hheld
    rw [if_neg h0, if_neg (by simp [h0, hcount])]
    have haddr : p.surfacePhysical.toNat = frameOf p.surfacePhysical * argusPageSize := by
      have := hpage.1
      unfold frameOf argusPageSize
      omega
    exact pmmReleasePages_exchange hok haddr hcount hheld

/-- Release gives back exactly what the record says. -/
theorem releaseProcess_exchange (hok : PmmOk l.phys.pmm) (hp : PagesOk l.process)
    (hheld : Held l.phys.pmm l.process.pages) :
    Exchange l.phys l.process.pages (releaseProcess l).phys [] := by
  have h1 := (pagingUserSpaceDestroy_exchange hok hp.tables hheld).1.extend l.process.dataFrames
  have hheld1 := h1.held_own hheld
  have h2 := (freePages_exchange _ (fun a ha => (hp.image a ha).1) h1.pmm_ok hheld1).extend
    (l.process.stackFrames ++ l.process.surfaceFrames)
  have hheld2 := h2.held_own hheld1
  have h3 := (freeStack_exchange hp h2.pmm_ok hheld2).extend l.process.surfaceFrames
  have hheld3 := h3.held_own hheld2
  have h4 := @freeSurface_exchange _ hp _ h3.pmm_ok [] (by rw [List.append_nil]; exact hheld3)
  have hall := ((h1.trans h2).trans h3).trans h4
  rw [← freeImage_eq fun a ha => (hp.image a ha).2] at hall
  exact hall

/-- The endpoint table after release. -/
def releasedIpc (ipc : Endpoints) (endpoint : UInt64) : Endpoints :=
  if endpoint = 0 then ipc else (ipcEndpointDestroy ipc endpoint).1

/-- Everything the load had taken is given back. -/
structure Abandoned (l l' : Loading) : Prop where
  process : l'.process = .zero
  exchange : Exchange l.phys l.process.pages l'.phys []
  ipc : l'.ipc = releasedIpc l.ipc l.process.ipcEndpoint

/-! ## A process under construction -/

/-- The page directly below the stack. -/
def guardVpn : Nat := 2 ^ 27 + 0x1FF

structure Loaded (kernel : PagingInfo) (phys : Phys) (p : Process) (map : UserMap) : Prop where
  pages : PagesOk p
  rep : Represents phys.mem p.addressSpace map
  nx : p.addressSpace.nxEnabled = kernel.nxEnabled
  leaves : ∀ vpn leaf, map vpn = some leaf → ∃ physical writable executable,
    leaf = leafEntry kernel.nxEnabled physical writable executable ∧ PageAddress physical ∧
      frameOf physical ∈ p.dataFrames ∧ (writable = false ∨ executable = false)
  guard : map guardVpn = none

/-- Stores outside the table pages do not matter. -/
theorem Loaded.frame {phys' : Phys} (h : Loaded kernel phys p map)
    (hmem : ∀ a, a / argusPageSize ∈ p.addressSpace.frames → phys'.mem a = phys.mem a) :
    Loaded kernel phys' p map :=
  { h with rep := h.rep.frame hmem }

/-- More data pages may be recorded, and fields a load does not depend on may change. -/
theorem Loaded.record (h : Loaded kernel phys p map) (hspace : p'.addressSpace = p.addressSpace)
    (hpages : PagesOk p') (hdata : ∀ f ∈ p.dataFrames, f ∈ p'.dataFrames) :
    Loaded kernel phys p' map where
  pages := hpages
  rep := by
    rw [hspace]
    exact h.rep
  nx := by
    rw [hspace]
    exact h.nx
  leaves := by
    intro vpn leaf hm
    obtain ⟨physical, writable, executable, hleaf, hpage, hf, hwx⟩ := h.leaves vpn leaf hm
    exact ⟨physical, writable, executable, hleaf, hpage, hdata _ hf, hwx⟩
  guard := h.guard

/-- A load in progress: it owns the pages of its record, which represent `map`. -/
structure Under (kernel : PagingInfo) (l : Loading) (map : UserMap) : Prop where
  ok : PmmOk l.phys.pmm
  held : Held l.phys.pmm l.process.pages
  loaded : Loaded kernel l.phys l.process map

/-- The fields that say which pages a process has. -/
structure SameData (p p' : Process) : Prop where
  space : p'.addressSpace = p.addressSpace
  image : p'.imagePhysical = p.imagePhysical
  stack : p'.stackPhysical = p.stackPhysical
  surface : p'.surfacePhysical = p.surfacePhysical
  count : p'.surfacePageCount = p.surfacePageCount

theorem SameData.data_eq (h : SameData p p') : p'.dataFrames = p.dataFrames := by
  simp only [Process.dataFrames, Process.imageFrames, Process.stackFrames, Process.surfaceFrames,
    h.image, h.stack, h.surface, h.count]

theorem SameData.pages_eq (h : SameData p p') : p'.pages = p.pages := by
  unfold Process.pages
  rw [h.space, h.data_eq]

theorem SameData.pages_ok (h : SameData p p') (hp : PagesOk p) : PagesOk p' where
  tables := by
    rw [h.space]
    exact hp.tables
  image := by
    rw [h.image]
    exact hp.image
  stack := by
    rw [h.stack]
    exact hp.stack
  surface := by
    rw [h.surface, h.count]
    exact hp.surface

theorem Loaded.same (h : Loaded kernel phys p map) (hsame : SameData p p') :
    Loaded kernel phys p' map :=
  h.record hsame.space (hsame.pages_ok h.pages) fun f hf => by
    rw [hsame.data_eq]
    exact hf

theorem Under.same (h : Under kernel l map) (hsame : SameData l.process p) (ipc : Endpoints) :
    p.pages = l.process.pages ∧ Under kernel ⟨l.phys, ipc, p⟩ map := by
  have hpages := hsame.pages_eq
  refine ⟨hpages, h.ok, ?_, h.loaded.same hsame⟩
  show Held l.phys.pmm p.pages
  rw [hpages]
  exact h.held

theorem Under.release (h : Under kernel l map) : Abandoned l (releaseProcess l) where
  process := rfl
  exchange := releaseProcess_exchange h.ok h.loaded.pages h.held
  ipc := rfl

theorem data_not_table (h : Held pmm p.pages) {f : Nat} (hf : f ∈ p.dataFrames) :
    f ∉ p.addressSpace.frames := by
  intro hc
  exact (List.nodup_append.mp h.nodup).2.2 f hc f hf rfl

/-- The load with memory and page tables replaced. -/
def Loading.withSpace (l : Loading) (phys : Phys) (space : UserSpace) : Loading :=
  ⟨phys, l.ipc, { l.process with addressSpace := space }⟩

/-- The tables still represent the map while a data page is being filled. -/
theorem Under.rep_fill (h : Under kernel l map)
    (hmem : SameOutside [frameOf physical] l.phys.mem mem)
    (hdata : frameOf physical ∈ l.process.dataFrames) :
    Represents mem l.process.addressSpace map := by
  have hnot := data_not_table h.held hdata
  apply h.loaded.rep.frame
  intro a ha
  apply hmem
  rw [List.mem_singleton]
  intro hc
  rw [hc] at ha
  exact hnot ha

/-- Filling an owned data page and mapping it: the page joins the map, or the map stays. -/
theorem Under.map_page (h : Under kernel l map) {address : UInt64}
    {writable executable : Bool} (hmem : SameOutside [frameOf physical] l.phys.mem mem)
    (hpage : PageAddress physical) (hdata : frameOf physical ∈ l.process.dataFrames)
    (hwx : writable = false ∨ executable = false) (hguard : vpnOf address ≠ guardVpn) :
    ∃ phys space done, pagingUserMapPage ⟨mem, l.phys.pmm⟩ l.process.addressSpace address
        physical writable executable = (phys, space, done) ∧
      Exchange l.phys l.process.pages phys (l.withSpace phys space).process.pages ∧
      SameOutside space.frames mem phys.mem ∧ l.process.addressSpace.frames ⊆ space.frames ∧
      ((done = true ∧ map (vpnOf address) = none ∧ Under kernel (l.withSpace phys space)
          (update map (vpnOf address)
            (some (leafEntry kernel.nxEnabled physical writable executable)))) ∨
        (done = false ∧ Under kernel (l.withSpace phys space) map)) := by
  have hrep := h.rep_fill hmem hdata
  obtain ⟨phys, space, done, heq, hex, hsame, hnx, hsub, hout⟩ :=
    pagingUserMapPage_exchange (s := ⟨mem, l.phys.pmm⟩) h.ok hrep h.held.left address
      physical writable executable
  have hstore : Exchange l.phys l.process.pages ⟨mem, l.phys.pmm⟩ l.process.pages := by
    refine @Exchange.store _ l.phys.mem _ _ h.ok (hmem.mono ?_)
    intro f hf
    rw [List.mem_singleton] at hf
    rw [hf]
    exact List.mem_append_right _ hdata
  have hall : Exchange l.phys l.process.pages phys (l.withSpace phys space).process.pages :=
    hstore.trans (hex.extend l.process.dataFrames)
  have hunder : ∀ map', Represents phys.mem space map' → map' guardVpn = none →
      (∀ vpn leaf, map' vpn = some leaf → map vpn = some leaf ∨
        leaf = leafEntry kernel.nxEnabled physical writable executable) →
      Under kernel (l.withSpace phys space) map' := by
    intro map' hm hg hl
    refine ⟨hall.pmm_ok, hall.held_own h.held, { h.loaded.pages with tables := hm.pages }, hm,
      hnx.trans h.loaded.nx, ?_, hg⟩
    intro vpn leaf hv
    rcases hl vpn leaf hv with hold | hnew
    · exact h.loaded.leaves vpn leaf hold
    · exact ⟨physical, writable, executable, hnew, hpage, hdata, hwx⟩
  refine ⟨phys, space, done, heq, hall, hsame, hsub, ?_⟩
  rcases hout with ⟨hd, -, hfree, hrep'⟩ | ⟨hd, hrep'⟩
  · left
    rw [show l.process.addressSpace.nxEnabled = kernel.nxEnabled from h.loaded.nx] at hrep'
    refine ⟨hd, hfree, hunder _ hrep' ?_ ?_⟩
    · rw [update_of_ne (Ne.symm hguard)]
      exact h.loaded.guard
    · intro vpn leaf hm
      by_cases hv : vpn = vpnOf address
      · rw [hv, update_self, Option.some.injEq] at hm
        exact Or.inr hm.symm
      · rw [update_of_ne hv] at hm
        exact Or.inl hm
  · exact Or.inr ⟨hd, hunder _ hrep' h.loaded.guard fun _ _ hm => Or.inl hm⟩

/-- Newly taken pages enter the record. -/
theorem Under.record (h : Under kernel l map) {frames : List Nat}
    (hex : Exchange l.phys [] ⟨l.phys.mem, pmm⟩ frames)
    (hspace : p.addressSpace = l.process.addressSpace) (hpages : PagesOk p)
    (hperm : (frames ++ l.process.dataFrames).Perm p.dataFrames) (ipc : Endpoints) :
    Exchange l.phys l.process.pages ⟨l.phys.mem, pmm⟩ p.pages ∧
      Under kernel ⟨⟨l.phys.mem, pmm⟩, ipc, p⟩ map := by
  have hown : (frames ++ l.process.pages).Perm p.pages := by
    unfold Process.pages
    rw [hspace]
    refine (List.perm_append_comm_assoc ..).trans ?_
    exact hperm.append_left _
  have hall : Exchange l.phys l.process.pages ⟨l.phys.mem, pmm⟩ p.pages :=
    (hex.extend l.process.pages).perm (List.Perm.refl _) hown
  have hdata : ∀ f ∈ l.process.dataFrames, f ∈ p.dataFrames := fun f hf =>
    hperm.mem_iff.mp (List.mem_append_right frames hf)
  refine ⟨hall, hall.pmm_ok, hall.held_own h.held, ?_⟩
  exact (h.loaded.record hspace hpages hdata).frame fun _ _ => rfl

/-! ## The stack page -/

/-- Every byte of these pages is zero. -/
def Cleared (mem : Mem) (frames : List Nat) : Prop := ∀ a, a / argusPageSize ∈ frames → mem a = 0

theorem zeroPage_cleared (mem : Mem) {page : UInt64} (hpage : PageAddress page) :
    Cleared (zeroPage mem page) [frameOf page] := by
  intro a ha
  rw [List.mem_singleton] at ha
  have := hpage.1
  unfold zeroPage
  unfold frameOf argusPageSize at *
  rw [writeBytes_inside (by omega) (by omega)]

theorem Cleared.frame {mem' : Mem} {frames touched : List Nat} (h : Cleared mem frames)
    (hsame : SameOutside touched mem mem') (hdisj : ∀ f ∈ frames, f ∉ touched) :
    Cleared mem' frames := by
  intro a ha
  rw [hsame a (hdisj _ ha)]
  exact h a ha

theorem mapZeroed_spec (h : Under kernel l map) (address : UInt64)
    (hpage : PageAddress physical) (hdata : frameOf physical ∈ l.process.dataFrames)
    (hguard : vpnOf address ≠ guardVpn) :
    ∃ phys space done,
      mapZeroed l address physical true false = (l.withSpace phys space, done) ∧
      Exchange l.phys l.process.pages phys (l.withSpace phys space).process.pages ∧
      SameOutside (frameOf physical :: space.frames) l.phys.mem phys.mem ∧
      l.process.addressSpace.frames ⊆ space.frames ∧
      ((done = true ∧ Cleared phys.mem [frameOf physical] ∧ map (vpnOf address) = none ∧
          Under kernel (l.withSpace phys space) (update map (vpnOf address)
            (some (leafEntry kernel.nxEnabled physical true false)))) ∨
        (done = false ∧ Under kernel (l.withSpace phys space) map)) := by
  have hzero := zeroPage_sameOutside l.phys.mem hpage.1
  obtain ⟨phys, space, done, heq, hex, hsame, hsub, hout⟩ :=
    h.map_page hzero hpage hdata (Or.inr rfl) hguard
  refine ⟨phys, space, done, ?_, hex, ?_, hsub, ?_⟩
  · unfold mapZeroed
    rw [heq]
    rfl
  · intro a ha
    rw [List.mem_cons, not_or] at ha
    rw [hsame a ha.2, hzero a (by rw [List.mem_singleton]; exact ha.1)]
  · rcases hout with ⟨hd, hfree, hunder⟩ | ⟨hd, hunder⟩
    · refine Or.inl ⟨hd, ?_, hfree, hunder⟩
      refine (zeroPage_cleared l.phys.mem hpage).frame hsame ?_
      intro f hf
      rw [List.mem_singleton] at hf
      rw [hf]
      exact data_not_table hunder.held hdata
    · exact Or.inr ⟨hd, hunder⟩

/-- The record with its stack page. -/
def withStack (l : Loading) (phys : Phys) (space : UserSpace) (stack : UInt64) : Loading :=
  ⟨phys, l.ipc, { l.process with
    addressSpace := space
    stackVirtual := l.process.addressSpace.userBase + userStackOffset
    stackPhysical := stack }⟩

def stackVpn : Nat := 2 ^ 27 + 0x200

theorem vpnOf_stack : vpnOf (argusUserBase + userStackOffset) = stackVpn := by decide

theorem Under.record_stack (h : Under kernel l map) (hstack : l.process.stackPhysical = 0)
    {stack : UInt64} (hne : stack ≠ 0) (hpage : PageAddress stack)
    (hex : Exchange l.phys [] ⟨l.phys.mem, pmm⟩ [frameOf stack]) (stackVirtual : UInt64) :
    Exchange l.phys l.process.pages ⟨l.phys.mem, pmm⟩
        { l.process with stackVirtual := stackVirtual, stackPhysical := stack }.pages ∧
      Under kernel ⟨⟨l.phys.mem, pmm⟩, l.ipc,
        { l.process with stackVirtual := stackVirtual, stackPhysical := stack }⟩ map ∧
      frameOf stack ∈
        { l.process with stackVirtual := stackVirtual, stackPhysical := stack }.dataFrames := by
  have hperm : ([frameOf stack] ++ l.process.dataFrames).Perm
      { l.process with stackVirtual := stackVirtual, stackPhysical := stack }.dataFrames := by
    simp only [Process.dataFrames, Process.stackFrames, Process.imageFrames,
      Process.surfaceFrames, if_pos hstack, if_neg hne, List.nil_append, List.singleton_append]
    exact List.perm_middle.symm
  obtain ⟨hex1, hunder1⟩ := h.record hex
    (p := { l.process with stackVirtual := stackVirtual, stackPhysical := stack }) rfl
    ⟨h.loaded.pages.tables, h.loaded.pages.image, fun _ => hpage, h.loaded.pages.surface⟩ hperm
    l.ipc
  exact ⟨hex1, hunder1, hperm.mem_iff.mp List.mem_cons_self⟩

theorem prepareStack_spec (h : Under kernel l map) (hstack : l.process.stackPhysical = 0) :
    ∃ l' done, prepareStack l = (l', done) ∧
      ((done = true ∧ ∃ phys space stack, l' = withStack l phys space stack ∧ stack ≠ 0 ∧
          Exchange l.phys l.process.pages l'.phys l'.process.pages ∧
          Under kernel l' (update map stackVpn
            (some (leafEntry kernel.nxEnabled stack true false))) ∧
          Cleared l'.phys.mem [frameOf stack]) ∨
        (done = false ∧ Abandoned l l')) := by
  have hvpn : vpnOf (l.process.addressSpace.userBase + userStackOffset) = stackVpn := by
    rw [h.loaded.rep.base, vpnOf_stack]
  unfold prepareStack
  rcases pmmAllocPage_exchange (s := l.phys) h.ok with hnone | ⟨stack, pmm, heq, hne, hpage, hex⟩
  · -- nothing was taken for the stack; the tables go back
    rw [hnone]
    obtain ⟨hpages, hunder⟩ := h.same (p := { l.process with
      stackVirtual := l.process.addressSpace.userBase + userStackOffset
      stackPhysical := 0 }) ⟨rfl, rfl, hstack.symm, rfl, rfl⟩ l.ipc
    have hrel := hunder.release
    exact ⟨_, false, rfl, Or.inr ⟨rfl, hrel.process, hpages ▸ hrel.exchange, hrel.ipc⟩⟩
  · rw [heq]
    dsimp only
    rw [if_neg hne]
    obtain ⟨hex1, hunder1, hin⟩ := h.record_stack hstack hne hpage hex
      (l.process.addressSpace.userBase + userStackOffset)
    obtain ⟨phys, space, done, hmap, hex2, -, -, hout⟩ := mapZeroed_spec hunder1
      (l.process.addressSpace.userBase + userStackOffset) hpage hin (by
        rw [hvpn]
        decide)
    rw [hmap]
    dsimp only
    rcases hout with ⟨hd, hclear, -, hunder2⟩ | ⟨hd, hunder2⟩
    · rw [hd, if_neg (by decide)]
      rw [hvpn] at hunder2
      exact ⟨_, true, rfl, Or.inl ⟨rfl, phys, space, stack, rfl, hne, hex1.trans hex2, hunder2,
        hclear⟩⟩
    · rw [hd, if_pos rfl]
      have hrel := hunder2.release
      exact ⟨_, false, rfl, Or.inr ⟨rfl, hrel.process, (hex1.trans hex2).trans hrel.exchange,
        hrel.ipc⟩⟩

/-! ## The surface -/

def surfaceVpn : Nat := 2 ^ 27 + 0x400

/-- The address of a page of a run. -/
def pageAt (first : UInt64) (page : Nat) : UInt64 :=
  first + UInt64.ofNat page * UInt64.ofNat argusPageSize

theorem pageOffset_toNat (page : Nat) (h : page < 2 ^ 40) :
    (UInt64.ofNat page * UInt64.ofNat argusPageSize).toNat = page * 4096 := by
  rw [UInt64.toNat_mul, UInt64.toNat_ofNat', UInt64.toNat_ofNat']
  unfold argusPageSize
  omega

/-- A run of pages below the last frame the allocator has. -/
structure RunOk (first : UInt64) (count : Nat) : Prop where
  page : PageAddress first
  fits : frameOf first + count ≤ 2 ^ 35

theorem RunOk.page_at {first : UInt64} {count : Nat} (h : RunOk first count) (hlt : page < count) :
    PageAddress (pageAt first page) ∧ frameOf (pageAt first page) = frameOf first + page := by
  have halign := h.page.1
  have hfits := h.fits
  unfold frameOf argusPageSize at *
  have hoff := pageOffset_toNat page (by omega)
  have hat : (pageAt first page).toNat = first.toNat + page * 4096 := by
    unfold pageAt
    rw [UInt64.toNat_add, hoff]
    omega
  refine ⟨⟨?_, ?_⟩, ?_⟩ <;> rw [hat] <;> omega

theorem vpnOf_surface (h : page < 2 ^ 20) :
    vpnOf (argusUserBase + userSurfaceOffset + UInt64.ofNat page * UInt64.ofNat argusPageSize) =
      surfaceVpn + page := by
  have hoff := pageOffset_toNat page (by omega)
  have hbase : (argusUserBase + userSurfaceOffset).toNat = 2 ^ 39 + 0x400000 := by decide
  unfold vpnOf surfaceVpn
  rw [UInt64.toNat_add, hoff, hbase]
  omega

/-- The surface pages from `page` on are mapped writable, in order. -/
def SurfaceMapped (kernel : PagingInfo) (map : UserMap) (surface : UInt64)
    (page left : Nat) : Prop :=
  ∀ i, page ≤ i → i < page + left →
    map (surfaceVpn + i) = some (leafEntry kernel.nxEnabled (pageAt surface i) true false)

/-- What is mapped stays mapped. -/
def Extends (map map' : UserMap) : Prop := ∀ vpn, map vpn ≠ none → map' vpn = map vpn

theorem Extends.refl (map : UserMap) : Extends map map := fun _ _ => rfl

theorem Extends.trans {map' map'' : UserMap} (h : Extends map map') (h' : Extends map' map'') :
    Extends map map'' := by
  intro vpn hv
  rw [h' vpn (by rw [h vpn hv]; exact hv), h vpn hv]

theorem extends_update {vpn : Nat} (h : map vpn = none) (leaf : Option UInt64) :
    Extends map (update map vpn leaf) := by
  intro v hv
  apply update_of_ne
  intro hc
  rw [hc] at hv
  exact hv h

/-- What the loop that maps the surface leaves behind. -/
structure SurfaceDone (kernel : PagingInfo) (l : Loading) (map : UserMap) (page left : Nat)
    (phys : Phys) (space : UserSpace) (map' : UserMap) : Prop where
  exchange : Exchange l.phys l.process.pages phys (l.withSpace phys space).process.pages
  under : Under kernel (l.withSpace phys space) map'
  mapped : SurfaceMapped kernel map' l.process.surfacePhysical page left
  old : Extends map map'
  only : ∀ vpn, map' vpn ≠ none → map vpn ≠ none ∨
    (surfaceVpn + page ≤ vpn ∧ vpn < surfaceVpn + page + left)
  tables : l.process.addressSpace.frames ⊆ space.frames
  mem : SameOutside (List.range' (frameOf l.process.surfacePhysical + page) left ++ space.frames)
    l.phys.mem phys.mem
  cleared : Cleared phys.mem (List.range' (frameOf l.process.surfacePhysical + page) left)

theorem surface_mem_data (hne : p.surfacePhysical ≠ 0) (h : page < p.surfacePageCount) :
    frameOf p.surfacePhysical + page ∈ p.dataFrames := by
  apply List.mem_append_right
  apply List.mem_append_right
  unfold Process.surfaceFrames
  rw [if_neg hne, List.mem_range'_1]
  omega

theorem SurfaceDone.cons {map' : UserMap} {left : Nat}
    {phys' : Phys} {space space' : UserSpace} (hne : l.process.surfacePhysical ≠ 0)
    (hlt : page < l.process.surfacePageCount)
    (hframe : frameOf (pageAt l.process.surfacePhysical page) =
      frameOf l.process.surfacePhysical + page) (hfree : map (surfaceVpn + page) = none)
    (hex : Exchange l.phys l.process.pages phys (l.withSpace phys space).process.pages)
    (hsame : SameOutside (frameOf (pageAt l.process.surfacePhysical page) :: space.frames)
      l.phys.mem phys.mem) (hsub : l.process.addressSpace.frames ⊆ space.frames)
    (hclear : Cleared phys.mem [frameOf (pageAt l.process.surfacePhysical page)])
    (h : SurfaceDone kernel (l.withSpace phys space) (update map (surfaceVpn + page)
      (some (leafEntry kernel.nxEnabled (pageAt l.process.surfacePhysical page) true false)))
      (page + 1) left phys' space' map') :
    SurfaceDone kernel l map page (left + 1) phys' space' map' where
  exchange := hex.trans h.exchange
  under := h.under
  mapped := by
    intro i hi hi'
    by_cases hp : i = page
    · rw [hp, h.old _ (by rw [update_self]; exact Option.some_ne_none _),
        update_self]
    · exact h.mapped i (by omega) (by omega)
  old := (extends_update hfree _).trans h.old
  only := by
    intro vpn hv
    by_cases hp : vpn = surfaceVpn + page
    · exact Or.inr (by omega)
    · rcases h.only vpn hv with hold | hnew
      · rw [update_of_ne hp] at hold
        exact Or.inl hold
      · exact Or.inr (by omega)
  tables := fun _ hf => h.tables (hsub hf)
  mem := by
    intro a ha
    rw [List.range'_succ, List.cons_append, List.mem_cons, not_or, List.mem_append, not_or] at ha
    have hlater := h.mem a (by
      rw [List.mem_append, not_or]
      exact ha.2)
    have hfirst := hsame a (by
      rw [hframe, List.mem_cons, not_or]
      exact ⟨ha.1, fun hc => ha.2.2 (h.tables hc)⟩)
    exact hlater.trans hfirst
  cleared := by
    intro a ha
    rw [List.range'_succ, List.mem_cons] at ha
    rcases ha with ha | ha
    · -- the first page is neither a later surface page nor a table
      have hdata := data_not_table h.under.held (surface_mem_data hne hlt)
      rw [h.mem a]
      · exact hclear a (by rw [hframe, List.mem_singleton]; exact ha)
      · rw [List.mem_append, not_or, ha]
        refine ⟨?_, hdata⟩
        show ¬ _ ∈ List.range' (frameOf l.process.surfacePhysical + (page + 1)) left
        rw [List.mem_range'_1]
        omega
    · exact h.cleared a ha

theorem mapSurface_spec {count : Nat} (hcount : count < 2 ^ 20) (left page : Nat)
    (h : Under kernel l map) (hne : l.process.surfacePhysical ≠ 0)
    (hlen : l.process.surfacePageCount = count) (hrun : RunOk l.process.surfacePhysical count)
    (hleft : page + left = count) :
    ∃ l' done, mapSurface l left page = (l', done) ∧
      ((done = true ∧ ∃ phys space map', l' = l.withSpace phys space ∧
          SurfaceDone kernel l map page left phys space map') ∨
        (done = false ∧ Abandoned l l')) := by
  induction left generalizing l map page with
  | zero =>
    refine ⟨l, true, rfl, Or.inl ⟨rfl, l.phys, l.process.addressSpace, map, rfl, ?_⟩⟩
    exact
      { exchange := Exchange.refl h.ok _
        under := h
        mapped := fun i h1 h2 => by omega
        old := Extends.refl map
        only := fun _ hv => Or.inl hv
        tables := List.Subset.refl _
        mem := fun _ _ => rfl
        cleared := fun a ha => by cases ha }
  | succ left ih =>
    unfold mapSurface
    obtain ⟨hpage, hframe⟩ := hrun.page_at (show page < count by omega)
    have hvpn : vpnOf (l.process.addressSpace.userBase + userSurfaceOffset +
        UInt64.ofNat page * UInt64.ofNat argusPageSize) = surfaceVpn + page := by
      rw [h.loaded.rep.base, vpnOf_surface (by omega)]
    have hdata : frameOf (pageAt l.process.surfacePhysical page) ∈ l.process.dataFrames := by
      rw [hframe]
      exact surface_mem_data hne (by omega)
    obtain ⟨phys, space, done, heq, hex, hsame, hsub, hout⟩ := mapZeroed_spec h
      (l.process.addressSpace.userBase + userSurfaceOffset +
        UInt64.ofNat page * UInt64.ofNat argusPageSize) hpage hdata (by
        rw [hvpn]
        unfold surfaceVpn guardVpn
        omega)
    unfold pageAt at heq
    dsimp only
    rw [heq]
    dsimp only
    rcases hout with ⟨hd, hclear, hfree, hunder⟩ | ⟨hd, hunder⟩
    · rw [hd, if_neg (by decide)]
      rw [hvpn] at hfree hunder
      obtain ⟨l', done', hrest, hcase⟩ :=
        ih (page + 1) (l := l.withSpace phys space) hunder hne hlen
        hrun (by omega)
      refine ⟨l', done', hrest, ?_⟩
      rcases hcase with ⟨hd', phys', space', map', hl', hdone⟩ | ⟨hd', hab⟩
      · refine Or.inl ⟨hd', phys', space', map', hl', ?_⟩
        exact hdone.cons hne (by omega) hframe hfree hex hsame hsub hclear
      · exact Or.inr ⟨hd', hab.process, hex.trans hab.exchange, hab.ipc⟩
    · rw [hd, if_pos rfl]
      have hrel := hunder.release
      exact ⟨_, false, rfl, Or.inr ⟨rfl, hrel.process, hex.trans hrel.exchange, hrel.ipc⟩⟩

end ArgusOs.Runtime
