/-
  Whole loads: `prepare_process`, `load_flat_probe` and `load_elf_app` from start to end.

  A load that completes has made a record from its parts (`Parts.process`) that is `Outfit`:
  the pages it owns are the ones it took, its tables represent a map of them, a probe has
  neither surface nor endpoint nor capabilities, and an app has exactly its own. A load that
  fails leaves an idle record and everything it took given back.

    loadFlatProbe_spec, loadElfApp_spec    a load is an exchange from nothing to the pages of
                                           its record; nothing is said of one that runs out
                                           of the room for image pages
-/
import ArgusOs.Runtime.LoadSpec

namespace ArgusOs.Runtime

open Lib Memory Capability Ipc Elf Function

variable {kernel : PagingInfo} {l l' : Loading} {map map' : UserMap} {phys : Phys}
  {space : UserSpace} {new : List UInt64} {physical pid : UInt64} {appId : UInt32}
  {ipc : Endpoints} {pmm : Pmm} {page : ImagePage} {image : List UInt8} {elf : ElfImage}

/-! ## Endpoint and capabilities -/

theorem authorizeApp_spec (h : Under kernel l map) (hpid : l.process.pid ≠ 0)
    (hend : l.process.ipcEndpoint = 0)
    (hcaps : l.process.capabilities = capabilityTableInit l.process.pid) :
    ∃ l' done, authorizeApp l = (l', done) ∧
      ((done = true ∧ ∃ ipc endpoint table,
          ipcEndpointCreate l.ipc l.process.pid = (ipc, endpoint) ∧
          endpoint ≠ 0 ∧ GrantedAll (capabilityTableInit l.process.pid) table
            (appGrants l.process.appId l.process.surfacePhysical endpoint) ∧
          l' = ⟨l.phys, ipc, { l.process with ipcEndpoint := endpoint, capabilities := table }⟩) ∨
        (done = false ∧ Abandoned l l' ∧ ∀ slot, (l.ipc slot).used = true)) := by
  unfold authorizeApp
  rcases ipcEndpointCreate_cases l.ipc l.process.pid with
    ⟨heq, hfull⟩ | ⟨-, slot, -, -, heq⟩
  · -- no endpoint is left: the record is as before
    rw [heq]
    dsimp only
    rw [if_pos rfl]
    obtain ⟨hpages, hunder⟩ := h.same (p := { l.process with ipcEndpoint := 0 })
      ⟨rfl, rfl, rfl, rfl, rfl⟩ l.ipc
    have hrel := hunder.release
    refine ⟨_, false, rfl, Or.inr ⟨rfl, ⟨hrel.process, hpages ▸ hrel.exchange, ?_⟩, ?_⟩⟩
    · rw [hrel.ipc, hend]
    · rcases hfull with h0 | hall
      · exact absurd h0 hpid
      · exact hall
  · rw [heq]
    dsimp only
    have hne := makeEndpoint_ne_zero slot (createdEndpoint (l.ipc slot) l.process.pid)
    rw [if_neg hne]
    generalize makeEndpoint slot (createdEndpoint (l.ipc slot) l.process.pid) = endpoint at hne ⊢
    obtain ⟨table, done, hgrant, hall, hroom⟩ :=
      grantAll_spec (appGrants l.process.appId l.process.surfacePhysical endpoint)
        (appGrants_local _ _ _) { l.process with ipcEndpoint := endpoint } (by
          rw [hcaps]
          exact tableInit_fits _)
    rw [hgrant]
    dsimp only
    -- a fresh table has room for the four grants
    have hd : done = true := by
      by_contra hc
      refine hroom (by simpa using hc) ⟨?_, ?_⟩
      · rw [hcaps]
        exact hpid
      · rw [hcaps, tableInit_used]
        show 0 + 4 ≤ 16
        omega
    rw [hd, if_neg (by decide)]
    have hgranted := hall hd
    rw [hcaps] at hgranted
    exact ⟨_, true, rfl, Or.inl ⟨rfl, _, endpoint, table, rfl, hne, hgranted, rfl⟩⟩

/-! ## The parts of a process -/

/-- What a load collects. -/
structure Parts where
  space : UserSpace
  image : List UInt64
  stack : UInt64
  surface : UInt64
  endpoint : UInt64
  table : CapabilityTable
  code : UInt64

variable {x : Parts}

/-- The record of the parts, before it is made ready. -/
def Parts.process (x : Parts) (pid : UInt64) (appId : UInt32) : Process :=
  { freshProcess pid appId with
    addressSpace := x.space
    imagePhysical := x.image
    stackPhysical := x.stack
    surfacePhysical := x.surface
    surfacePageCount := if appId = 0 then 0 else surfacePageCount
    codeVirtual := x.code
    stackVirtual := argusUserBase + userStackOffset
    capabilities := x.table
    ipcEndpoint := x.endpoint }

/-- What an app has beyond a probe. -/
structure AppOutfit (kernel : PagingInfo) (ipc : Endpoints) (l : Loading) (pid : UInt64)
    (appId : UInt32) (x : Parts) (map : UserMap) : Prop where
  surface : x.surface ≠ 0
  endpoint : x.endpoint ≠ 0
  created : ipcEndpointCreate ipc pid = (l.ipc, x.endpoint)
  granted : GrantedAll (capabilityTableInit pid) x.table (appGrants appId x.surface x.endpoint)
  mapped : SurfaceMapped kernel map x.surface 0 surfacePageCount
  cleared : Cleared l.phys.mem (List.range' (frameOf x.surface) surfacePageCount)

/-- A prepared process, from the endpoint table `ipc`. -/
structure Outfit (kernel : PagingInfo) (ipc : Endpoints) (l : Loading) (pid : UInt64)
    (appId : UInt32) (x : Parts) (map : UserMap) : Prop where
  process : l.process = x.process pid appId
  under : Under kernel l map
  stack : x.stack ≠ 0 ∧ map stackVpn = some (leafEntry kernel.nxEnabled x.stack true false)
  probe : appId = 0 →
    x.surface = 0 ∧ x.endpoint = 0 ∧ x.table = capabilityTableInit pid ∧ l.ipc = ipc
  app : appId ≠ 0 → AppOutfit kernel ipc l pid appId x map

/-- The record owns nothing. -/
structure Idle (p : Process) : Prop where
  state : p.state = .unused
  pages : p.pages = []
  endpoint : p.ipcEndpoint = 0

theorem idle_zero : Idle .zero := ⟨rfl, rfl, rfl⟩

/-- The endpoint tables differ in generations of unused slots only. -/
def SameUse (ipc ipc' : Endpoints) : Prop :=
  ∀ slot, ipc' slot = ipc slot ∨ ((ipc slot).used = false ∧ (ipc' slot).used = false)

theorem SameUse.refl (ipc : Endpoints) : SameUse ipc ipc := fun _ => Or.inl rfl

/-- An endpoint created and destroyed again leaves no trace but its generation. -/
theorem sameUse_create_destroy {ipc' : Endpoints} {endpoint : UInt64}
    (h : ipcEndpointCreate ipc pid = (ipc', endpoint)) (hne : endpoint ≠ 0) :
    SameUse ipc (releasedIpc ipc' endpoint) := by
  unfold releasedIpc
  rw [if_neg hne]
  rcases ipcEndpointCreate_cases ipc pid with ⟨heq, -⟩ | ⟨-, slot, -, hfree, heq⟩
  · rw [h, Prod.mk.injEq] at heq
    exact absurd heq.2 hne
  · rw [h, Prod.mk.injEq] at heq
    obtain ⟨hipc, hend⟩ := heq
    have hslot : ipc' slot = createdEndpoint (ipc slot) pid := by
      rw [hipc, update_self]
    have hres : resolveEndpoint ipc' endpoint = some slot := by
      rw [resolveEndpoint_eq_some, hslot]
      exact ⟨rfl, hend.symm⟩
    intro other
    rcases ipcEndpointDestroy_cases ipc' endpoint with ⟨-, hnone⟩ | ⟨slot', hslot', hd⟩
    · rw [hres] at hnone
      cases hnone
    · rw [hres, Option.some.injEq] at hslot'
      rw [hd, ← hslot']
      dsimp only
      by_cases ho : other = slot
      · rw [ho, update_self]
        exact Or.inr ⟨hfree, rfl⟩
      · rw [update_of_ne ho, hipc, update_of_ne ho]
        exact Or.inl rfl

/-- A load that did not complete. -/
structure Failed (l l' : Loading) : Prop where
  idle : Idle l'.process
  exchange : Exchange l.phys [] l'.phys []
  ipc : SameUse l.ipc l'.ipc

/-! ## Preparation -/

/-- What an allocation returns is the first of a run of pages. -/
theorem runOk_of_alloc {start count : Nat} {address : UInt64}
    (haddr : address.toNat = start * argusPageSize) (hfit : start + count ≤ 2 ^ 35) :
    frameOf address = start ∧ RunOk address count := by
  have hstart : frameOf address = start := by
    unfold frameOf
    rw [haddr]
    exact Nat.mul_div_cancel _ (by decide)
  refine ⟨hstart, ⟨?_, ?_⟩, ?_⟩
  · rw [haddr]
    exact Nat.mul_mod_left ..
  · rw [haddr]
    unfold argusPageSize
    omega
  · rw [hstart]
    exact hfit

abbrev Process.withSurface (p : Process) (surface : UInt64) : Process :=
  { p with surfacePageCount := Runtime.surfacePageCount, surfacePhysical := surface }

/-- The record of an app in the making: the surface is recorded and not yet mapped. -/
theorem Under.record_surface (h : Under kernel l map) (hsurface : l.process.surfacePhysical = 0)
    {surface : UInt64} (hne : surface ≠ 0) (hrun : RunOk surface surfacePageCount)
    (hex : Exchange l.phys [] ⟨l.phys.mem, pmm⟩ (List.range' (frameOf surface) surfacePageCount)) :
    Exchange l.phys l.process.pages ⟨l.phys.mem, pmm⟩
        (l.process.withSurface surface).pages ∧
      Under kernel ⟨⟨l.phys.mem, pmm⟩, l.ipc, l.process.withSurface surface⟩ map := by
  refine h.record hex (p := l.process.withSurface surface) rfl
    ⟨h.loaded.pages.tables, h.loaded.pages.image, h.loaded.pages.stack,
      fun _ => ⟨hrun.page, (by decide : surfacePageCount ≠ 0)⟩⟩ ?_ l.ipc
  have hold : l.process.dataFrames = l.process.imageFrames ++ l.process.stackFrames := by
    unfold Process.dataFrames Process.surfaceFrames
    rw [if_pos hsurface, List.append_nil]
  have hnew : (l.process.withSurface surface).dataFrames =
      l.process.imageFrames ++ l.process.stackFrames ++
        List.range' (frameOf surface) surfacePageCount := by
    rw [List.append_assoc]
    unfold Process.dataFrames Process.surfaceFrames
    rw [if_neg hne]
    rfl
  rw [hold, hnew]
  exact List.perm_append_comm

/-- The record after the parts of an app have been added. -/
def withApp (l : Loading) (phys : Phys) (ipc : Endpoints) (space : UserSpace)
    (surface endpoint : UInt64) (table : CapabilityTable) : Loading :=
  ⟨phys, ipc, { l.process with
    addressSpace := space
    surfacePageCount := surfacePageCount
    surfacePhysical := surface
    ipcEndpoint := endpoint
    capabilities := table }⟩

/-- The page is one of the surface's. -/
def SurfacePage (vpn : Nat) : Prop := surfaceVpn ≤ vpn ∧ vpn < surfaceVpn + surfacePageCount

/-- The parts of an app, added to a process that has its stack. -/
structure AppAdded (kernel : PagingInfo) (l l' : Loading) (map : UserMap) (space : UserSpace)
    (surface endpoint : UInt64) (table : CapabilityTable) (map' : UserMap) : Prop where
  loading : l' = withApp l l'.phys l'.ipc space surface endpoint table
  exchange : Exchange l.phys l.process.pages l'.phys l'.process.pages
  under : Under kernel l' map'
  old : Extends map map'
  only : ∀ vpn, map' vpn ≠ none → map vpn ≠ none ∨ SurfacePage vpn
  surface_ne : surface ≠ 0
  endpoint_ne : endpoint ≠ 0
  created : ipcEndpointCreate l.ipc l.process.pid = (l'.ipc, endpoint)
  granted : GrantedAll (capabilityTableInit l.process.pid) table
    (appGrants l.process.appId surface endpoint)
  mapped : SurfaceMapped kernel map' surface 0 surfacePageCount
  cleared : Cleared l'.phys.mem (List.range' (frameOf surface) surfacePageCount)
  mem : SameOutside (List.range' (frameOf surface) surfacePageCount ++ space.frames)
    l.phys.mem l'.phys.mem

theorem prepareSurface_spec (h : Under kernel l map) (hpid : l.process.pid ≠ 0)
    (hend : l.process.ipcEndpoint = 0)
    (hcaps : l.process.capabilities = capabilityTableInit l.process.pid)
    (hne : l.process.surfacePhysical ≠ 0) (hlen : l.process.surfacePageCount = surfacePageCount)
    (hrun : RunOk l.process.surfacePhysical surfacePageCount) :
    ∃ l' done, prepareSurface l = (l', done) ∧
      ((done = true ∧ ∃ space endpoint table map',
          AppAdded kernel l l' map space l.process.surfacePhysical endpoint table map') ∨
        (done = false ∧ Abandoned l l')) := by
  obtain ⟨l₁, done, hmap, hcase⟩ := mapSurface_spec (show surfacePageCount < 2 ^ 20 by decide)
    surfacePageCount 0 h hne hlen hrun (Nat.zero_add _)
  unfold prepareSurface
  rw [hmap]
  dsimp only
  rcases hcase with ⟨hd, phys, space, map', hl₁, hdone⟩ | ⟨hd, hab⟩
  · rw [hd, if_neg (by decide)]
    have hunder := hdone.under
    rw [← hl₁] at hunder
    obtain ⟨l₂, done₂, hauth, hcase⟩ := authorizeApp_spec hunder (by rw [hl₁]; exact hpid)
      (by rw [hl₁]; exact hend) (by rw [hl₁]; exact hcaps)
    refine ⟨l₂, done₂, hauth, ?_⟩
    rcases hcase with ⟨hd₂, ipc, endpoint, table, hcreate, hend', hgrant, hl₂⟩ | ⟨hd₂, hab, -⟩
    · left
      rw [hl₁] at hcreate hgrant hl₂
      refine ⟨hd₂, space, endpoint, table, map', ?_⟩
      rw [hl₂]
      exact
        { loading := by
            unfold withApp Loading.withSpace
            rw [← hlen]
          exchange := hdone.exchange
          under := by
            refine (hdone.under.same ?_ ipc).2
            exact ⟨rfl, rfl, rfl, rfl, rfl⟩
          old := hdone.old
          only := hdone.only
          surface_ne := hne
          endpoint_ne := hend'
          created := hcreate
          granted := hgrant
          mapped := hdone.mapped
          cleared := hdone.cleared
          mem := hdone.mem }
    · right
      rw [hl₁] at hab
      exact ⟨hd₂, hab.process, hdone.exchange.trans hab.exchange, hab.ipc⟩
  · rw [hd, if_pos rfl]
    exact ⟨l₁, false, rfl, Or.inr ⟨rfl, hab⟩⟩

theorem prepareApp_spec (h : Under kernel l map) (hpid : l.process.pid ≠ 0)
    (hend : l.process.ipcEndpoint = 0)
    (hcaps : l.process.capabilities = capabilityTableInit l.process.pid)
    (hsurface : l.process.surfacePhysical = 0) :
    ∃ l' done, prepareApp l = (l', done) ∧
      ((done = true ∧ ∃ space surface endpoint table map',
          AppAdded kernel l l' map space surface endpoint table map') ∨
        (done = false ∧ Abandoned l l')) := by
  unfold prepareApp
  rcases pmmAllocPages_exchange (s := l.phys) h.ok surfacePageCount with
    hnone | ⟨start, surface, pmm, heq, hne, haddr, hfit, hex⟩
  · -- the record says there is no surface, so the release gives back the rest
    rw [hnone]
    have hpages : (l.process.withSurface 0).pages = l.process.pages := by
      simp only [Process.pages, Process.dataFrames, Process.imageFrames, Process.stackFrames,
        Process.surfaceFrames, hsurface, if_true]
    have hunder : Under kernel ⟨l.phys, l.ipc, l.process.withSurface 0⟩ map := by
      refine ⟨h.ok, ?_, h.loaded.record rfl ⟨h.loaded.pages.tables, h.loaded.pages.image,
        h.loaded.pages.stack, fun hc => absurd rfl hc⟩ ?_⟩
      · exact hpages ▸ h.held
      · intro f hf
        simp only [Process.dataFrames, Process.imageFrames, Process.stackFrames,
          Process.surfaceFrames, hsurface, if_true] at hf ⊢
        exact hf
    have hrel := hunder.release
    exact ⟨_, false, rfl, Or.inr ⟨rfl, hrel.process, hpages ▸ hrel.exchange, hrel.ipc⟩⟩
  · rw [heq]
    dsimp only
    rw [if_neg hne]
    obtain ⟨hstart, hrun⟩ := runOk_of_alloc haddr hfit
    rw [← hstart] at hex
    obtain ⟨hex1, hunder1⟩ := h.record_surface hsurface hne hrun hex
    obtain ⟨l', done, hprep, hcase⟩ := prepareSurface_spec hunder1 hpid hend hcaps hne rfl hrun
    refine ⟨l', done, hprep, ?_⟩
    rcases hcase with ⟨hd, space, endpoint, table, map', hadded⟩ | ⟨hd, hab⟩
    · refine Or.inl ⟨hd, space, surface, endpoint, table, map', ?_⟩
      exact { hadded with exchange := hex1.trans hadded.exchange }
    · exact Or.inr ⟨hd, hab.process, hex1.trans hab.exchange, hab.ipc⟩

/-- The parts of a probe under preparation. -/
def Parts.bare (space : UserSpace) (stack : UInt64) (pid : UInt64) : Parts :=
  ⟨space, [], stack, 0, 0, capabilityTableInit pid, 0⟩

theorem Abandoned.failed {l₀ : Loading} (h : Abandoned l l') (hend : l.process.ipcEndpoint = 0)
    (hipc : l.ipc = l₀.ipc) (hex : Exchange l₀.phys [] l.phys l.process.pages) : Failed l₀ l' where
  idle := by
    rw [h.process]
    exact idle_zero
  exchange := hex.trans h.exchange
  ipc := by
    rw [h.ipc, releasedIpc, if_pos hend, hipc]
    exact SameUse.refl _

/-- What a load may rely on: a sane allocator and a kernel root that is held. -/
structure LoadPre (kernel : PagingInfo) (phys : Phys) : Prop where
  ok : PmmOk phys.pmm
  root : KernelRoot phys.mem kernel
  held : ∃ frames, Held phys.pmm frames ∧ frameOf kernel.rootTable ∈ frames

theorem fresh_pages (pid : UInt64) (appId : UInt32) (space : UserSpace) :
    { freshProcess pid appId with addressSpace := space }.pages = space.frames :=
  List.append_nil _

/-- The record with nothing but its root table. -/
theorem under_fresh (hex : Exchange l.phys [] phys space.frames)
    (hrep : Represents phys.mem space fun _ => none) (hnx : space.nxEnabled = kernel.nxEnabled)
    (pid : UInt64) (appId : UInt32) :
    Under kernel ⟨phys, l.ipc, { freshProcess pid appId with addressSpace := space }⟩
      (fun _ => none) := by
  refine ⟨hex.pmm_ok, ?_, ⟨hrep.pages, ?_, ?_, ?_⟩, hrep, hnx, ?_, rfl⟩
  · rw [fresh_pages]
    exact hex.held_own (Held.nil _)
  · intro a ha
    cases ha
  · intro hc
    exact absurd rfl hc
  · intro hc
    exact absurd rfl hc
  · intro vpn leaf hm
    cases hm

/-- What else is known of a prepared process: it has no image yet, its stack page is clear, and
    nothing is mapped but stack and surface. -/
structure Prepared (appId : UInt32) (mem : Mem) (x : Parts) (map : UserMap) : Prop where
  image : x.image = []
  stack : Cleared mem [frameOf x.stack]
  only : ∀ vpn, map vpn ≠ none → vpn = stackVpn ∨ (appId ≠ 0 ∧ SurfacePage vpn)

/-- The pages of a record are different, so stores to its image, its surface or its tables leave
    the stack alone, and stores to its image or its tables the surface. -/
theorem held_apart {p : Process} (h : Held pmm p.pages) :
    (∀ f ∈ p.stackFrames, f ∉ p.imageFrames ∧ f ∉ p.surfaceFrames ∧ f ∉ p.addressSpace.frames) ∧
    ∀ f ∈ p.surfaceFrames, f ∉ p.imageFrames ∧ f ∉ p.addressSpace.frames := by
  have hnodup := h.nodup
  unfold Process.pages Process.dataFrames at hnodup
  rw [List.nodup_append, List.nodup_append, List.nodup_append] at hnodup
  obtain ⟨-, ⟨-, ⟨-, -, hsurface⟩, himage⟩, htables⟩ := hnodup
  constructor
  · intro f hf
    refine ⟨fun hc => ?_, fun hc => hsurface f hf f hc rfl, fun hc => ?_⟩
    · exact himage f hc f (List.mem_append_left _ hf) rfl
    · exact htables f hc f (List.mem_append_right _ (List.mem_append_left _ hf)) rfl
  · intro f hf
    refine ⟨fun hc => ?_, fun hc => ?_⟩
    · exact himage f hc f (List.mem_append_right _ hf) rfl
    · exact htables f hc f (List.mem_append_right _ (List.mem_append_right _ hf)) rfl

/-- The stack page stays clear while the parts of an app are added. -/
theorem AppAdded.stack_cleared {surface endpoint : UInt64} {table : CapabilityTable}
    (h : AppAdded kernel l l' map space surface endpoint table map')
    (hne : l.process.stackPhysical ≠ 0)
    (hclear : Cleared l.phys.mem [frameOf l.process.stackPhysical]) :
    Cleared l'.phys.mem [frameOf l.process.stackPhysical] := by
  have hheld := h.under.held
  rw [h.loading] at hheld
  refine hclear.frame h.mem ?_
  intro f hf
  have hapart := (held_apart hheld).1 f (by
    unfold Process.stackFrames withApp
    rw [if_neg hne]
    exact hf)
  rw [List.mem_append, not_or]
  refine ⟨?_, hapart.2.2⟩
  have hnot := hapart.2.1
  unfold Process.surfaceFrames withApp at hnot
  rw [if_neg h.surface_ne] at hnot
  exact hnot

theorem prepareProcess_spec (h : LoadPre kernel l.phys) (hidle : Idle l.process) (pid : UInt64)
    (appId : UInt32) :
    ∃ l' done, prepareProcess kernel l pid appId = (l', done) ∧
      ((done = true ∧ pid ≠ 0 ∧ ∃ x map, Outfit kernel l.ipc l' pid appId x map ∧
          Exchange l.phys [] l'.phys l'.process.pages ∧ Prepared appId l'.phys.mem x map) ∨
        (done = false ∧ Failed l l')) := by
  unfold prepareProcess
  by_cases hpid : pid = 0
  · rw [if_pos hpid]
    exact ⟨l, false, rfl, Or.inr ⟨rfl, hidle, Exchange.refl h.ok [], SameUse.refl _⟩⟩
  rw [if_neg hpid]
  obtain ⟨frames, hheld, hin⟩ := h.held
  obtain ⟨phys, space, done, heq, hex, hout⟩ := pagingUserSpaceCreate_spec h.ok h.root hheld hin
  rw [heq]
  dsimp only
  rcases hout with ⟨hd, hrep, hnx, -⟩ | ⟨hd, hnone⟩
  swap
  · -- no root table: the record is filled in but owns nothing
    rw [hd, if_pos rfl]
    have hframes : space.frames = [] := by
      unfold UserSpace.frames
      rw [hnone]
      rfl
    refine ⟨_, false, rfl, Or.inr ⟨rfl, ⟨rfl, ?_, rfl⟩, ?_, SameUse.refl _⟩⟩
    · show space.frames ++ [] = []
      rw [hframes]
      rfl
    · rw [hframes] at hex
      exact hex
  rw [hd, if_neg (by decide)]
  have hunder := under_fresh (l := l) hex hrep hnx pid appId
  obtain ⟨l1, done1, hstack, hcase⟩ := prepareStack_spec hunder rfl
  rw [hstack]
  dsimp only
  rw [← fresh_pages pid appId space] at hex
  rcases hcase with ⟨hd1, phys1, space1, stack, hl1, hne, hex1, hunder1, hclear⟩ | ⟨hd1, hab⟩
  swap
  · rw [hd1, if_pos rfl]
    exact ⟨l1, false, rfl, Or.inr ⟨rfl, hab.failed rfl rfl hex⟩⟩
  rw [hd1, if_neg (by decide)]
  have hbase : space.userBase = argusUserBase := hrep.base
  have hexA := hex.trans hex1
  have honly : ∀ vpn, update (fun _ => none) stackVpn
      (some (leafEntry kernel.nxEnabled stack true false)) vpn ≠ none → vpn = stackVpn := by
    intro vpn hv
    by_contra hc
    exact hv (update_of_ne hc ..)
  by_cases happ : appId = 0
  · rw [if_pos happ]
    refine ⟨l1, true, rfl, Or.inl ⟨rfl, hpid, Parts.bare space1 stack pid, update
      (fun _ => none) stackVpn (some (leafEntry kernel.nxEnabled stack true false)), ?_, hexA, rfl,
      hclear, fun vpn hv => Or.inl (honly vpn hv)⟩⟩
    refine ⟨?_, hunder1, ⟨hne, update_self ..⟩, ?_, fun hc => absurd happ hc⟩
    · rw [hl1]
      unfold withStack Parts.process Parts.bare
      rw [if_pos happ, hbase]
      rfl
    · intro _
      rw [hl1]
      exact ⟨rfl, rfl, rfl, rfl⟩
  · rw [if_neg happ]
    obtain ⟨l2, done2, hprep, hcase⟩ := prepareApp_spec hunder1 (by rw [hl1]; exact hpid)
      (by rw [hl1]; rfl) (by rw [hl1]; rfl) (by rw [hl1]; rfl)
    refine ⟨l2, done2, hprep, ?_⟩
    have hstackIs : l1.process.stackPhysical = stack := by
      rw [hl1]
      rfl
    rcases hcase with ⟨hd2, space2, surface, endpoint, table, map2, hadded⟩ | ⟨hd2, hab⟩
    · left
      have hkeep := hadded.stack_cleared (by rw [hstackIs]; exact hne) (by
        rw [hstackIs]
        exact hclear)
      rw [hstackIs] at hkeep
      refine ⟨hd2, hpid, ⟨space2, [], stack, surface, endpoint, table, 0⟩, map2, ?_,
        hexA.trans hadded.exchange, rfl, hkeep, ?_⟩
      swap
      · intro vpn hv
        rcases hadded.only vpn hv with hstk | hsurface
        · exact Or.inl (honly vpn hstk)
        · exact Or.inr ⟨happ, hsurface⟩
      refine ⟨?_, hadded.under, ⟨hne, ?_⟩, fun hc => absurd hc happ, fun _ => ?_⟩
      · rw [hadded.loading, hl1]
        unfold withApp withStack Parts.process
        rw [if_neg happ, hbase]
        rfl
      · rw [hadded.old _ (by rw [update_self]; exact Option.some_ne_none _),
          update_self]
      · have hcreate := hadded.created
        have hgrant := hadded.granted
        rw [hl1] at hcreate hgrant
        exact ⟨hadded.surface_ne, hadded.endpoint_ne, hcreate, hgrant, hadded.mapped,
          hadded.cleared⟩
    · right
      refine ⟨hd2, hab.failed ?_ ?_ hexA⟩
      · rw [hl1]
        rfl
      · rw [hl1]
        rfl

/-! ## The page loop -/

/-- What both loops promise of each turn: the page is not the guard page, is not both writable
    and executable, and no more than a page is copied. -/
structure ImagePageOk (page : ImagePage) : Prop where
  guard : vpnOf page.virtualAddress ≠ guardVpn
  wx : page.writable = false ∨ page.executable = false
  amount : page.amount ≤ argusPageSize

/-- The record with one more image page. -/
def withPage (l : Loading) (phys : Phys) (space : UserSpace) (new : List UInt64) : Loading :=
  ⟨phys, l.ipc, { l.process with
    addressSpace := space
    imagePhysical := l.process.imagePhysical ++ new }⟩

/-- What a number of turns leaves behind. -/
structure PagesDone (kernel : PagingInfo) (l : Loading) (map : UserMap) (phys : Phys)
    (space : UserSpace) (new : List UInt64) (map' : UserMap) : Prop where
  exchange : Exchange l.phys l.process.pages phys (withPage l phys space new).process.pages
  under : Under kernel (withPage l phys space new) map'
  old : Extends map map'
  tables : l.process.addressSpace.frames ⊆ space.frames
  mem : SameOutside (new.map frameOf ++ space.frames) l.phys.mem phys.mem

/-- The bytes of one page of an image. -/
theorem filledPage_sameOutside (mem : Mem) (hpage : PageAddress physical) {amount : Nat}
    (hle : amount ≤ argusPageSize) (bytes : Nat → UInt8) :
    SameOutside [frameOf physical] mem
      (writeBytes (zeroPage mem physical) physical.toNat amount bytes) := by
  refine (zeroPage_sameOutside mem hpage.1).trans ?_ (List.Subset.refl _)
  exact fillPage_sameOutside _ hpage.1 hle bytes

abbrev Process.withImage (p : Process) (physical : UInt64) : Process :=
  { p with imagePhysical := p.imagePhysical ++ [physical] }

theorem Under.record_image (h : Under kernel l map) (hne : physical ≠ 0)
    (hpage : PageAddress physical) (hex : Exchange l.phys [] ⟨l.phys.mem, pmm⟩ [frameOf physical]) :
    Exchange l.phys l.process.pages ⟨l.phys.mem, pmm⟩
        (l.process.withImage physical).pages ∧
      Under kernel ⟨⟨l.phys.mem, pmm⟩, l.ipc, l.process.withImage physical⟩ map ∧
      frameOf physical ∈ (l.process.withImage physical).dataFrames := by
  have himage : (l.process.withImage physical).dataFrames =
      l.process.imageFrames ++ ([frameOf physical] ++
        (l.process.stackFrames ++ l.process.surfaceFrames)) := by
    unfold Process.dataFrames Process.imageFrames
    rw [List.map_append, List.append_assoc]
    rfl
  have hperm : ([frameOf physical] ++ l.process.dataFrames).Perm
      (l.process.withImage physical).dataFrames := by
    rw [himage]
    exact List.perm_append_comm_assoc ..
  have hpages : ∀ a ∈ l.process.imagePhysical ++ [physical], PageAddress a ∧ a ≠ 0 := by
    intro a ha
    rw [List.mem_append, List.mem_singleton] at ha
    rcases ha with ha | ha
    · exact h.loaded.pages.image a ha
    · exact ha ▸ ⟨hpage, hne⟩
  obtain ⟨hex1, hunder1⟩ := h.record hex (p := l.process.withImage physical) rfl
    ⟨h.loaded.pages.tables, hpages, h.loaded.pages.stack, h.loaded.pages.surface⟩ hperm l.ipc
  exact ⟨hex1, hunder1, hperm.mem_iff.mp List.mem_cons_self⟩

/-- A page of the image as a load leaves it: mapped with its rights, the bytes of the image first
    and zeros behind them. -/
structure PageFilled (kernel : PagingInfo) (image : List UInt8) (mem : Mem) (map : UserMap)
    (page : ImagePage) (physical : UInt64) : Prop where
  mapped : map (vpnOf page.virtualAddress) =
    some (leafEntry kernel.nxEnabled physical page.writable page.executable)
  address : PageAddress physical
  bytes : ∀ i, i < argusPageSize → mem (physical.toNat + i) =
    if i < page.amount then image.getD (page.offset + i) 0 else 0

theorem PageFilled.keep {mem mem' : Mem} {touched : List Nat}
    (h : PageFilled kernel image mem map page physical) (hold : Extends map map')
    (hmem : SameOutside touched mem mem') (hout : frameOf physical ∉ touched) :
    PageFilled kernel image mem' map' page physical where
  mapped := by
    rw [hold _ (by rw [h.mapped]; exact Option.some_ne_none _), h.mapped]
  address := h.address
  bytes := by
    intro i hi
    have halign := h.address.1
    rw [← h.bytes i hi]
    apply hmem
    unfold frameOf argusPageSize at *
    rw [show (physical.toNat + i) / 4096 = physical.toNat / 4096 by omega]
    exact hout

/-- The bytes of a page that was cleared and then filled. -/
theorem filledPage_bytes (mem : Mem) (hpage : PageAddress physical) (amount : Nat)
    (bytes : Nat → UInt8) {i : Nat} (hi : i < argusPageSize) :
    writeBytes (zeroPage mem physical) physical.toNat amount bytes (physical.toNat + i) =
      if i < amount then bytes i else 0 := by
  by_cases ha : i < amount
  · rw [if_pos ha, writeBytes_inside (by omega) (by omega), Nat.add_sub_cancel_left]
  · rw [if_neg ha, writeBytes_outside (by omega)]
    have halign := hpage.1
    apply zeroPage_cleared mem hpage
    rw [List.mem_singleton]
    unfold frameOf argusPageSize at *
    omega

theorem loadPage_spec (h : Under kernel l map) (image : List UInt8) (hpage : ImagePageOk page) :
    Ensures (loadPage image l page) fun r =>
      (r.2 = true ∧ ∃ phys space physical map', r.1 = withPage l phys space [physical] ∧
        map' = update map (vpnOf page.virtualAddress)
          (some (leafEntry kernel.nxEnabled physical page.writable page.executable)) ∧
        PagesDone kernel l map phys space [physical] map' ∧
        PageFilled kernel image phys.mem map' page physical) ∨
      (r.2 = false ∧ Abandoned l r.1) := by
  unfold loadPage
  rcases pmmAllocPage_exchange (s := l.phys) h.ok with hnone | ⟨physical, pmm, heq, hne, hpa, hex⟩
  · rw [hnone]
    dsimp only
    rw [if_pos rfl]
    exact Ensures.ok (Or.inr ⟨rfl, h.release⟩)
  · rw [heq]
    dsimp only
    rw [if_neg hne]
    refine Ensures.ite (fun _ => Ensures.error _) fun _ => ?_
    obtain ⟨hex1, hunder1, hin⟩ := h.record_image hne hpa hex
    have hfill := filledPage_sameOutside l.phys.mem hpa hpage.amount fun i =>
      image.getD (page.offset + i) 0
    obtain ⟨phys, space, done, hmap, hex2, hsame, hsub, hout⟩ := hunder1.map_page hfill hpa
      hin hpage.wx hpage.guard
    rw [hmap]
    dsimp only
    rcases hout with ⟨hd, hfree, hunder2⟩ | ⟨hd, hunder2⟩
    · rw [hd, if_neg (by decide)]
      have hfilled : PageFilled kernel image
          (writeBytes (zeroPage l.phys.mem physical) physical.toNat page.amount fun i =>
            image.getD (page.offset + i) 0) _ page physical :=
        ⟨update_self _ _ map, hpa, fun i hi => filledPage_bytes l.phys.mem hpa _ _ hi⟩
      refine Ensures.ok (Or.inl ⟨rfl, phys, space, physical, _, rfl, rfl, ⟨hex1.trans hex2, hunder2,
        extends_update hfree _, hsub, ?_⟩, ?_⟩)
      · intro a ha
        rw [List.mem_append, not_or] at ha
        rw [hsame a ha.2, hfill a ha.1]
      · exact hfilled.keep (Extends.refl _) hsame (data_not_table hunder2.held hin)
    · rw [hd, if_pos rfl]
      have hrel := hunder2.release
      exact Ensures.ok (Or.inr ⟨rfl, hrel.process, (hex1.trans hex2).trans hrel.exchange, hrel.ipc⟩)

theorem PagesDone.refl (h : Under kernel l map) :
    PagesDone kernel l map l.phys l.process.addressSpace [] map := by
  have hself : withPage l l.phys l.process.addressSpace [] = l := by
    unfold withPage
    rw [List.append_nil]
  exact
    { exchange := by
        rw [hself]
        exact Exchange.refl h.ok _
      under := by
        rw [hself]
        exact h
      old := Extends.refl map
      tables := List.Subset.refl _
      mem := fun _ _ => rfl }

theorem withPage_withPage (l : Loading) (phys phys' : Phys) (space space' : UserSpace)
    (new new' : List UInt64) :
    withPage (withPage l phys space new) phys' space' new' =
      withPage l phys' space' (new ++ new') := by
  unfold withPage
  rw [List.append_assoc]

theorem PagesDone.trans {map'' : UserMap} {phys' : Phys} {space' : UserSpace} {new' : List UInt64}
    (h : PagesDone kernel l map phys space new map')
    (h' : PagesDone kernel (withPage l phys space new) map' phys' space' new' map'') :
    PagesDone kernel l map phys' space' (new ++ new') map'' where
  exchange := by
    rw [← withPage_withPage l phys phys' space space']
    exact h.exchange.trans h'.exchange
  under := by
    rw [← withPage_withPage l phys phys' space space']
    exact h'.under
  old := h.old.trans h'.old
  tables := fun _ hf => h'.tables (h.tables hf)
  mem := by
    intro a ha
    rw [List.map_append, List.append_assoc, List.mem_append, not_or] at ha
    have hsecond := h'.mem a ha.2
    have hfirst := h.mem a (by
      rw [List.mem_append, not_or]
      exact ⟨ha.1, fun hc => ha.2 (List.mem_append_right _ (h'.tables hc))⟩)
    exact hsecond.trans hfirst

/-- What the pages hold, and that nothing else was mapped. -/
structure PagesFilled (kernel : PagingInfo) (image : List UInt8) (mem : Mem) (map map' : UserMap)
    (pages : List ImagePage) (new : List UInt64) : Prop where
  filled : List.Forall₂ (PageFilled kernel image mem map') pages new
  only : ∀ vpn, map' vpn ≠ none → map vpn ≠ none ∨
    ∃ page ∈ pages, vpnOf page.virtualAddress = vpn

/-- The first page keeps what it holds while the rest is loaded. -/
theorem PagesFilled.cons
    {map'' : UserMap} {phys' : Phys} {space' : UserSpace}
    {pages : List ImagePage}
    (hmap : map' = update map (vpnOf page.virtualAddress)
      (some (leafEntry kernel.nxEnabled physical page.writable page.executable)))
    (hone : PageFilled kernel image phys.mem map' page physical)
    (hrest : PagesDone kernel (withPage l phys space [physical]) map' phys' space' new map'')
    (h : PagesFilled kernel image phys'.mem map' map'' pages new) :
    PagesFilled kernel image phys'.mem map map'' (page :: pages) ([physical] ++ new) where
  filled := by
    refine List.Forall₂.cons (hone.keep hrest.old hrest.mem ?_) h.filled
    have hnodup := hrest.under.held.nodup
    rw [withPage_withPage] at hnodup
    unfold Process.pages Process.dataFrames Process.imageFrames withPage at hnodup
    rw [List.map_append, List.map_append, List.map_singleton, List.nodup_append,
      List.nodup_append, List.nodup_append, List.nodup_append] at hnodup
    obtain ⟨-, ⟨⟨-, ⟨-, -, hnew⟩, -⟩, -⟩, htables⟩ := hnodup
    rw [List.mem_append, not_or]
    constructor
    · intro hc
      exact hnew _ (List.mem_singleton_self _) _ hc rfl
    · intro hc
      refine htables _ hc _ (List.mem_append_left _ (List.mem_append_right _ ?_)) rfl
      exact List.mem_append_left _ (List.mem_singleton_self _)
  only := by
    intro vpn hv
    rcases h.only vpn hv with hold | ⟨other, hother, heq⟩
    · by_cases hp : vpn = vpnOf page.virtualAddress
      · exact Or.inr ⟨page, List.mem_cons_self, hp.symm⟩
      · rw [hmap, update_of_ne hp] at hold
        exact Or.inl hold
    · exact Or.inr ⟨other, List.mem_cons_of_mem page hother, heq⟩

/-- Turn by turn, as long as the record has room for the pages. -/
theorem loadPages_spec (image : List UInt8) (pages : List ImagePage)
    (hpages : ∀ page ∈ pages, ImagePageOk page) (h : Under kernel l map) :
    Ensures (loadPages image l pages) fun r =>
      (r.2 = true ∧ ∃ phys space new map', r.1 = withPage l phys space new ∧
        PagesDone kernel l map phys space new map' ∧
        PagesFilled kernel image phys.mem map map' pages new) ∨
      (r.2 = false ∧ Abandoned l r.1) := by
  induction pages generalizing l map with
  | nil =>
    refine Ensures.ok (Or.inl ⟨rfl, l.phys, l.process.addressSpace, [], map, ?_, .refl h,
      List.Forall₂.nil, fun _ hv => Or.inl hv⟩)
    unfold withPage
    rw [List.append_nil]
  | cons page pages ih =>
    unfold loadPages
    split
    · exact Ensures.error _
    · next l₁ heq =>
      rcases loadPage_spec h image (hpages page List.mem_cons_self) _ heq with ⟨hd, -⟩ | hab
      · cases hd
      · exact Ensures.ok (Or.inr hab)
    · next l₁ heq =>
      rcases loadPage_spec h image (hpages page List.mem_cons_self) _ heq with
        ⟨-, phys, space, physical, map', rfl, hmap, hone, hfilled⟩ | ⟨hd, -⟩
      · refine (ih (fun p hp => hpages p (List.mem_cons_of_mem page hp)) hone.under).mono ?_
        rintro r (⟨hd, phys₂, space₂, new, map₂, hr, hrest, hfills⟩ | ⟨hd, hab⟩)
        · rw [withPage_withPage] at hr
          exact Or.inl ⟨hd, phys₂, space₂, [physical] ++ new, map₂, hr, hone.trans hrest,
            hfills.cons hmap hfilled hrest⟩
        · exact Or.inr ⟨hd, hab.process, hone.exchange.trans hab.exchange, hab.ipc⟩
      · cases hd

/-! ## The two loaders -/

/-- The image pages join the parts; surface, endpoint and capabilities are as they were. -/
theorem Outfit.add_pages (h : Outfit kernel ipc l pid appId x map)
    (hdone : PagesDone kernel l map phys space new map') :
    Outfit kernel ipc (withPage l phys space new) pid appId
      { x with space := space, image := x.image ++ new } map' where
  process := by
    unfold withPage
    rw [h.process]
    rfl
  under := hdone.under
  stack := by
    refine ⟨h.stack.1, ?_⟩
    rw [hdone.old _ (by rw [h.stack.2]; exact Option.some_ne_none _), h.stack.2]
  probe := h.probe
  app := by
    intro happ
    have ho := h.app happ
    refine ⟨ho.surface, ho.endpoint, ho.created, ho.granted, ?_, ?_⟩
    · intro i hi hi'
      rw [hdone.old _ (by rw [ho.mapped i hi hi']; exact Option.some_ne_none _), ho.mapped i hi hi']
    · -- the new pages and the tables are none of the surface's
      refine ho.cleared.frame hdone.mem ?_
      intro f hf hc
      have hsurface : f ∈ (withPage l phys space new).process.surfaceFrames := by
        unfold withPage Process.surfaceFrames
        rw [h.process]
        show f ∈ if x.surface = 0 then [] else
          List.range' (frameOf x.surface) (if appId = 0 then 0 else surfacePageCount)
        rw [if_neg ho.surface, if_neg happ]
        exact hf
      have hapart := (held_apart hdone.under.held).2 f hsurface
      rw [List.mem_append] at hc
      rcases hc with hc | hc
      · refine hapart.1 ?_
        unfold withPage Process.imageFrames
        rw [List.map_append]
        exact List.mem_append_right _ hc
      · exact hapart.2 hc

theorem Outfit.set_code (h : Outfit kernel ipc l pid appId x map) (code : UInt64) :
    Outfit kernel ipc ⟨l.phys, l.ipc, { l.process with codeVirtual := code }⟩ pid appId
      { x with code := code } map where
  process := by
    rw [h.process]
    rfl
  under := (h.under.same (p := { l.process with codeVirtual := code })
    ⟨rfl, rfl, rfl, rfl, rfl⟩ l.ipc).2
  stack := h.stack
  probe := h.probe
  app := fun happ =>
    have ho := h.app happ
    ⟨ho.surface, ho.endpoint, ho.created, ho.granted, ho.mapped, ho.cleared⟩

theorem Outfit.abandon {l₀ : Loading} (h : Outfit kernel l₀.ipc l pid appId x map)
    (hex : Exchange l₀.phys [] l.phys l.process.pages) (hab : Abandoned l l') : Failed l₀ l' where
  idle := by
    rw [hab.process]
    exact idle_zero
  exchange := hex.trans hab.exchange
  ipc := by
    have hend : l.process.ipcEndpoint = x.endpoint := by
      rw [h.process]
      rfl
    rw [hab.ipc, hend]
    by_cases happ : appId = 0
    · obtain ⟨-, h0, -, hipc⟩ := h.probe happ
      rw [h0, hipc]
      exact SameUse.refl _
    · have ho := h.app happ
      exact sameUse_create_destroy ho.created ho.endpoint

/-- A completed load: the parts, made ready at an entry point. -/
structure LoadDone (kernel : PagingInfo) (l l' : Loading) (pid : UInt64) (appId : UInt32)
    (x : Parts) (map : UserMap) (entry : UInt64) : Prop where
  pid_ne : pid ≠ 0
  process : l'.process = initializeContext (x.process pid appId) entry
  outfit : Outfit kernel l.ipc ⟨l'.phys, l'.ipc, x.process pid appId⟩ pid appId x map
  exchange : Exchange l.phys [] l'.phys l'.process.pages

/-- What the pages of a completed load hold: a clear stack and the pages of the image; nothing
    else is mapped but the surface. -/
structure Furnished (kernel : PagingInfo) (image : List UInt8) (pages : List ImagePage)
    (appId : UInt32) (mem : Mem) (x : Parts) (map : UserMap) : Prop where
  stack : Cleared mem [frameOf x.stack]
  filled : List.Forall₂ (PageFilled kernel image mem map) pages x.image
  only : ∀ vpn, map vpn ≠ none → vpn = stackVpn ∨ (appId ≠ 0 ∧ SurfacePage vpn) ∨
    ∃ page ∈ pages, vpnOf page.virtualAddress = vpn

/-- The stack page stays clear while the image is loaded. -/
theorem PagesDone.stack_cleared (h : PagesDone kernel l map phys space new map')
    (hne : l.process.stackPhysical ≠ 0)
    (hclear : Cleared l.phys.mem [frameOf l.process.stackPhysical]) :
    Cleared phys.mem [frameOf l.process.stackPhysical] := by
  refine hclear.frame h.mem ?_
  intro f hf
  have hapart := (held_apart h.under.held).1 f (by
    unfold Process.stackFrames withPage
    rw [if_neg hne]
    exact hf)
  rw [List.mem_append, not_or]
  refine ⟨fun hc => hapart.1 ?_, hapart.2.2⟩
  unfold withPage Process.imageFrames
  rw [List.map_append]
  exact List.mem_append_right _ hc

/-- From the prepared process through the page loop to the context. -/
theorem loadImage_spec {l₁ : Loading} (hpid : pid ≠ 0) (h : Outfit kernel l.ipc l₁ pid appId x map)
    (hex : Exchange l.phys [] l₁.phys l₁.process.pages) (hprep : Prepared appId l₁.phys.mem x map)
    (code : UInt64) (image : List UInt8) {pages : List ImagePage}
    (hpages : ∀ page ∈ pages, ImagePageOk page) (entry : UInt64) :
    Ensures (loadImage image l₁ code pages entry) fun r =>
      (r.2 = true ∧ ∃ x' map', LoadDone kernel l r.1 pid appId x' map' entry ∧
        Furnished kernel image pages appId r.1.phys.mem x' map') ∨
      (r.2 = false ∧ Failed l r.1) := by
  have hcode := h.set_code code
  have hstack : l₁.process.stackPhysical = x.stack := by
    rw [h.process]
    rfl
  have hspec := loadPages_spec image pages hpages hcode.under
  unfold loadImage
  split
  · exact Ensures.error _
  · next l₂ heq =>
    rcases hspec _ heq with ⟨hd, -⟩ | ⟨-, hab⟩
    · cases hd
    · exact Ensures.ok (Or.inr ⟨rfl, hcode.abandon hex hab⟩)
  · next l₂ heq =>
    rcases hspec _ heq with ⟨-, phys, space, new, map', hl₂, hdone, hfilled⟩ | ⟨hd, -⟩
    case inr => cases hd
    apply Ensures.ok
    left
    have hphys : l₂.phys = phys := congrArg Loading.phys hl₂
    have hclear := hdone.stack_cleared (show l₁.process.stackPhysical ≠ 0 by
      rw [hstack]
      exact h.stack.1) (by
      show Cleared l₁.phys.mem [frameOf l₁.process.stackPhysical]
      rw [hstack]
      exact hprep.stack)
    have hout := hcode.add_pages hdone
    rw [← hl₂] at hout
    refine ⟨rfl, ⟨space, x.image ++ new, x.stack, x.surface, x.endpoint, x.table, code⟩, map',
      ⟨hpid, ?_, ?_, ?_⟩, ?_, ?_, ?_⟩
    · rw [← hout.process]
    · rw [← hout.process]
      exact hout
    · have hall := hex.trans hdone.exchange
      rw [← hl₂] at hall
      rw [hphys]
      exact hall
    · rw [hphys, ← hstack]
      exact hclear
    · rw [hphys]
      dsimp only
      rw [hprep.image, List.nil_append]
      exact hfilled.filled
    · intro vpn hv
      rcases hfilled.only vpn hv with hold | hnew
      · rcases hprep.only vpn hold with hstk | hsurface
        · exact Or.inl hstk
        · exact Or.inr (Or.inl hsurface)
      · exact Or.inr (Or.inr hnew)

theorem vpnOf_code {page : Nat} (h : page < 2 ^ 20) :
    vpnOf (argusUserBase + userCodeOffset + UInt64.ofNat page * UInt64.ofNat argusPageSize) =
      2 ^ 27 + 1 + page := by
  have hoff := pageOffset_toNat page (by omega)
  have hbase : (argusUserBase + userCodeOffset).toNat = 2 ^ 39 + 0x1000 := by decide
  unfold vpnOf
  rw [UInt64.toNat_add, hoff, hbase]
  omega

theorem flatPages_ok (h : (image.length + argusPageSize - 1) / argusPageSize ≤ argusElfImageRoom) :
    ∀ page ∈ flatPages image (argusUserBase + userCodeOffset), ImagePageOk page := by
  intro page hp
  unfold flatPages at hp
  rw [List.mem_map] at hp
  obtain ⟨i, hi, rfl⟩ := hp
  rw [List.mem_range] at hi
  unfold argusElfImageRoom at h
  refine ⟨?_, Or.inl rfl, Nat.min_le_right ..⟩
  show vpnOf _ ≠ guardVpn
  rw [vpnOf_code (by omega)]
  unfold guardVpn
  omega

theorem loadFlatProbe_spec (h : LoadPre kernel l.phys) (hidle : Idle l.process) (pid : UInt64)
    (image : List UInt8) :
    Ensures (loadFlatProbe kernel l pid image) fun r =>
      (r.2 = true ∧ ∃ x map entry, LoadDone kernel l r.1 pid 0 x map entry) ∨
      (r.2 = false ∧ Failed l r.1) := by
  have hstay : Failed l l := ⟨hidle, Exchange.refl h.ok [], SameUse.refl _⟩
  unfold loadFlatProbe
  refine Ensures.ite (fun _ => Ensures.ok (Or.inr ⟨rfl, hstay⟩)) fun hbad => ?_
  have hle : (image.length + argusPageSize - 1) / argusPageSize ≤ argusElfImageRoom := by
    rw [not_or, not_or] at hbad
    omega
  obtain ⟨l₁, done, heq, hcase⟩ := prepareProcess_spec h hidle pid 0
  rw [heq]
  rcases hcase with ⟨hd, hpid, x, map, hout, hex, hprep⟩ | ⟨hd, hfail⟩
  · rw [hd]
    dsimp only
    have hbase : l₁.process.addressSpace.userBase = argusUserBase := hout.under.loaded.rep.base
    rw [hbase]
    refine (loadImage_spec hpid hout hex hprep _ image (flatPages_ok hle) _).mono fun r hr => ?_
    exact hr.imp_left fun ⟨hd, x', map', hdone, _⟩ => ⟨hd, x', map', _, hdone⟩
  · rw [hd]
    exact Ensures.ok (Or.inr ⟨rfl, hfail⟩)

theorem imageMin_toNat : imageMin.toNat = 2 ^ 39 + 0x1000 := by decide

theorem imageMax_toNat : imageMax.toNat = 2 ^ 39 + 0x1FF000 := by decide

theorem image_window : imageMax.toNat < imageMin.toNat + 2 ^ 32 := by
  rw [imageMin_toNat, imageMax_toNat]
  omega

/-- A page of an accepted image is a page of a segment that passed the checks. -/
theorem mem_segmentPages (h : validateImage image = some elf)
    (hp : page ∈ elf.segments.flatMap segmentPages) :
    ∃ program i, LoadOk (UInt64.ofNat image.length) imageMin imageMax program ∧
      i * 4096 < program.memorySize.toNat ∧
      page.virtualAddress.toNat = program.virtualAddress.toNat + i * 4096 ∧
      page.writable = decide (program.flags &&& elfFlagWrite ≠ 0) ∧
      page.executable = decide (program.flags &&& elfFlagExecute ≠ 0) ∧
      page.amount ≤ argusPageSize := by
  obtain ⟨scan, hinv, rfl, -⟩ := elfValidateUserImage_some image_window h
  rw [List.mem_flatMap] at hp
  obtain ⟨segment, hs, hp⟩ := hp
  dsimp only at hs
  rw [hinv.segments, List.mem_map] at hs
  obtain ⟨program, hprog, rfl⟩ := hs
  rw [List.mem_filter, decide_eq_true_eq] at hprog
  have hok := hinv.loads program hprog.1 hprog.2
  obtain ⟨hcount, hlt⟩ := hok.pageCount image_window
  have hhigh := hok.address_high
  rw [imageMax_toNat] at hhigh
  unfold segmentPages at hp
  rw [List.mem_map] at hp
  obtain ⟨i, hi, rfl⟩ := hp
  rw [List.mem_range] at hi
  change i < (pageCountOf program).toNat at hi
  refine ⟨program, i, hok, by omega, ?_, rfl, rfl, Nat.min_le_right ..⟩
  show (program.virtualAddress + UInt64.ofNat i * UInt64.ofNat argusPageSize).toNat = _
  rw [UInt64.toNat_add, pageOffset_toNat _ (by omega)]
  omega

/-- Every page of an accepted image lies below the guard page, and none is both writable and
    executable. -/
theorem segmentPages_ok (h : validateImage image = some elf) :
    ∀ page ∈ elf.segments.flatMap segmentPages, ImagePageOk page := by
  intro page hp
  obtain ⟨program, i, hok, hi, hat, hw, hx, hamount⟩ := mem_segmentPages h hp
  have hlow := hok.address_low
  have hhigh := hok.address_high
  rw [imageMin_toNat] at hlow
  rw [imageMax_toNat] at hhigh
  refine ⟨?_, ?_, hamount⟩
  · unfold vpnOf guardVpn
    omega
  · rw [hw, hx, decide_eq_false_iff_not, decide_eq_false_iff_not, not_not, not_not]
    exact hok.not_write_execute

theorem segmentPages_length (h : validateImage image = some elf) :
    (elf.segments.flatMap segmentPages).length = elf.totalPages.toNat := by
  rw [(elf_total_pages image_window h).1, List.length_flatMap]
  congr 1
  apply List.map_congr_left
  intro segment _
  unfold segmentPages
  rw [List.length_map, List.length_range]

/-- An image that asks for no more pages than a record has room for. -/
def SmallImage (image : List UInt8) : Prop :=
  ∀ elf, validateImage image = some elf → elf.totalPages.toNat ≤ argusElfImageRoom

theorem loadElfApp_spec (h : LoadPre kernel l.phys) (hidle : Idle l.process) (pid : UInt64)
    (appId : UInt32) (image : List UInt8) :
    Ensures (loadElfApp kernel l pid appId image) fun r =>
      (r.2 = true ∧ ∃ elf x map, validateImage image = some elf ∧
        LoadDone kernel l r.1 pid appId x map elf.entry ∧
        Furnished kernel image (elf.segments.flatMap segmentPages) appId r.1.phys.mem x map) ∨
      (r.2 = false ∧ Failed l r.1) := by
  have hstay : Failed l l := ⟨hidle, Exchange.refl h.ok [], SameUse.refl _⟩
  unfold loadElfApp
  refine Ensures.ite (fun _ => Ensures.ok (Or.inr ⟨rfl, hstay⟩)) fun _ => ?_
  cases helf : validateImage image with
  | none => exact Ensures.ok (Or.inr ⟨rfl, hstay⟩)
  | some elf =>
    dsimp only
    obtain ⟨l₁, done, heq, hcase⟩ := prepareProcess_spec h hidle pid appId
    rw [heq]
    rcases hcase with ⟨hd, hpid, x, map, hout, hex, hprep⟩ | ⟨hd, hfail⟩
    · rw [hd]
      dsimp only
      refine (loadImage_spec hpid hout hex hprep _ image (segmentPages_ok helf) _).mono fun r hr =>
        ?_
      exact hr.imp_left fun ⟨hd, x', map', hdone⟩ => ⟨hd, elf, x', map', rfl, hdone⟩
    · rw [hd]
      exact Ensures.ok (Or.inr ⟨rfl, hfail⟩)

end ArgusOs.Runtime
