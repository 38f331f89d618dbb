/-
  Making and unmaking processes: `prepare_process`, `load_flat_probe`, `load_elf_app` and
  `release_process` of `process.c`.

  A load works on memory, the endpoint table and one process record (`Loading`) and either
  completes or releases what it took. `release_process` decides what to give back by looking
  at the record, so every step stores what it took before it can fail.

  `image_physical` has room for sixteen pages and the loaders do not check that bound when
  they store: a store beyond it is the `error` outcome, with the index, and nothing is said
  about what happens then.

  The two page loops are given as the list of the pages they visit (`ImagePage`): where each
  one is mapped, with which rights, and which bytes of the image are copied into it.
-/
import ArgusOs.Runtime.State

namespace ArgusOs.Runtime

open Lib Memory Capability Ipc Elf

variable {p : Process} {pid : UInt64} {done : Bool} {appId : UInt32} {kernel : PagingInfo}
  {image : List UInt8}

/-- What a load works on. -/
structure Loading where
  phys : Phys
  ipc : Endpoints
  process : Process

variable {l l' : Loading} {r : Loading × Bool}

/-! ## Release -/

/-- Give back every image page that was recorded. -/
def freeImage (pmm : Pmm) (pages : List UInt64) : Pmm :=
  pages.foldl (fun pmm page => if page = 0 then pmm else (pmmFreePage pmm page).1) pmm

def releaseProcess (l : Loading) : Loading :=
  let p := l.process
  let ipc := if p.ipcEndpoint = 0 then l.ipc else (ipcEndpointDestroy l.ipc p.ipcEndpoint).1
  let (phys, _) := pagingUserSpaceDestroy l.phys p.addressSpace
  let pmm := freeImage phys.pmm p.imagePhysical
  let pmm := if p.stackPhysical = 0 then pmm else (pmmFreePage pmm p.stackPhysical).1
  let pmm := if p.surfacePhysical = 0 ∨ p.surfacePageCount = 0 then pmm
    else (pmmReleasePages pmm p.surfacePhysical p.surfacePageCount).1
  ⟨⟨phys.mem, pmm⟩, ipc, .zero⟩

/-- Release and report failure. -/
def releaseFailed (l : Loading) : Loading × Bool := (releaseProcess l, false)

/-! ## Preparation -/

def grantProcessCapability (p : Process) (type : UInt32) (rights : UInt16) (object : UInt64) :
    Process × UInt64 :=
  if (type = capabilityAnonymousStream ∨ type = capabilityRawNetwork) ∧
      anonymityCapabilityAllowed p.securityRole type rights = false then (p, 0)
  else
    let (table, handle) := capabilityGrant p.capabilities type rights object
    ({ p with capabilities := table }, handle)

/-- The grants in order, up to the first that fails. -/
def grantAll (p : Process) : List (UInt32 × UInt16 × UInt64) → Process × Bool
  | [] => (p, true)
  | (type, rights, object) :: rest =>
    let (p, handle) := grantProcessCapability p type rights object
    if handle = 0 then (p, false) else grantAll p rest

/-- What an app process is granted. -/
def appGrants (appId : UInt32) (surface endpoint : UInt64) : List (UInt32 × UInt16 × UInt64) :=
  [(capabilityClock, capRightRead, 0),
   (capabilityInput, capRightRead ||| capRightWait, appId.toUInt64),
   (capabilitySurface, capRightPresent, surface),
   (capabilityIpc, capRightReceive, endpoint)]

/-- Clear a page and map it. -/
def mapZeroed (l : Loading) (virtualAddress physical : UInt64) (writable executable : Bool) :
    Loading × Bool :=
  let (phys, space, done) := pagingUserMapPage ⟨zeroPage l.phys.mem physical, l.phys.pmm⟩
    l.process.addressSpace virtualAddress physical writable executable
  (⟨phys, l.ipc, { l.process with addressSpace := space }⟩, done)

/-- The loop that clears and maps the surface pages, `left` of them from `page` on. -/
def mapSurface (l : Loading) : Nat → Nat → Loading × Bool
  | 0, _ => (l, true)
  | left + 1, page =>
    let offset := UInt64.ofNat page * UInt64.ofNat argusPageSize
    let (l, done) := mapZeroed l (l.process.addressSpace.userBase + userSurfaceOffset + offset)
      (l.process.surfacePhysical + offset) true false
    if done = false then releaseFailed l else mapSurface l left (page + 1)

/-- The endpoint and the capabilities of an app process. -/
def authorizeApp (l : Loading) : Loading × Bool :=
  let (ipc, endpoint) := ipcEndpointCreate l.ipc l.process.pid
  let p := { l.process with ipcEndpoint := endpoint }
  if endpoint = 0 then releaseFailed ⟨l.phys, ipc, p⟩
  else
    let (p, done) := grantAll p (appGrants p.appId p.surfacePhysical endpoint)
    if done = false then releaseFailed ⟨l.phys, ipc, p⟩ else (⟨l.phys, ipc, p⟩, true)

/-- The surface once it is recorded: mapped, then the rest of the app's parts. -/
def prepareSurface (l : Loading) : Loading × Bool :=
  let (l, done) := mapSurface l surfacePageCount 0
  if done = false then (l, false) else authorizeApp l

/-- The part of `prepare_process` for app processes only. -/
def prepareApp (l : Loading) : Loading × Bool :=
  let (pmm, surface) := pmmAllocPages l.phys.pmm surfacePageCount
  let p := { l.process with surfacePageCount := surfacePageCount, surfacePhysical := surface }
  let l : Loading := ⟨⟨l.phys.mem, pmm⟩, l.ipc, p⟩
  if surface = 0 then releaseFailed l else prepareSurface l

/-- The stack page: taken, cleared and mapped. -/
def prepareStack (l : Loading) : Loading × Bool :=
  let (pmm, stack) := pmmAllocPage l.phys.pmm
  let p := { l.process with
    stackVirtual := l.process.addressSpace.userBase + userStackOffset
    stackPhysical := stack }
  let l : Loading := ⟨⟨l.phys.mem, pmm⟩, l.ipc, p⟩
  if stack = 0 then releaseFailed l
  else
    let (l, done) := mapZeroed l p.stackVirtual stack true false
    if done = false then releaseFailed l else (l, true)

/-- The record `prepare_process` starts from. -/
def freshProcess (pid : UInt64) (appId : UInt32) : Process :=
  { Process.zero with
    pid := pid
    appId := appId
    securityRole := .utility
    capabilities := capabilityTableInit pid }

def prepareProcess (kernel : PagingInfo) (l : Loading) (pid : UInt64) (appId : UInt32) :
    Loading × Bool :=
  if pid = 0 then (l, false)
  else
    let (phys, space, done) := pagingUserSpaceCreate l.phys kernel .zero
    let l : Loading := ⟨phys, l.ipc, { freshProcess pid appId with addressSpace := space }⟩
    if done = false then (l, false)
    else
      let (l, done) := prepareStack l
      if done = false then (l, false)
      else if appId = 0 then (l, true)
      else prepareApp l

/-! ## Loading an image -/

/-- One turn of a page loop: the mapping, and `amount` bytes of the image from `offset` on. -/
structure ImagePage where
  virtualAddress : UInt64
  writable : Bool
  executable : Bool
  offset : Nat
  amount : Nat

def argusElfImageRoom : Nat := 16

/-- Take a page, record it, fill it and map it. -/
def loadPage (image : List UInt8) (l : Loading) (page : ImagePage) : Except Nat (Loading × Bool) :=
  let (pmm, physical) := pmmAllocPage l.phys.pmm
  if physical = 0 then .ok (releaseFailed ⟨⟨l.phys.mem, pmm⟩, l.ipc, l.process⟩)
  else if l.process.imagePhysical.length ≥ argusElfImageRoom then
    .error l.process.imagePhysical.length
  else
    let p := { l.process with imagePhysical := l.process.imagePhysical ++ [physical] }
    let mem := writeBytes (zeroPage l.phys.mem physical) physical.toNat page.amount fun i =>
      image.getD (page.offset + i) 0
    let (phys, space, done) := pagingUserMapPage ⟨mem, pmm⟩ p.addressSpace page.virtualAddress
      physical page.writable page.executable
    let l : Loading := ⟨phys, l.ipc, { p with addressSpace := space }⟩
    if done = false then .ok (releaseFailed l) else .ok (l, true)

def loadPages (image : List UInt8) (l : Loading) : List ImagePage → Except Nat (Loading × Bool)
  | [] => .ok (l, true)
  | page :: rest =>
    match loadPage image l page with
    | .error index => .error index
    | .ok (l, false) => .ok (l, false)
    | .ok (l, true) => loadPages image l rest

def initializeContext (p : Process) (instructionPointer : UInt64) : Process :=
  { p with
    context := { p.context with
      rip := instructionPointer
      rsp := p.stackVirtual + UInt64.ofNat argusPageSize - 8
      rflags := 0x202
      rdi := p.pid }
    state := .ready }

/-- The pages of a flat image: each turn copies the next page of it. -/
def flatPages (image : List UInt8) (codeVirtual : UInt64) : List ImagePage :=
  (List.range ((image.length + argusPageSize - 1) / argusPageSize)).map fun page =>
    { virtualAddress := codeVirtual + UInt64.ofNat page * UInt64.ofNat argusPageSize
      writable := false
      executable := true
      offset := page * argusPageSize
      amount := min (image.length - page * argusPageSize) argusPageSize }

/-- The end of both loaders, from a process that is prepared. -/
def loadImage (image : List UInt8) (l : Loading) (codeVirtual : UInt64) (pages : List ImagePage)
    (entry : UInt64) : Except Nat (Loading × Bool) :=
  match loadPages image ⟨l.phys, l.ipc, { l.process with codeVirtual := codeVirtual }⟩ pages with
  | .error index => .error index
  | .ok (l, false) => .ok (l, false)
  | .ok (l, true) => .ok (⟨l.phys, l.ipc, initializeContext l.process entry⟩, true)

def loadFlatProbe (kernel : PagingInfo) (l : Loading) (pid : UInt64) (image : List UInt8) :
    Except Nat (Loading × Bool) :=
  let pages := (image.length + argusPageSize - 1) / argusPageSize
  if image = [] ∨ pages = 0 ∨ pages > argusElfImageRoom then .ok (l, false)
  else
    match prepareProcess kernel l pid 0 with
    | (l, false) => .ok (l, false)
    | (l, true) =>
      let codeVirtual := l.process.addressSpace.userBase + userCodeOffset
      loadImage image l codeVirtual (flatPages image codeVirtual) codeVirtual

/-- The pages of a segment: file bytes first, and cleared pages where the file ends. -/
def segmentPages (segment : ElfSegment) : List ImagePage :=
  (List.range segment.pageCount.toNat).map fun page =>
    { virtualAddress := segment.virtualAddress + UInt64.ofNat page * UInt64.ofNat argusPageSize
      writable := segment.flags &&& elfFlagWrite ≠ 0
      executable := segment.flags &&& elfFlagExecute ≠ 0
      offset := segment.fileOffset.toNat + page * argusPageSize
      amount := min (segment.fileSize.toNat - page * argusPageSize) argusPageSize }

/-- The bytes of a linked image. -/
def imageBytes (image : List UInt8) : Mem := fun i => image.getD i 0

def imageMin : UInt64 := argusUserBase + userCodeOffset
def imageMax : UInt64 := argusUserBase + userStackOffset - UInt64.ofNat argusPageSize

def validateImage (image : List UInt8) : Option ElfImage :=
  elfValidateUserImage (imageBytes image) (UInt64.ofNat image.length) imageMin imageMax

/-- `image.segments[0].virtual_address`; an accepted image has a segment. -/
def firstSegmentAddress (elf : ElfImage) : UInt64 :=
  match elf.segments with
  | [] => 0
  | segment :: _ => segment.virtualAddress

def loadElfApp (kernel : PagingInfo) (l : Loading) (pid : UInt64) (appId : UInt32)
    (image : List UInt8) : Except Nat (Loading × Bool) :=
  if image = [] then .ok (l, false)
  else
    match validateImage image with
    | none => .ok (l, false)
    | some elf =>
      match prepareProcess kernel l pid appId with
      | (l, false) => .ok (l, false)
      | (l, true) =>
        loadImage image l (firstSegmentAddress elf) (elf.segments.flatMap segmentPages) elf.entry

/-! ## The record

  A load fills in what the process owns and leaves the rest of its record alone. The record is
  unused until the load is done. -/

/-- The record without what a load fills in. -/
def Process.core (p : Process) : Process :=
  { p with
    addressSpace := .zero
    imagePhysical := []
    stackPhysical := 0
    surfacePhysical := 0
    surfacePageCount := 0
    codeVirtual := 0
    stackVirtual := 0
    capabilities := ⟨0, fun _ => .zero⟩
    ipcEndpoint := 0 }

/-- The stage kept the rest of the record, or it failed and released everything. -/
def Keeps (p : Process) (r : Loading × Bool) : Prop :=
  r.1.process.core = p.core ∨ (r.2 = false ∧ r.1.process = .zero)

theorem Keeps.trans {q : Process} (h : Keeps q r) (hq : q.core = p.core) : Keeps p r := by
  rcases h with hcore | hzero
  · exact Or.inl (hcore.trans hq)
  · exact Or.inr hzero

theorem Keeps.of_true (h : Keeps p (l, true)) : l.process.core = p.core := by
  rcases h with hcore | ⟨hd, -⟩
  · exact hcore
  · cases hd

/-- Unless it completed, the record is unused. -/
theorem Keeps.unused (h : Keeps p r) (hp : p.state = .unused) : r.1.process.state = .unused := by
  rcases h with hcore | ⟨-, hzero⟩
  · have := congrArg Process.state hcore
    exact this.trans hp
  · rw [hzero]
    rfl

theorem releaseFailed_keeps (p : Process) (l : Loading) : Keeps p (releaseFailed l) :=
  Or.inr ⟨rfl, rfl⟩

/-- The record without what the preparation fills in, which does not record image pages. -/
def Process.outline (p : Process) : Process := { p.core with imagePhysical := p.imagePhysical }

/-- `Keeps`, for the stages of the preparation. -/
def Prepares (p : Process) (r : Loading × Bool) : Prop :=
  r.1.process.outline = p.outline ∨ (r.2 = false ∧ r.1.process = .zero)

theorem Prepares.trans {q : Process} (h : Prepares q r) (hq : q.outline = p.outline) :
    Prepares p r := h.imp_left fun houtline => houtline.trans hq

theorem core_of_outline {q : Process} (h : q.outline = p.outline) : q.core = p.core :=
  show q.outline.core = p.outline.core from congrArg Process.core h

theorem Prepares.keeps (h : Prepares p r) : Keeps p r := h.imp_left core_of_outline

theorem Prepares.of_true (h : Prepares p r) (hr : r.2 = true) :
    r.1.process.outline = p.outline := by
  rcases h with houtline | ⟨hd, -⟩
  · exact houtline
  · rw [hr] at hd
    cases hd

theorem releaseFailed_prepares (p : Process) (l : Loading) : Prepares p (releaseFailed l) :=
  Or.inr ⟨rfl, rfl⟩

theorem mapSurface_prepares (l : Loading) (left page : Nat) :
    Prepares l.process (mapSurface l left page) := by
  induction left generalizing l page with
  | zero => exact Or.inl rfl
  | succ left ih =>
    unfold mapSurface
    dsimp only
    split
    · exact releaseFailed_prepares _ _
    · exact (ih _ _).trans rfl

theorem grantAll_outline (p : Process) (grants : List (UInt32 × UInt16 × UInt64)) :
    (grantAll p grants).1.outline = p.outline := by
  induction grants generalizing p with
  | nil => rfl
  | cons g grants ih =>
    obtain ⟨type, rights, object⟩ := g
    have hone : (grantProcessCapability p type rights object).1.outline = p.outline := by
      unfold grantProcessCapability
      split
      · rfl
      · rfl
    unfold grantAll
    dsimp only
    split
    · exact hone
    · rw [ih, hone]

theorem authorizeApp_prepares (l : Loading) : Prepares l.process (authorizeApp l) := by
  unfold authorizeApp
  dsimp only
  split
  · exact releaseFailed_prepares _ _
  · split
    · exact releaseFailed_prepares _ _
    · exact Or.inl (grantAll_outline _ _)

theorem prepareSurface_prepares (l : Loading) : Prepares l.process (prepareSurface l) := by
  have hmap := mapSurface_prepares l surfacePageCount 0
  unfold prepareSurface
  dsimp only
  split
  · next hd =>
    rcases hmap with houtline | ⟨-, hzero⟩
    · exact Or.inl houtline
    · exact Or.inr ⟨rfl, hzero⟩
  · next hd =>
    rcases hmap with houtline | ⟨hf, -⟩
    · exact (authorizeApp_prepares _).trans houtline
    · exact absurd hf hd

theorem prepareApp_prepares (l : Loading) : Prepares l.process (prepareApp l) := by
  unfold prepareApp
  dsimp only
  split
  · exact releaseFailed_prepares _ _
  · exact (prepareSurface_prepares _).trans rfl

theorem prepareStack_prepares (l : Loading) : Prepares l.process (prepareStack l) := by
  unfold prepareStack
  dsimp only
  split
  · exact releaseFailed_prepares _ _
  · split
    · exact releaseFailed_prepares _ _
    · exact Or.inl rfl

/-- What preparation leaves: the fresh record with its parts, or an unused one. -/
theorem prepareProcess_record (hprep : prepareProcess kernel l pid appId = (l', done)) :
    (l.process.state = .unused → l'.process.state = .unused) ∧
      (done = true → l'.process.outline = (freshProcess pid appId).outline) := by
  unfold prepareProcess at hprep
  split at hprep
  · cases hprep
    exact ⟨id, fun hd => Bool.noConfusion hd⟩
  · dsimp only at hprep
    split at hprep
    · cases hprep
      exact ⟨fun _ => rfl, fun hd => Bool.noConfusion hd⟩
    · generalize hl : (⟨_, _, _⟩ : Loading) = l₁ at hprep
      have houtline : l₁.process.outline = (freshProcess pid appId).outline := by rw [← hl]; rfl
      have hstack := (prepareStack_prepares l₁).trans houtline
      split at hprep
      · cases hprep
        exact ⟨fun _ => hstack.keeps.unused rfl, fun hd => Bool.noConfusion hd⟩
      · next hd =>
        have houtline₂ := hstack.of_true (Bool.not_eq_false _ ▸ hd)
        split at hprep
        · cases hprep
          exact ⟨fun _ => hstack.keeps.unused rfl, fun _ => houtline₂⟩
        · have happ := (prepareApp_prepares (prepareStack l₁).1).trans houtline₂
          rw [hprep] at happ
          exact ⟨fun _ => happ.keeps.unused rfl, happ.of_true⟩

theorem loadPage_keeps {page : ImagePage} (hload : loadPage image l page = .ok r) :
    Keeps l.process r := by
  unfold loadPage at hload
  dsimp only at hload
  split at hload
  · cases hload
    exact releaseFailed_keeps _ _
  · split at hload
    · cases hload
    · split at hload
      · cases hload
        exact releaseFailed_keeps _ _
      · cases hload
        exact Or.inl rfl

theorem loadPages_keeps {pages : List ImagePage} (hload : loadPages image l pages = .ok r) :
    Keeps l.process r := by
  induction pages generalizing l with
  | nil =>
    cases hload
    exact Or.inl rfl
  | cons page pages ih =>
    unfold loadPages at hload
    split at hload
    · cases hload
    · next l₁ hpage =>
      cases hload
      exact loadPage_keeps hpage
    · next l₁ hpage => exact (ih hload).trans (loadPage_keeps hpage).of_true

/-- A completed load: a fresh record with its parts, made ready. -/
def Born (pid : UInt64) (appId : UInt32) (p : Process) : Prop :=
  ∃ q entry, q.core = (freshProcess pid appId).core ∧ p = initializeContext q entry

theorem Born.core (h : Born pid appId p) :
    p.core = { (freshProcess pid appId).core with context := p.context, state := .ready } := by
  obtain ⟨q, entry, hcore, rfl⟩ := h
  unfold initializeContext
  rw [← hcore]
  rfl

theorem loadImage_record {l₁ : Loading} {pages : List ImagePage} {code entry : UInt64}
    (hprep : prepareProcess kernel l pid appId = (l₁, true))
    (hload : loadImage image l₁ code pages entry = .ok (l', done)) :
    if done then Born pid appId l'.process else l'.process.state = .unused := by
  have hcore := core_of_outline ((prepareProcess_record hprep).2 rfl)
  unfold loadImage at hload
  split at hload
  · cases hload
  · next l₂ hpages =>
    cases hload
    exact ((loadPages_keeps hpages).trans (p := freshProcess pid appId) hcore).unused rfl
  · next l₂ hpages =>
    cases hload
    exact ⟨l₂.process, entry,
      ((loadPages_keeps hpages).trans (p := freshProcess pid appId) hcore).of_true, rfl⟩

theorem loadFlatProbe_record (h : l.process.state = .unused)
    (hload : loadFlatProbe kernel l pid image = .ok (l', done)) :
    if done then Born pid 0 l'.process else l'.process.state = .unused := by
  unfold loadFlatProbe at hload
  dsimp only at hload
  split at hload
  · cases hload
    exact h
  · split at hload
    · next l₁ hprep =>
      cases hload
      exact (prepareProcess_record hprep).1 h
    · next l₁ hprep => exact loadImage_record hprep hload

theorem loadElfApp_record (h : l.process.state = .unused)
    (hload : loadElfApp kernel l pid appId image = .ok (l', done)) :
    if done then Born pid appId l'.process else l'.process.state = .unused := by
  unfold loadElfApp at hload
  split at hload
  · cases hload
    exact h
  · split at hload
    · cases hload
      exact h
    · split at hload
      · next l₁ hprep =>
        cases hload
        exact (prepareProcess_record hprep).1 h
      · next l₁ hprep => exact loadImage_record hprep hload

end ArgusOs.Runtime
