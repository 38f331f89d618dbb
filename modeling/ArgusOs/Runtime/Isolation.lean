/-
  What ownership comes to.

    process_isolation     what a process can reach is its own: no page of another process, no
                          page table, no free page, nothing both writable and executable, and
                          nothing right below its stack
    lifecycle_conserves   starting, stopping and restarting apps moves pages between the
                          allocator and the processes and loses none
    kernelTables_kept     the page tables built at boot stay as they were built
    endpoints_of_apps     the endpoints in use are those of the apps, one each

  They hold of every reachable state, whatever user code does and whichever allocation fails.
  A load that runs out of room for image pages is a stop of its own, so nothing is assumed
  about the size of the images.
-/
import ArgusOs.Memory.KernelMap
import ArgusOs.Runtime.AppStart

namespace ArgusOs.Runtime

open Lib Memory Capability Ipc Elf

variable {mem₀ : Mem} {k k' : Kernel} {paging : PagingInfo} {frames : List Nat} {total : Nat}
  {images : Images}

/-! ## Isolation -/

/-- A user address of the process in slot `i` and what it translates to. -/
def Kernel.Reaches (k : Kernel) (i : Fin 8) (physical flags : UInt64) : Prop :=
  k.Live i ∧
    ∃ address, pagingUserTranslate k.phys.mem (k.processes i).addressSpace address =
      some (physical, flags)

theorem Housed.reaches (h : Housed paging mem₀ frames total k) {i : Fin 8} {physical flags : UInt64}
    (hr : k.Reaches i physical flags) :
    frameOf physical ∈ (k.processes i).dataFrames ∧
      (paging.nxEnabled = true → flags &&& pageWritable = 0 ∨ flags &&& pageNx ≠ 0) := by
  obtain ⟨hlive, address, ht⟩ := hr
  exact (h.live i hlive).translate ht

/-- **Isolation of processes.** In every reachable state: different processes reach different
    pages; a page a process reaches is no page table, of a process or of the kernel, and is in
    use; with NX, nothing is both writable and executable; and the page below a stack is not
    mapped. -/
theorem process_isolation (images : Images) (paging : PagingInfo) (frames : List Nat)
    (k₀ k : Kernel) (hheld : KernelHeld k₀.phys paging frames) (h : Reachable images paging k₀ k) :
    (∀ i j physical physical' flags flags', i ≠ j → k.Reaches i physical flags →
      k.Reaches j physical' flags' → frameOf physical ≠ frameOf physical') ∧
    (∀ i physical flags, k.Reaches i physical flags →
      (∀ j, ∀ table ∈ (k.processes j).addressSpace.tablePages,
        frameOf physical ≠ frameOf table) ∧
      (∀ depth table, TableFrom k.phys.mem paging.rootTable depth table →
        frameOf physical ≠ frameOf table) ∧
      k.phys.pmm.isUsed (frameOf physical) = true ∧
      (paging.nxEnabled = true → flags &&& pageWritable = 0 ∨ flags &&& pageNx ≠ 0)) ∧
    ∀ i, (k.processes i).state ≠ .unused →
      pagingUserTranslate k.phys.mem (k.processes i).addressSpace
        ((k.processes i).stackVirtual - UInt64.ofNat argusPageSize) = none := by
  have hhoused := (h.sound hheld).housed
  refine ⟨?_, ?_, fun i hlive => (hhoused.live i hlive).guard⟩
  · intro i j physical physical' flags flags' hne hi hj hc
    have hown := List.mem_append_right (k.processes i).addressSpace.frames (hhoused.reaches hi).1
    have hother := List.mem_append_right (k.processes j).addressSpace.frames (hhoused.reaches hj).1
    rw [hc] at hown
    exact hhoused.apart hne hown hother
  · intro i physical flags hi
    obtain ⟨hdata, hnx⟩ := hhoused.reaches hi
    have hown : frameOf physical ∈ (k.processes i).pages := List.mem_append_right _ hdata
    refine ⟨?_, ?_, ?_, hnx⟩
    · intro j table htable hc
      have htables : frameOf physical ∈ (k.processes j).addressSpace.frames := by
        rw [hc]
        exact List.mem_map_of_mem htable
      by_cases hij : i = j
      · rw [← hij] at htables
        exact data_not_table (hhoused.held_slot i).left hdata htables
      · exact hhoused.apart hij hown (List.mem_append_left _ htables)
    · intro depth table htable hc
      have hkernel := hheld.tableFrom hhoused.kernel htable
      apply hhoused.not_kernel hown
      rw [hc]
      exact (hheld.tables depth table hkernel).2
    · exact hhoused.held.used _ (List.mem_append_right _
        (mem_gather (f := fun i => (k.processes i).pages) hown))

/-- Two apps that have started reach their surfaces, in different pages. -/
theorem process_isolation_sample :
    ∃ k, Reachable presentingImages sampleKernel (.before sampleMachine) k ∧
      ∃ physical physical' flags flags', k.Reaches (catalogSlot 0) physical flags ∧
        k.Reaches (catalogSlot 1) physical' flags' ∧ frameOf physical ≠ frameOf physical' := by
  obtain ⟨-, -, k, -, -, hreach, -, -, hwaiting, -⟩ := sampleRuns_passed 0 (by decide)
  have hreaches : ∀ index, ∃ physical flags, k.Reaches (catalogSlot index) physical flags := by
    intro index
    obtain ⟨hblocked, -, physical, flags, hmapped⟩ := Kernel.waiting_app hwaiting index
    exact ⟨physical, flags, by rw [Kernel.Live, hblocked]; decide, _, hmapped⟩
  obtain ⟨physical, flags, hfirst⟩ := hreaches 0
  obtain ⟨physical', flags', hsecond⟩ := hreaches 1
  exact ⟨k, hreach, physical, physical', flags, flags', hfirst, hsecond,
    (process_isolation presentingImages sampleKernel [256] _ k sampleMachine_kernelHeld hreach).1
      _ _ _ _ _ _ (by decide) hfirst hsecond⟩

/-! ## The kernel's tables -/

/-- **From boot to user code.** `paging_init` holds the pages of its tables. If they are kept
    until `process_init`, then in every state reached from there each table has the entries it
    was built with, its page is in use, and no process reaches it. -/
theorem kernelTables_kept {boot : PagingBoot} {acpi : AcpiInfo} {nx : Bool} {s s' : Building}
    {info : KernelPaging} (hok : PmmOk s.phys.pmm)
    (h : pagingInit boot acpi nx s = (s', some info)) :
    ∃ frames, Held s'.phys.pmm frames ∧
      ∀ images k₀ k, PmmOk k₀.phys.pmm → Held k₀.phys.pmm frames →
        (∀ a, a / argusPageSize ∈ frames → k₀.phys.mem a = s'.phys.mem a) →
        Reachable images ⟨info.rootTable, nx⟩ k₀ k →
        ∀ depth table, TableFrom s'.phys.mem info.rootTable depth table →
          (∀ index < 512, entryAt k.phys.mem table index = entryAt s'.phys.mem table index) ∧
          k.phys.pmm.isUsed (frameOf table) = true ∧
          ∀ i physical flags, k.Reaches i physical flags → frameOf physical ≠ frameOf table := by
  obtain ⟨frames, hbuilt⟩ := pagingInit_kernelHeld hok h
  refine ⟨frames, hbuilt.held, ?_⟩
  intro images k₀ k hok₀ hheld₀ hsame hreach depth table htable
  have hroot : frameOf info.rootTable ∈ frames := (hbuilt.tables 0 _ .root).2
  have hheld : KernelHeld k₀.phys ⟨info.rootTable, nx⟩ frames :=
    ⟨hok₀, hheld₀, fun depth table ht => hbuilt.tables depth table (hbuilt.tableFrom hsame ht),
      hbuilt.root.frame fun a ha => hsame a (ha ▸ hroot)⟩
  have hhoused := (hreach.sound hheld).housed
  obtain ⟨hpage, hframe⟩ := hbuilt.tables depth table htable
  refine ⟨fun index hi => entryAt_congr hpage.1 hi fun a ha => ?_,
    hhoused.held.used _ (List.mem_append_left _ hframe), fun i physical flags hr hc => ?_⟩
  · have ha' : a / argusPageSize ∈ frames := ha ▸ hframe
    exact (hhoused.kernel a ha').trans (hsame a ha')
  · exact hhoused.not_kernel (List.mem_append_right _ (hhoused.reaches hr).1) (hc ▸ hframe)

/-- The root table after `process_init` on the machine for which it was built. -/
theorem kernelTables_kept_sample :
    ∃ s' info k, pagingInit sampleBoot sampleAcpi true ⟨sampleMachine, 0⟩ = (s', some info) ∧
      processInit sampleImages ⟨info.rootTable, true⟩ (.before s'.phys) = .ok (k, true) ∧
      (∀ index < 512,
        entryAt k.phys.mem info.rootTable index = entryAt s'.phys.mem info.rootTable index) ∧
      k.phys.pmm.isUsed (frameOf info.rootTable) = true := by
  have h : ((pagingInit sampleBoot sampleAcpi true ⟨sampleMachine, 0⟩).2.any fun info =>
      (processInit sampleImages ⟨info.rootTable, true⟩
        (.before (pagingInit sampleBoot sampleAcpi true ⟨sampleMachine, 0⟩).1.phys)).toOption.any
        fun r => r.2) = true := by decide +kernel
  rw [Option.any_eq_true] at h
  obtain ⟨info, hinfo, h⟩ := h
  have hbuilt := built_eq hinfo
  generalize (pagingInit sampleBoot sampleAcpi true ⟨sampleMachine, 0⟩).1 = s' at h hbuilt
  obtain ⟨⟨k, done⟩, hinit, hdone⟩ := ok_of_toOption_any h
  change done = true at hdone
  subst hdone
  obtain ⟨_, hheld⟩ := pagingInit_kernelHeld sampleMachine_pmmOk hbuilt
  obtain ⟨frames, hkept, hall⟩ := kernelTables_kept sampleMachine_pmmOk hbuilt
  obtain ⟨hentries, hused, -⟩ := hall sampleImages _ k hheld.ok hkept (fun _ _ => rfl)
    (.init hinit) 0 _ .root
  exact ⟨_, info, k, hbuilt, hinit, hentries, hused⟩

/-! ## Conservation -/

/-- The pages of the processes that are there. -/
def Kernel.livePages (k : Kernel) : List Nat :=
  gather fun i => if (k.processes i).state = .unused then [] else (k.processes i).pages

theorem Housed.livePages (h : Housed paging mem₀ frames total k) : k.livePages = k.ownedPages := by
  unfold Kernel.livePages Kernel.ownedPages
  congr 1
  funext i
  split
  · next hun => exact (h.idle i hun).pages.symm
  · rfl

/-- The calls that start and stop apps. -/
def Call.lifecycle : Call → Prop
  | .appStart .. => True
  | .appStop .. => True
  | .appRestart .. => True
  | _ => False

/-- Any number of such calls, whatever they return. -/
abbrev Lifecycle (images : Images) : Kernel → Kernel → Prop :=
  Relation.ReflTransGen fun k k' =>
    ∃ call : Call, call.lifecycle ∧ ∃ result, call.exec images k = .ok (k', result)

theorem Lifecycle.back (hcur : k.currentProcess = none) (h : Lifecycle images k k') :
    Back images k k' := by
  induction h with
  | refl => exact .refl hcur
  | tail _ hcall ih =>
    obtain ⟨call, -, result, hexec⟩ := hcall
    exact ih.trans (call_steps images ih.current call _ hexec).1

/-- Stop every app of the catalog. -/
def stopAll (k : Kernel) : Kernel :=
  (processAppStop 3 (processAppStop 2 (processAppStop 1 k).1).1).1

theorem stopAll_lifecycle (images : Images) (k : Kernel) : Lifecycle images k (stopAll k) := by
  have hone : ∀ (appId : UInt32) (k : Kernel), Lifecycle images k (processAppStop appId k).1 :=
    fun appId k => .single ⟨.appStop appId, trivial, _, rfl⟩
  exact ((hone 1 k).trans (hone 2 _)).trans (hone 3 _)

theorem Step.passed (hs : Step images k k') (h : k.processSelfTestPassed = true) :
    k'.processSelfTestPassed = true := by
  have hsame : ∀ {k k' : Kernel}, SameKernel k k' → k.processSelfTestPassed = true →
      k'.processSelfTestPassed = true := by
    intro k k' hk hp
    rw [hk]
    exact hp
  cases hs with
  | user i event hrun hev => exact hsame (userEvent_step hrun images event _ hev).kernel h
  | @leave k' i event action hrun hev _ =>
    show k'.processSelfTestPassed = true
    exact hsame (userEvent_step hrun images event _ hev).kernel h
  | input appId key _ =>
    rcases processAppInput_cases appId key k with heq | ⟨i, -, -, -, -, -, hk, -⟩
    · rw [heq]
      exact h
    · exact hsame hk h
  | cursor position passed hpassed => exact hpassed h
  | loadProbe image preemption done _ _ hload | loadApp index done _ _ hload =>
    obtain ⟨l, -, rfl⟩ := loaded_eq hload
    split
    · exact h
    · exact h
  | enter | wake | setActive | timerTick | release | bare => exact h

theorem processRunSelfTest_passed (images : Images) (runs : SelfTestRuns) (k : Kernel) :
    Ensures (processRunSelfTest images runs k) fun r =>
      r.2 = true → r.1.processSelfTestPassed = true := by
  unfold processRunSelfTest
  refine Ensures.ite (fun _ => Ensures.ok fun hc => Bool.noConfusion hc) fun _ => ?_
  refine Ensures.bind_eq fun probes _ => ?_
  refine Ensures.ite (fun hd => Ensures.ok fun hc => absurd (hd.symm.trans hc) (by decide)) fun _ =>
    ?_
  refine Ensures.bind_eq fun apps _ => ?_
  refine Ensures.ite (fun hd => Ensures.ok fun hc => absurd (hd.symm.trans hc) (by decide)) fun _ =>
    ?_
  exact Ensures.ok fun _ => rfl

/-- The probes of `process_init` are there with the pages they had. -/
def ProbesKept (k₁ k : Kernel) : Prop :=
  ∀ i : Fin 8, i.val < 2 → k.Live i ∧ (k.processes i).pages = (k₁.processes i).pages

theorem ProbesKept.step {k₁ : Kernel} (h : ProbesKept k₁ k) (hk : Scheduled k)
    (hs : Step images k k') : ProbesKept k₁ k' := by
  intro i hi
  obtain ⟨hlive, hpages⟩ := h i hi
  unfold Kernel.Live
  cases hs.resources hk with
  | keep hkept =>
    have hr := hkept.records i
    exact ⟨fun hc => hlive (hr.live.mp hc), hr.pages_eq.trans hpages⟩
  | load j appId l done _ hfree _ hsame =>
    have hne : i ≠ j := by
      intro hc
      rw [hc] at hlive
      exact hlive hfree
    rw [hsame.processes, store_of_ne k l hne]
    exact ⟨hlive, hpages⟩
  | release j happ _ hsame =>
    have hne : i ≠ j := by
      intro hc
      rw [hc] at hi
      omega
    have hsame' : k'.processes i = k.processes i := by
      rw [hsame.processes]
      exact store_of_ne k _ hne
    rw [hsame']
    exact ⟨hlive, hpages⟩

/-- With no app there, the processes own what they owned at first. -/
theorem Housed.bare_free {k₁ : Kernel} (h₁ : Housed paging mem₀ frames total k₁)
    (h : Housed paging mem₀ frames total k) (hprobes : ProbesKept k₁ k) (hbare₁ : Bare k₁)
    (hbare : Bare k) : k.phys.pmm.freeCount = k₁.phys.pmm.freeCount := by
  have howned : k.ownedPages = k₁.ownedPages := by
    unfold Kernel.ownedPages
    congr 1
    funext i
    by_cases hi : i.val < 2
    · exact (hprobes i hi).2
    · rw [(h.idle i (hbare i (Nat.not_lt.mp hi))).pages,
        (h₁.idle i (hbare₁ i (Nat.not_lt.mp hi))).pages]
  have hfree := h.free
  have hfree₁ := h₁.free
  rw [howned] at hfree
  omega

theorem processAppStop_unused (hserving : k.serving = true) {appId : UInt32} {i : Fin 8}
    (hslot : appSlot appId = some i) :
    (processAppStop appId k).1.serving = true ∧
      ∀ j, j = i ∨ (k.processes j).state = .unused →
        ((processAppStop appId k).1.processes j).state = .unused := by
  have hfind : findCatalog appId ≠ none := by
    intro hc
    unfold appSlot at hslot
    rw [hc] at hslot
    cases hslot
  unfold processAppStop
  rw [if_neg (by rw [hserving]; simp [hfind])]
  unfold Kernel.releaseApp findApp
  rw [hslot]
  dsimp only
  by_cases hun : (k.processes i).state = .unused
  · rw [if_pos hun]
    refine ⟨hserving, ?_⟩
    rintro j (rfl | hj)
    · exact hun
    · exact hj
  · rw [if_neg hun]
    refine ⟨hserving, ?_⟩
    intro j hj
    by_cases hji : j = i
    · rw [hji]
      exact congrArg Process.state (store_same k i _)
    · have hsame : (k.release i).processes j = k.processes j := store_of_ne k _ hji
      show ((k.release i).processes j).state = .unused
      rw [hsame]
      exact hj.resolve_left hji

/-- Slots behind the catalog's are never used. -/
theorem Placed.bare_of_apps (h : Placed k)
    (happs : ∀ index, (k.processes (catalogSlot index)).state = .unused) : Bare k := by
  intro i hi
  by_contra hlive
  rcases h i hlive with ⟨hle, -⟩ | ⟨index, hc, -⟩
  · have : i = catalogSlot 0 := Fin.ext (by
      show i.val = 2 + 0
      omega)
    rw [this] at hlive
    exact hlive (happs 0)
  · rw [hc] at hlive
    exact hlive (happs index)

theorem stopAll_apps (hserving : k.serving = true) (index : Fin 3) :
    ((stopAll k).processes (catalogSlot index)).state = .unused := by
  obtain ⟨hs₁, h₁⟩ := processAppStop_unused hserving (show appSlot 1 = some 2 by decide)
  obtain ⟨hs₂, h₂⟩ := processAppStop_unused hs₁ (show appSlot 2 = some 3 by decide)
  obtain ⟨-, h₃⟩ := processAppStop_unused hs₂ (show appSlot 3 = some 4 by decide)
  apply h₃
  match index with
  | 0 => exact Or.inr (h₂ _ (Or.inr (h₁ _ (Or.inl rfl))))
  | 1 => exact Or.inr (h₂ _ (Or.inl rfl))
  | 2 => exact Or.inl rfl

/-- **The life of apps conserves resources.** From the state after the self-test on, for every
    sequence of calls that start, stop and restart apps: free pages and pages of processes sum to
    the same number; the pages of processes are different and in use; there are as many used
    endpoints as apps; and whenever only the probes are left, the free count is what it was when
    `process_init` had loaded them and no app. After a self-test that passed, stopping every app
    leads there. -/
theorem lifecycle_conserves (images : Images) (paging : PagingInfo) (frames : List Nat)
    (runs : SelfTestRuns) (k₀ k₁ k k' : Kernel) (passed : Bool)
    (hheld : KernelHeld k₀.phys paging frames)
    (hinit : processInit images paging k₀ = .ok (k₁, true))
    (htest : processRunSelfTest images runs k₁ = .ok (k, passed)) (hrun : Lifecycle images k k') :
    k'.phys.pmm.freeCount + k'.livePages.length = k.phys.pmm.freeCount + k.livePages.length ∧
    k'.livePages.Nodup ∧ (∀ f ∈ k'.livePages, k'.phys.pmm.isUsed f = true) ∧
    slotCount (fun slot => (k'.ipc slot).used) = slotCount (fun i => (k'.processes i).isApp) ∧
    (Bare k' → k'.phys.pmm.freeCount = k₁.phys.pmm.freeCount) ∧
    (passed = true → Bare (stopAll k') ∧
      (stopAll k').phys.pmm.freeCount = k₁.phys.pmm.freeCount) := by
  have hinitial := processInit_initial hinit
  have htested := processRunSelfTest_back images hinitial.current runs hinitial.bare _ htest
  have hback := Lifecycle.back htested.current hrun
  have hstopped := Lifecycle.back hback.current (stopAll_lifecycle images k')
  -- the invariants, along the whole run
  have hin := (hheld.tables 0 _ .root).2
  have hsound₁ := processInit_sound hheld hinit
  have hstep : ∀ k k',
      Sound paging k₀.phys.mem frames k₀.phys.pmm.freeCount k ∧ ProbesKept k₁ k →
      Step images k k' →
      Sound paging k₀.phys.mem frames k₀.phys.pmm.freeCount k' ∧ ProbesKept k₁ k' :=
    fun k k' hk hs => ⟨hk.1.step hheld.root hin hs, hk.2.step hk.1.scheduled hs⟩
  have hprobes₁ : ProbesKept k₁ k₁ := by
    intro i hi
    refine ⟨?_, rfl⟩
    rw [Kernel.Live, hinitial.probes i hi]
    decide
  have hk := Steps.invariant hstep htested.steps ⟨hsound₁, hprobes₁⟩
  have hk' := Steps.invariant hstep hback.steps hk
  have hkstop := Steps.invariant hstep hstopped.steps hk'
  have hheld' := hk'.1.housed.held
  rw [hk'.1.housed.livePages, hk.1.housed.livePages]
  refine ⟨hk'.1.housed.free.trans hk.1.housed.free.symm, (List.nodup_append.mp hheld'.nodup).2.1,
    fun f hf => hheld'.used f (List.mem_append_right _ hf), hk'.1.wired.count, ?_, ?_⟩
  · intro hbare
    exact hsound₁.housed.bare_free hk'.1.housed hk'.2 hinitial.bare hbare
  · intro hpassed
    have hpassed' : k'.processSelfTestPassed = true :=
      Steps.invariant (fun _ _ hp hs => hs.passed hp) hback.steps
        (processRunSelfTest_passed images runs k₁ _ htest hpassed)
    have hserving : k'.serving = true := by
      unfold Kernel.serving
      rw [hpassed', hback.current]
      rfl
    have hbare := hkstop.1.placed.bare_of_apps (stopAll_apps hserving)
    exact ⟨hbare, hsound₁.housed.bare_free hkstop.1.housed hkstop.2 hinitial.bare hbare⟩

/-- The self-test passes on the sample machine, and after stopping all apps the count of free
    pages is the one before it. -/
theorem lifecycle_conserves_presenting :
    ∃ runs k₁ k, processInit presentingImages sampleKernel (.before sampleMachine) =
      .ok (k₁, true) ∧
      processRunSelfTest presentingImages runs k₁ = .ok (k, true) ∧ Bare (stopAll k) ∧
      (stopAll k).phys.pmm.freeCount = k₁.phys.pmm.freeCount := by
  obtain ⟨runs, k₁, k, hinit, htest, -⟩ := sampleRuns_passed 0 (by decide)
  refine ⟨runs, k₁, k, hinit, htest, ?_⟩
  exact (lifecycle_conserves presentingImages sampleKernel [256] _
    (.before sampleMachine) k₁ k k true
    sampleMachine_kernelHeld hinit htest .refl).2.2.2.2.2 rfl

/-! ## Endpoints -/

/-- The process in slot `i` is an app, and this is its endpoint. -/
def Kernel.Owns (k : Kernel) (i slot : Fin 8) : Prop :=
  (k.processes i).isApp = true ∧ resolveEndpoint k.ipc (k.processes i).ipcEndpoint = some slot

theorem Wired.owner_unique (h : Wired k) {i j slot : Fin 8} (hi : k.Owns i slot)
    (hj : k.Owns j slot) : i = j := by
  have hri := hi.2
  have hrj := hj.2
  rw [resolveEndpoint_eq_some] at hri hrj
  exact h.apart i j hi.1 hj.1 (hri.2.symm.trans hrj.2)

/-- **Endpoints are the apps'.** In every reachable state an endpoint is in use just if exactly
    one app owns it, and then no message waits in it. -/
theorem endpoints_of_apps (k₀ : Kernel) (hheld : KernelHeld k₀.phys paging frames)
    (h : Reachable images paging k₀ k) (slot : Fin 8) :
    ((k.ipc slot).used = true ↔ ∃! i, k.Owns i slot) ∧
      ((k.ipc slot).used = true → (k.ipc slot).count = 0) := by
  have hwired := (h.sound hheld).wired
  have hused : ∀ i slot, k.Owns i slot → (k.ipc slot).used = true :=
    fun i slot hi => ((resolveEndpoint_eq_some ..).mp hi.2).1
  refine ⟨⟨fun hslot => ?_, fun ⟨i, hi, _⟩ => hused i slot hi⟩, hwired.empty slot⟩
  choose! f hf using fun i hi => (hwired.linked i hi).imp fun _ hs => (⟨hi, hs.1⟩ : k.Owns i _)
  -- as many endpoints are used as there are apps, so none is left over
  obtain ⟨i, hi, rfl⟩ := exists_of_slotCount_le hwired.count.le (fun i hi => hused i _ (hf i hi))
    (fun i j hi hj hij => hwired.owner_unique (hf i hi) (hij ▸ hf j hj)) hslot
  exact ⟨i, hf i hi, fun j hj => hwired.owner_unique hj (hf i hi)⟩

/-- After a self-test in which the apps have started. -/
theorem endpoints_of_apps_presenting :
    ∃ k : Kernel, k.shows 0 = true ∧ ∀ slot, (k.ipc slot).used = true ↔ ∃! i, k.Owns i slot := by
  obtain ⟨-, -, k, -, -, hreach, -, hshows, -⟩ := sampleRuns_passed 0 (by decide)
  exact ⟨k, hshows, fun slot => (endpoints_of_apps _ sampleMachine_kernelHeld hreach slot).1⟩

end ArgusOs.Runtime
