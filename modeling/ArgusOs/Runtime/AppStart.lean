/-
  Apps that start.

  A completed load leaves a clear surface, so that the app can present it (`LoadDone.painted`).
  Looking at all its pixels is the long part of a start. `startPresenting` is `start_app_internal`
  for a run that presents first, without that part: whenever it gives a kernel, the call itself
  ends with this kernel (`startPresenting_eq`). So a whole self-test can be evaluated, with its
  probes and the three apps (`sampleRuns_passed`).
-/
import ArgusOs.Runtime.ImageContents
import ArgusOs.Runtime.Wiring

namespace ArgusOs.Runtime

open Lib Memory Capability Ipc Elf

variable {images : Images} {index : Fin 3} {k k' : Kernel} {i : Fin 8} {c : UserContext}
  {rest : List UserEvent}

/-! ## Presenting -/

theorem LoadDone.painted {kernel : PagingInfo} {l l' : Loading} {pid : UInt64} {appId : UInt32}
    {x : Parts} {map : UserMap} {elf : ElfImage}
    (h : LoadDone kernel l l' pid appId x map elf.entry) (happ : appId ≠ 0) :
    appSurfaceValid l'.phys.mem l'.process = true := by
  have ho := h.outfit.app happ
  have halign := (surface_run h happ).page.1
  rw [h.process]
  unfold appSurfaceValid
  rw [Bool.and_eq_true, List.all_eq_true]
  refine ⟨decide_eq_true ho.surface, ?_⟩
  intro i hi
  rw [List.mem_range] at hi
  have hclear := ho.cleared (x.surface.toNat + i) (by
    unfold argusAppSurfaceBytes at hi
    rw [List.mem_range'_1, surfacePageCount_eq]
    unfold frameOf argusPageSize
    omega)
  show decide (l'.phys.mem (x.surface.toNat + i) < argusAppPaletteCount) = true
  rw [show l'.phys.mem (x.surface.toNat + i) = 0 from hclear]
  decide

theorem present_event (hrun : k.running = some i) (hcall : c.rax = syscallAppPresent)
    (hvalid : appSurfaceValid k.phys.mem (k.processes i) = true) :
    userEvent images k (.syscall c) =
      (presentWith k.countSyscall i c true).map fun entry => (entry.1, entry.2.2) := by
  have hswitch : syscallSwitch k.countSyscall i c = sysAppPresent k.countSyscall i c := by
    simp [syscallSwitch, hcall, syscallAppPresent, syscallWrite, syscallGetpid, syscallYield,
      syscallExit, syscallClockTicks, syscallInputPoll]
  have hpresent : sysAppPresent k.countSyscall i c =
      presentWith k.countSyscall i c (appSurfaceValid k.phys.mem (k.processes i)) := rfl
  show (syscallDispatch k c >>= _) = _
  unfold syscallDispatch
  rw [hrun]
  dsimp only
  rw [hswitch, hpresent, hvalid]
  cases presentWith k.countSyscall i c true with
  | error stop | ok entry => rfl

/-! ## The start of an app -/

/-- The app in slot `i` is ready to be dispatched for the first time, by a call to present. -/
def Kernel.fresh (k : Kernel) (i : Fin 8) (c : UserContext) : Bool :=
  c.rax = syscallAppPresent && i.val < k.configuredProcesses && (k.processes i).state = .ready &&
    !(k.processes i).presentValid && appMappingIsolated k.phys.mem (k.processes i)

/-- The app in slot `i` has presented and waits. -/
def Kernel.settled (k : Kernel) (i : Fin 8) : Bool :=
  (k.processes i).presentValid && (k.processes i).state = .blocked

/-- The first dispatch of an app, its pixels taken for valid. -/
def dispatchPresenting (images : Images) (i : Fin 8) (c : UserContext) (rest : List UserEvent)
    (k : Kernel) : Option Kernel :=
  match presentWith (k.enter i).countSyscall i c true with
  | .ok (k₁, _, .ret) =>
    match archResumeUser images rest k₁ with
    | .ok (k₂, .wait) => if k.fresh i c && k₂.settled i then some k₂.leave else none
    | _ => none
  | _ => none

def startPresenting (images : Images) (index : Fin 3) (c : UserContext) (rest : List UserEvent)
    (k : Kernel) : Option Kernel :=
  match k.loadApp images index with
  | .ok (k₁, true) =>
    dispatchPresenting images (catalogSlot index) c rest (k₁.cover (catalogSlot index))
  | _ => none

theorem dispatchPresenting_eq (hvalid : appSurfaceValid k.phys.mem (k.processes i) = true)
    (h : dispatchPresenting images i c rest k = some k') :
    dispatchProcess images i (.syscall c :: rest) k = .ok (k', true) ∧ k.fresh i c = true ∧
      k'.settled i = true := by
  unfold dispatchPresenting at h
  split at h
  · next k₁ c₁ hpresent =>
    split at h
    · next k₂ hresume =>
      split at h
      · next hchecks =>
        rw [Bool.and_eq_true] at hchecks
        obtain ⟨hfresh, hsettled⟩ := hchecks
        rw [Option.some.injEq] at h
        refine ⟨?_, hfresh, by rw [← h]; exact hsettled⟩
        unfold Kernel.fresh at hfresh
        simp only [Bool.and_eq_true, decide_eq_true_eq] at hfresh
        obtain ⟨⟨⟨⟨hcall, hconf⟩, hready⟩, -⟩, -⟩ := hfresh
        have hrunning : (k.enter i).running = some i := by
          show (if i.val ≥ k.configuredProcesses then none else some i) = some i
          rw [if_neg (Nat.not_le.mpr hconf)]
        have hevent := @present_event images _ _ _ hrunning hcall (by rw [enter_self]; exact hvalid)
        have hwait : archResumeUser images (.syscall c :: rest) (k.enter i) = .ok (k₂, .wait) := by
          rw [archResumeUser, hevent, hpresent]
          exact hresume
        unfold dispatchProcess
        rw [if_neg (not_or.mpr ⟨Nat.not_le.mpr hconf, not_not.mpr hready⟩), hwait, ← h]
        have hblocked := of_decide_eq_true (Bool.and_eq_true_iff.mp hsettled).2
        show Except.ok (k₂.leave,
          decide (some ProcessState.blocked = some (k₂.processes i).state)) = _
        rw [hblocked]
        rfl
      · cases h
    · cases h
  · cases h

theorem startLoaded_presenting (hvalid : appSurfaceValid k.phys.mem (k.processes i) = true)
    (h : dispatchPresenting images i c rest k = some k') :
    startLoaded images i [.syscall c :: rest] k = .ok (k', true) := by
  obtain ⟨hdispatch, hfresh, hsettled⟩ := dispatchPresenting_eq hvalid h
  unfold Kernel.fresh at hfresh
  simp only [Bool.and_eq_true, decide_eq_true_eq, Bool.not_eq_true'] at hfresh
  obtain ⟨⟨⟨-, hready⟩, hsilent⟩, hisolated⟩ := hfresh
  have hruns : startDispatches images i appStartDispatchLimit [.syscall c :: rest] k = .ok k' := by
    rw [show appStartDispatchLimit = 30 + 1 + 1 from rfl, startDispatches, if_neg]
    · show (dispatchProcess images i (.syscall c :: rest) k >>= _) = _
      rw [hdispatch]
      exact if_pos (Or.inl hsettled)
    · rw [hsilent, not_or, not_not]
      exact ⟨by simp, hready⟩
  unfold startLoaded
  rw [if_neg (by rw [hisolated]; decide), hruns]
  unfold Kernel.settled at hsettled
  rw [Bool.and_eq_true, decide_eq_true_eq] at hsettled
  show Except.ok (k', (k'.processes i).started) = _
  unfold Process.started
  rw [hsettled.1, hsettled.2]
  rfl

theorem catalogAppId_ne_zero (index : Fin 3) : catalogAppId index ≠ 0 := by
  decide +revert

theorem findCatalog_of_index (index : Fin 3) : findCatalog (catalogAppId index) = some index := by
  decide +revert

theorem startPresenting_eq (hpre : LoadPre k.kernelPaging k.phys)
    (hidle : Idle (k.processes (catalogSlot index)))
    (hslot : (k.processes (catalogSlot index)).state = .unused)
    (h : startPresenting images index c rest k = some k') :
    startAppInternal images (catalogAppId index) [.syscall c :: rest] k = .ok (k', true) := by
  unfold startPresenting at h
  split at h
  · next k₁ hload =>
    have hpainted : appSurfaceValid k₁.phys.mem (k₁.processes (catalogSlot index)) = true := by
      unfold Kernel.loadApp Kernel.loaded at hload
      split at hload
      · cases hload
      · next l done heq =>
        obtain ⟨rfl, rfl⟩ := Prod.mk.inj (Except.ok.inj hload)
        rcases loadElfApp_spec hpre hidle _ _ _ _ heq with
          ⟨-, elf, x, map, -, hdone, -⟩ | ⟨hfalse, -⟩
        · rw [store_same]
          exact hdone.painted (catalogAppId_ne_zero index)
        · cases hfalse
    unfold startAppInternal
    rw [findCatalog_of_index]
    show startCatalog images index _ k = _
    unfold startCatalog
    rw [if_neg (not_not.mpr hslot), hload]
    exact startLoaded_presenting hpainted h
  · cases h

/-- The apps after one that starts with a surface of its own. -/
theorem startCatalogApps_cons {runs : Fin 3 → List (List UserEvent)} (rest : List (Fin 3))
    (hstart : startAppInternal images (catalogAppId index) (runs index) k = .ok (k', true))
    (hapart : index.val ≠ 0 → (k'.processes (catalogSlot index)).surfacePhysical ≠
      (k'.processes (catalogSlot (index - 1))).surfacePhysical) :
    startCatalogApps images runs (index :: rest) k = startCatalogApps images runs rest k' := by
  rw [startCatalogApps, hstart]
  show (if _ ∧ _ then _ else startCatalogApps images runs rest k') = _
  rw [if_neg fun hc => hapart hc.1 hc.2]

/-! ## A self-test that passes -/

/-- The one-page image with a request behind its headers. -/
def presentingImage : List UInt8 :=
  onePageImage.set 96 192 ++
    [0x31, 0x50, 0x50, 0x41, 1, 0, 0, 0, 1, 0, 0, 0, 0, 0, 0, 0]

def presentingImages : Images := { sampleImages with apps := fun _ => presentingImage }

def callWith (rax rdi rsi : UInt64) : UserEvent :=
  .syscall { UserContext.zero with rax := rax, rdi := rdi, rsi := rsi }

def interruptWith (vector : UInt64) : UserEvent := .interrupt ⟨.zero, vector, 0, 3⟩ 0

/-- Each probe writes, asks for the network and yields; then it writes, asks for its id and exits.
    The third probe raises an exception and the fourth is interrupted by the timer. -/
def sampleRuns : SelfTestRuns where
  probes :=
    let first := [callWith syscallWrite 0x8000001000 1, callWith syscallAnonymousConnect 0 0,
      callWith syscallYield 0 0]
    let second := [callWith syscallWrite 0x8000001000 1, callWith syscallGetpid 0 0,
      callWith syscallExit 0 0]
    [first, first, second, second]
  fault := [interruptWith 6]
  spin := [interruptWith 0x40]
  apps := fun _ => []

/-- The handle a new process has for the grant in this slot. -/
def firstHandle (pid : UInt64) (slot : Fin 16) (type : UInt32) : UInt64 :=
  makeHandle slot { (capabilityTableInit pid).entries slot with type := type.toUInt16 }

/-- The call with which an app presents the request of its image. -/
def presentContext (pid : UInt64) : UserContext :=
  { UserContext.zero with
    rax := syscallAppPresent
    rdi := 0x80000010B0
    rsi := appPresentSize
    rdx := firstHandle pid 2 capabilitySurface }

/-- Then it stores `value` into its first pixel and waits for a key or tick 1000. -/
def showing (pid : UInt64) (value : UInt8) : List UserEvent :=
  [.store argusAppSurfaceAddress value,
    callWith syscallEventWait (firstHandle pid 1 capabilityInput) 1000]

/-- The app starts in a free slot, with another surface than the app before it, and `next` holds
    afterwards. -/
def startsNext (index : Fin 3) (pid : UInt64) (value : UInt8) (next : Kernel → Bool) (k : Kernel) :
    Bool :=
  (k.processes (catalogSlot index)).state = .unused &&
    (startPresenting presentingImages index (presentContext pid) (showing pid value)
      k).any fun k' =>
      decide (index.val ≠ 0 → (k'.processes (catalogSlot index)).surfacePhysical ≠
        (k'.processes (catalogSlot (index - 1))).surfacePhysical) && next k'

/-- The third app is shown with `value` in its first pixel, and no store of 0 is late. -/
def Kernel.shows (value : UInt8) (k : Kernel) : Bool :=
  ((processAppSurface k 3).any fun shown => k.phys.mem shown.1.toNat = value) &&
    (value ≠ 0 || k.lateStores = 0)

/-- Every app is blocked, and stays so when the scheduler wakes processes; its surface is mapped. -/
def Kernel.waiting (k : Kernel) : Bool :=
  (List.finRange 3).all fun index =>
    let i := catalogSlot index
    (k.processes i).state = .blocked && ((wakeBlockedProcesses k).processes i).state = .blocked &&
      (pagingUserTranslate k.phys.mem (k.processes i).addressSpace argusAppSurfaceAddress).isSome

/-- Two keys are accepted for the third app, which has none and is ready then. -/
def Kernel.takesKeys (k : Kernel) : Bool :=
  let first := processAppInput 3 97 k
  let second := processAppInput 3 98 first.1
  let app := second.1.processes (catalogSlot 2)
  first.2 && second.2 && app.state = .ready && app.appId = 3 &&
    (k.processes (catalogSlot 2)).accepted = [] && (k.processes (catalogSlot 2)).returned = []

/-- The probes pass and the apps start, with either of two values stored by the last one. -/
theorem sampleRuns_evaluated :
    ((processInit presentingImages sampleKernel (.before sampleMachine)).toOption.any
      fun init => init.2 && init.1.schedulerReady &&
        (selfTestProbes presentingImages sampleRuns init.1).toOption.any
          fun probes => probes.2 && startsNext 0 5 0 (startsNext 1 6 0 fun k =>
            [0, 255].all fun value => startsNext 2 7 value (fun k =>
              let k := { k with processSelfTestPassed := true, schedulerCursor := 0 }
              k.shows value && k.waiting && (processAppSetActive k 3).takesKeys) k) probes.1) =
      true := by
  decide +kernel

theorem startsNext_start {paging : PagingInfo} {mem₀ : Mem} {frames : List Nat} {total : Nat}
    (hroot : KernelRoot mem₀ paging) (hin : frameOf paging.rootTable ∈ frames)
    (hsound : Sound paging mem₀ frames total k) (hcur : k.currentProcess = none)
    {pid : UInt64} {value : UInt8} {next : Kernel → Bool}
    (h : startsNext index pid value next k = true) (runs : Fin 3 → List (List UserEvent))
    (hruns : runs index = [.syscall (presentContext pid) :: showing pid value]) :
    ∃ k', next k' = true ∧ Sound paging mem₀ frames total k' ∧ k'.currentProcess = none ∧
      ∀ rest, startCatalogApps presentingImages runs (index :: rest) k =
        startCatalogApps presentingImages runs rest k' := by
  unfold startsNext at h
  rw [Bool.and_eq_true, decide_eq_true_eq, Option.any_eq_true] at h
  obtain ⟨hslot, k', hk', h⟩ := h
  rw [Bool.and_eq_true, decide_eq_true_eq] at h
  have hhoused := hsound.housed
  have hstart := startPresenting_eq (hhoused.loadPre hroot hin) (hhoused.idle _ hslot) hslot hk'
  rw [← hruns] at hstart
  have hback := startAppInternal_back presentingImages hcur _ _ _ hstart
  exact ⟨k', h.2, Steps.invariant (fun _ _ hs h => hs.step hroot hin h) hback.steps hsound,
    hback.current, fun rest => startCatalogApps_cons rest hstart h.1⟩

/-- The self-test passes on the sample machine, whichever of two values the last app stores into
    its first pixel once it has presented. -/
theorem sampleRuns_passed (value : UInt8) (hvalue : value ∈ [0, 255]) :
    ∃ runs k₁ k, processInit presentingImages sampleKernel (.before sampleMachine) =
      .ok (k₁, true) ∧
      processRunSelfTest presentingImages runs k₁ = .ok (k, true) ∧
      Reachable presentingImages sampleKernel (.before sampleMachine) k ∧ k.currentProcess = none ∧
      k.shows value = true ∧ k.waiting = true ∧ (processAppSetActive k 3).takesKeys = true := by
  obtain ⟨⟨k₁, initialised⟩, hinit, h⟩ := ok_of_toOption_any sampleRuns_evaluated
  rw [Bool.and_eq_true, Bool.and_eq_true] at h
  obtain ⟨⟨hinitialised, hready⟩, h⟩ := h
  obtain ⟨⟨ks, passed⟩, hprobes, h⟩ := ok_of_toOption_any h
  rw [Bool.and_eq_true] at h
  obtain ⟨hpassed, h⟩ := h
  change initialised = true at hinitialised
  change passed = true at hpassed
  rw [hinitialised] at hinit
  rw [hpassed] at hprobes
  have hheld := sampleMachine_kernelHeld
  have hin := (hheld.tables 0 _ .root).2
  have hinitial := processInit_initial hinit
  obtain ⟨hback, -⟩ := selfTestProbes_back presentingImages hinitial.current sampleRuns
    hinitial.bare _ hprobes
  have hsound := Steps.invariant (fun _ _ hs h => hs.step hheld.root hin h) hback.steps
    (processInit_sound hheld hinit)
  let runs : Fin 3 → List (List UserEvent) := fun index =>
    let pid := 5 + UInt64.ofNat index.val
    [.syscall (presentContext pid) :: showing pid (if index = 2 then value else 0)]
  obtain ⟨k₂, h, hsound₂, hcur₂, hfirst⟩ :=
    startsNext_start hheld.root hin hsound hback.current h runs rfl
  obtain ⟨k₃, h, hsound₃, hcur₃, hsecond⟩ :=
    startsNext_start hheld.root hin hsound₂ hcur₂ h runs rfl
  rw [List.all_eq_true] at h
  obtain ⟨k₄, h, -, hcur₄, hthird⟩ :=
    startsNext_start hheld.root hin hsound₃ hcur₃ (h value hvalue) runs rfl
  dsimp only at h
  rw [Bool.and_eq_true, Bool.and_eq_true, and_assoc] at h
  have hgo : ¬(k₁.schedulerReady = false ∨ k₁.currentProcess ≠ none) := by
    rw [show k₁.schedulerReady = true from hready, hinitial.current]
    simp
  have htest : processRunSelfTest presentingImages { sampleRuns with apps := runs } k₁ =
      .ok ({ k₄ with processSelfTestPassed := true, schedulerCursor := 0 }, true) := by
    unfold processRunSelfTest
    rw [if_neg hgo]
    show (selfTestProbes presentingImages sampleRuns k₁ >>= _) = _
    rw [hprobes]
    show (startCatalogApps presentingImages runs [0, 1, 2] ks >>= _) = _
    rw [hfirst, hsecond, hthird]
    rfl
  exact ⟨_, k₁, _, hinit, htest, .selfTest _ hinit htest, hcur₄, h⟩

theorem Kernel.waiting_app (h : k.waiting = true) (index : Fin 3) :
    (k.processes (catalogSlot index)).state = .blocked ∧
      ((wakeBlockedProcesses k).processes (catalogSlot index)).state = .blocked ∧
      ∃ physical flags, pagingUserTranslate k.phys.mem
        (k.processes (catalogSlot index)).addressSpace argusAppSurfaceAddress =
          some (physical, flags) := by
  have hall := List.all_eq_true.mp h index (List.mem_finRange index)
  rw [Bool.and_eq_true, Bool.and_eq_true, decide_eq_true_eq, decide_eq_true_eq,
    Option.isSome_iff_exists] at hall
  obtain ⟨⟨hblocked, hstill⟩, ⟨physical, flags⟩, hmapped⟩ := hall
  exact ⟨hblocked, hstill, physical, flags, hmapped⟩

theorem Reachable.input {paging : PagingInfo} {k₀ : Kernel} (h : Reachable images paging k₀ k)
    (hcur : k.currentProcess = none) (appId : UInt32) (key : UInt8) :
    Reachable images paging k₀ (processAppInput appId key k).1 :=
  .call (.appInput appId key) h hcur rfl

/-- Two keys are accepted for the third app, and then it runs. -/
theorem sampleRuns_typed :
    ∃ k k₁ k₂, (∀ k' ∈ [k, k₁, k₂.enter (catalogSlot 2)],
        Reachable presentingImages sampleKernel (.before sampleMachine) k') ∧
      processAppInput 3 97 k = (k₁, true) ∧ processAppInput 3 98 k₁ = (k₂, true) ∧
      (k₂.enter (catalogSlot 2)).running = some (catalogSlot 2) ∧
      (k₂.processes (catalogSlot 2)).appId = 3 ∧
      (k.processes (catalogSlot 2)).accepted = [] ∧
      (k.processes (catalogSlot 2)).returned = [] := by
  obtain ⟨-, -, k, -, -, hstart, hcur, -, -, htakes⟩ := sampleRuns_passed 0 (List.mem_cons_self ..)
  unfold Kernel.takesKeys at htakes
  simp only [Bool.and_eq_true, decide_eq_true_eq] at htakes
  obtain ⟨⟨⟨⟨⟨hfirst, hsecond⟩, hready⟩, happ⟩, haccepted⟩, hreturned⟩ := htakes
  have hreach : Reachable presentingImages sampleKernel (.before sampleMachine)
      (processAppSetActive k 3) := .call (.appSetActive 3) hstart hcur rfl
  have hback₁ := processAppInput_back presentingImages
    (show (processAppSetActive k 3).currentProcess = none from hcur) 3 97
  have hreach₁ := hreach.input hcur 3 97
  have hback₂ := processAppInput_back presentingImages hback₁.current 3 98
  have hreach₂ := hreach₁.input hback₁.current 3 98
  have hconf := hreach₂.scheduled.covered _ (by rw [Kernel.Live, hready]; decide)
  refine ⟨_, _, _, ?_, Prod.ext rfl hfirst, Prod.ext rfl hsecond, enter_running hconf, happ,
    haccepted, hreturned⟩
  simp only [List.forall_mem_cons]
  exact ⟨hreach, hreach₁, hreach₂.step (.enter _ hback₂.current hconf hready), by simp⟩

end ArgusOs.Runtime
