/-
  The scheduler and the life of app processes: `dispatch_process`, `process_run_ready_once`,
  the app calls, `process_init` and `process_run_self_test` of `process.c`.

  Wherever a call lets user code run, it takes the events of that run as an argument: one
  list for a call that dispatches once, a list of them for one that dispatches repeatedly.
  Positions in the process table are slots `Fin 8`; a position computed by the scheduler
  that were no slot is skipped, and `configured_processes` never makes one.
-/
import ArgusOs.Runtime.Load
import ArgusOs.Runtime.Syscall

namespace ArgusOs.Runtime

open Lib Memory Capability Ipc Elf

/-- What a call of the kernel gives: the kernel after it, and its result. -/
abbrev Outcome := Except Stop (Kernel × Bool)

/-! ## Dispatch -/

variable (k : Kernel)

/-- The kernel as `dispatch_process` hands over to the process. -/
def Kernel.enter (i : Fin 8) : Kernel :=
  { k.setProcess i { k.processes i with state := .running } with currentProcess := some i }

/-- The kernel as it gets control back. -/
def Kernel.leave : Kernel :=
  { k with
    currentProcess := none
    counters := { k.counters with contextSwitches := k.counters.contextSwitches + 1 } }

/-- The state a process has to be in after an action. -/
def UserAction.state : UserAction → Option ProcessState
  | .ret => none
  | .yield => some .ready
  | .exit => some .exited
  | .wait => some .blocked
  | .preempt => some .ready
  | .fault => some .faulted

variable (images : Images) (i : Fin 8)

def dispatchProcess (run : List UserEvent) (k : Kernel) : Outcome :=
  if i.val ≥ k.configuredProcesses ∨ (k.processes i).state ≠ .ready then .ok (k, false)
  else do
    let entry ← archResumeUser images run (k.enter i)
    .ok (entry.1.leave, entry.2.state = some (entry.1.processes i).state)

variable (p : Process)

/-- The process is due to wake at tick `now`. -/
def Process.due (now : UInt64) : Bool :=
  p.inputTail ≠ p.inputHead || (p.waitDeadline ≠ wordMax && p.waitDeadline ≤ now)

/-- The loop of `wake_blocked_processes` wakes the process in this slot. -/
def Kernel.wakes : Bool :=
  i.val ≥ appProcessFirst && i.val < k.configuredProcesses &&
    (k.processes i).state = .blocked && (k.processes i).due k.timerTicks

def wakeBlockedProcesses : Kernel :=
  { k with
    processes := fun i =>
      if k.wakes i then { k.processes i with state := .ready } else k.processes i
    counters := { k.counters with
      wakeups := k.counters.wakeups + UInt64.ofNat (slotCount k.wakes) } }

theorem wake_woken {k : Kernel} {i : Fin 8} (h : k.wakes i = true) :
    (wakeBlockedProcesses k).processes i = { k.processes i with state := .ready } := if_pos h

theorem wake_kept {k : Kernel} {i : Fin 8} (h : ¬ k.wakes i = true) :
    (wakeBlockedProcesses k).processes i = k.processes i := if_neg h

/-- A position of the process table. -/
def slotAt (position : Nat) : Option (Fin 8) :=
  if h : position < 8 then some ⟨position, h⟩ else none

/-- `next_ready_process` takes this process. -/
def Process.runnable : Bool := p.state = .ready && !(p.appId ≠ 0 && !p.active)

def nextReadyProcess (start : Nat) : Option (Fin 8) :=
  ((List.range k.configuredProcesses).filterMap fun offset =>
    slotAt ((start + offset) % k.configuredProcesses)).find? fun i => (k.processes i).runnable

def processRunReadyOnce (run : List UserEvent) (k : Kernel) : Outcome :=
  if k.schedulerReady = false ∨ k.processSelfTestPassed = false ∨ k.currentProcess ≠ none then
    .ok (k, false)
  else
    let k := wakeBlockedProcesses k
    match nextReadyProcess k k.schedulerCursor with
    | none => .ok (k, false)
    | some i =>
      dispatchProcess images i run { k with
        schedulerCursor := (i.val + 1) % k.configuredProcesses }

/-! ## Loading and releasing a slot -/

def Kernel.loading : Loading := ⟨k.phys, k.ipc, k.processes i⟩

/-- Store back what a load worked on. -/
def Kernel.store (l : Loading) : Kernel :=
  { k.setProcess i l.process with phys := l.phys, ipc := l.ipc }

def Kernel.release : Kernel := k.store i (releaseProcess (k.loading i))

/-- The outcome of a load into slot `i` that was given `next_pid++`. -/
def Kernel.loaded : Except Nat (Loading × Bool) → Outcome
  | .error index => .error (.imageRoom index)
  | .ok (l, done) => .ok ({ k.store i l with nextPid := k.nextPid + 1, starts := k.starts + 1 },
    done)

def Kernel.loadProbe (image : List UInt8) : Outcome :=
  k.loaded i (loadFlatProbe k.kernelPaging (k.loading i) k.nextPid image)

def Kernel.loadApp (k : Kernel) (index : Fin 3) : Outcome :=
  k.loaded (catalogSlot index) (loadElfApp k.kernelPaging (k.loading (catalogSlot index)) k.nextPid
    (catalogAppId index) (images.apps index))

/-! ## Apps -/

variable (appId : UInt32)

/-- `find_app`. -/
def findApp : Option (Fin 8) :=
  match appSlot appId with
  | none => none
  | some i => if (k.processes i).state = .unused then none else some i

/-- The process can be shown. -/
def Process.online : Bool :=
  (p.state = .ready || p.state = .blocked || p.state = .running) && p.presentValid

def processAppOnline : Bool :=
  match findApp k appId with
  | none => false
  | some i => (k.processes i).online

def appMappingIsolated (mem : Mem) (p : Process) : Bool :=
  if p.appId = 0 ∨ p.surfacePhysical = 0 then false
  else
    match pagingUserTranslate mem p.addressSpace argusAppSurfaceAddress,
      pagingUserTranslate mem p.addressSpace
        (argusAppSurfaceAddress + UInt64.ofNat argusAppSurfaceBytes - 1) with
    | some (physical, flags), some (last, _) =>
      physical = p.surfacePhysical && flags &&& pageWritable ≠ 0 &&
        (!p.addressSpace.nxEnabled || flags &&& pageNx ≠ 0) &&
        last = p.surfacePhysical + UInt64.ofNat argusAppSurfaceBytes - 1
    | _, _ => false

/-- The dispatches of `start_app_internal`, at most `left` of them, until the app has presented
    and waits. -/
def startDispatches (images : Images) (i : Fin 8) :
    Nat → List (List UserEvent) → Kernel → Except Stop Kernel
  | 0, _, k => .ok k
  | left + 1, runs, k =>
    if ((k.processes i).presentValid && (k.processes i).state = .blocked) = true ∨
        (k.processes i).state ≠ .ready then .ok k
    else do
      let dispatched ← dispatchProcess images i (runs.headD []) k
      if dispatched.2 = false then .ok dispatched.1
      else startDispatches images i left runs.tail dispatched.1

/-- The app has started: it has presented and is not over. -/
def Process.started : Bool :=
  p.presentValid && (p.state = .ready || p.state = .blocked)

/-- `configured_processes` covers the slot. -/
def Kernel.cover : Kernel :=
  { k with configuredProcesses :=
      if k.configuredProcesses ≤ i.val then i.val + 1 else k.configuredProcesses }

variable (runs : List (List UserEvent))

/-- `start_app_internal` once the image is loaded. -/
def startLoaded (k : Kernel) :
    Outcome :=
  if appMappingIsolated k.phys.mem (k.processes i) = false then .ok (k.release i, false)
  else do
    let k ← startDispatches images i appStartDispatchLimit runs k
    .ok (k, (k.processes i).started)

def startCatalog (index : Fin 3) (runs : List (List UserEvent)) (k : Kernel) :
    Outcome :=
  if (k.processes (catalogSlot index)).state ≠ .unused then .ok (k, false)
  else do
    let loaded ← k.loadApp images index
    if loaded.2 = false then .ok loaded
    else startLoaded images (catalogSlot index) runs (loaded.1.cover (catalogSlot index))

def startAppInternal (k : Kernel) : Outcome :=
  match findCatalog appId with
  | none => .ok (k, false)
  | some index => startCatalog images index runs k

def processAppSetActive : Kernel :=
  { k with
    focusedAppId := appId
    processes := fun i =>
      if i.val ≥ appProcessFirst ∧ i.val < k.configuredProcesses then
        { k.processes i with active := (k.processes i).appId = appId && processAppOnline k appId }
      else k.processes i }

/-- Whether calls on apps are possible: the self-test has passed and nothing runs. -/
def Kernel.serving : Bool := k.processSelfTestPassed && k.currentProcess = none

/-- Release the app's process if there is one. -/
def Kernel.releaseApp : Kernel :=
  match findApp k appId with
  | none => k
  | some i => k.release i

def processAppStart (k : Kernel) : Outcome :=
  if k.serving = false then .ok (k, false)
  else if processAppOnline k appId then .ok (k, true)
  else do
    let started ← startAppInternal images appId runs (k.releaseApp appId)
    if started.2 = false then .ok started
    else if started.1.focusedAppId = appId then .ok (processAppSetActive started.1 appId, true)
    else .ok started

def processAppStop (k : Kernel) : Kernel × Bool :=
  if k.serving = false ∨ findCatalog appId = none then (k, false)
  else (k.releaseApp appId, true)

def processAppRestart (k : Kernel) : Outcome :=
  if k.serving = false then .ok (k, false)
  else do
    let started ← startAppInternal images appId runs (k.releaseApp appId)
    if started.2 = false then .ok started
    else if k.focusedAppId = appId then .ok (processAppSetActive started.1 appId, true)
    else .ok started

/-- The process after a key has been queued. -/
def Process.pushKey (key : UInt8) : Process :=
  { p with
    input := Function.update p.input p.inputHead key
    inputHead := p.inputHead + 1
    accepted := p.accepted ++ [key]
    state := if p.state = .blocked then .ready else p.state }

/-- The process takes keys. -/
def Process.listening : Bool :=
  p.active && p.presentValid && (p.state = .ready || p.state = .blocked)

def processAppInput (key : UInt8) (k : Kernel) : Kernel × Bool :=
  match findApp k appId with
  | none => (k, false)
  | some i =>
    if (k.processes i).listening = false ∨ key = 0 ∨
        (k.processes i).inputHead + 1 = (k.processes i).inputTail then (k, false)
    else
      let woken := (k.processes i).state = .blocked
      let k := k.setProcess i ((k.processes i).pushKey key)
      ({ k with counters := { k.counters with
          wakeups := if woken then k.counters.wakeups + 1 else k.counters.wakeups } }, true)

/-- `process_app_surface`: the address of the pixels and the sequence number. -/
def processAppSurface : Option (UInt64 × UInt32) :=
  match findApp k appId with
  | none => none
  | some i =>
    if (k.processes i).online = false then none
    else some ((k.processes i).surfacePhysical, (k.processes i).presentSequence)

/-! ## The self-test -/

/-- The first dispatches: every runnable process in turn, at most `left` times. The position is
    that after the last one. -/
def probeDispatches (images : Images) :
    Nat → List (List UserEvent) → Nat → Kernel → Outcome
  | 0, _, _, k => .ok (k, true)
  | left + 1, runs, next, k =>
    match nextReadyProcess k next with
    | none => .ok (k, true)
    | some i => do
      let dispatched ← dispatchProcess images i (runs.headD []) k
      if dispatched.2 = false then .ok dispatched
      else probeDispatches images left runs.tail ((i.val + 1) % k.configuredProcesses) dispatched.1

/-- What the counters have to be after the probes. -/
def probesPassed : Bool :=
  k.counters.completed = 2 && k.configuredProcesses = processProbeCount &&
    k.counters.syscalls = 12 && k.counters.yields = 2 && k.counters.writes = 4 &&
    k.counters.contextSwitches = 4 &&
    ([0, 1] : List (Fin 8)).all (fun i => (k.processes i).state = .exited &&
      (k.processes i).exitStatus = 0 && (k.processes i).yields = 1) &&
    k.addressSpacesIsolated && k.counters.networkDenials = 2 && k.securityBoundariesReady

/-- `PROCESS_TEST_SLOT`. -/
def processTestSlot : Fin 8 := 2

/-- Load a probe into the test slot, dispatch it once, check and release it. -/
def runTestProbe (image : List UInt8) (preemption : Bool) (run : List UserEvent)
    (passed : Kernel → Bool) (k : Kernel) : Outcome := do
  let loaded ← k.loadProbe processTestSlot image
  if loaded.2 = false then .ok loaded
  else
    let dispatched ← dispatchProcess images processTestSlot run { loaded.1 with
      configuredProcesses := processTestSlot.val + 1
      preemptionEnabled := preemption }
    if dispatched.2 = false ∨ passed dispatched.1 = false then .ok (dispatched.1, false)
    else .ok ({ dispatched.1.release processTestSlot with
      configuredProcesses := processProbeCount }, true)

def faultPassed : Bool :=
  k.counters.faults = 1 && (k.processes processTestSlot).state = .faulted &&
    (k.processes processTestSlot).faultVector = 6

def spinPassed : Bool :=
  k.counters.preemptions = 1 && (k.processes processTestSlot).state = .ready

/-- Start the apps of the catalog in order; two in a row must not share a surface. -/
def startCatalogApps (images : Images) (runs : Fin 3 → List (List UserEvent)) :
    List (Fin 3) → Kernel → Outcome
  | [], k => .ok (k, true)
  | index :: rest, k => do
    let started ← startAppInternal images (catalogAppId index) (runs index) k
    if started.2 = false then .ok started
    else if index.val ≠ 0 ∧ (started.1.processes (catalogSlot index)).surfacePhysical =
        (started.1.processes (catalogSlot (index - 1))).surfacePhysical then .ok (started.1, false)
    else startCatalogApps images runs rest started.1

/-- What user code does during the self-test. -/
structure SelfTestRuns where
  probes : List (List UserEvent)
  fault : List UserEvent
  spin : List UserEvent
  apps : Fin 3 → List (List UserEvent)

/-- The self-test before it comes to the apps. -/
def selfTestProbes (runs : SelfTestRuns) (k : Kernel) : Outcome := do
  let probes ← probeDispatches images 16 runs.probes 0 k
  if probes.2 = false ∨ probesPassed probes.1 = false then .ok (probes.1, false)
  else
    let fault ← runTestProbe images images.userFaultProbe probes.1.preemptionEnabled runs.fault
      faultPassed probes.1
    if fault.2 = false then .ok fault
    else runTestProbe images images.userSpinProbe true runs.spin spinPassed fault.1

def processRunSelfTest (runs : SelfTestRuns) (k : Kernel) : Outcome :=
  if k.schedulerReady = false ∨ k.currentProcess ≠ none then .ok (k, false)
  else do
    let probes ← selfTestProbes images runs k
    if probes.2 = false then .ok probes
    else
      let apps ← startCatalogApps images runs.apps [0, 1, 2] probes.1
      if apps.2 = false then .ok apps
      else .ok ({ apps.1 with processSelfTestPassed := true, schedulerCursor := 0 }, true)

/-! ## Initialisation -/

/-- `process_capability_policy_self_test`. -/
def processCapabilityPolicySelfTest : Bool :=
  let candidate := { Process.zero with
    capabilities := capabilityTableInit 0x53454355
    securityRole := .utility }
  let raw := grantProcessCapability candidate capabilityRawNetwork capRightConnect 1
  let anonymous := grantProcessCapability raw.1 capabilityAnonymousStream capRightConnect 2
  if raw.2 ≠ 0 ∨ anonymous.2 ≠ 0 then false
  else
    let raw := grantProcessCapability { anonymous.1 with securityRole := .torTransport }
      capabilityRawNetwork capRightConnect 3
    let revoked := capabilityRevoke raw.1.capabilities raw.2
    if raw.2 = 0 ∨ revoked.2 = false then false
    else
      let anonymous := grantProcessCapability
        { raw.1 with capabilities := revoked.1, securityRole := .browserNetwork }
        capabilityAnonymousStream capRightConnect 4
      anonymous.2 ≠ 0 && (capabilityRevoke anonymous.1.capabilities anonymous.2).2

/-- `validate_address_space_isolation`. -/
def validateAddressSpaceIsolation : Bool :=
  let first := k.processes 0
  let second := k.processes 1
  let translate :=
    fun (p : Process) address => pagingUserTranslate k.phys.mem p.addressSpace address
  let nx := first.addressSpace.nxEnabled
  match translate first first.codeVirtual, translate second second.codeVirtual,
    translate first first.stackVirtual, translate second second.stackVirtual with
  | some (firstCode, codeFlags), some (secondCode, _), some (firstStack, stackFlags),
      some (secondStack, _) =>
    k.configuredProcesses = processProbeCount &&
      first.addressSpace.rootTable ≠ second.addressSpace.rootTable &&
      first.codeVirtual = second.codeVirtual && first.stackVirtual = second.stackVirtual &&
      codeFlags &&& pageWritable = 0 && (!nx || codeFlags &&& pageNx = 0) &&
      stackFlags &&& pageWritable ≠ 0 && (!nx || stackFlags &&& pageNx ≠ 0) &&
      firstCode ≠ secondCode && firstStack ≠ secondStack &&
      (translate first (first.stackVirtual - UInt64.ofNat argusPageSize)).isNone &&
      (translate first (first.imagePhysical.headD 0)).isNone
  | _, _, _, _ => false

/-- The static variables as `process_init` sets them before it loads anything. -/
def Kernel.reset (paging : PagingInfo) : Kernel :=
  { k with
    ipc := ipcSelfTest.1
    transport := anonymityPolicySelfTest.1
    processes := fun _ => .zero
    kernelPaging := paging
    currentProcess := none
    configuredProcesses := 0
    schedulerCursor := 0
    focusedAppId := 0
    nextPid := 1
    starts := 0
    counters := .zero
    addressSpacesIsolated := false
    schedulerReady := false
    processSelfTestPassed := false
    preemptionEnabled := false
    securityBoundariesReady := capabilitySelfTest && ipcSelfTest.2 && anonymityPolicySelfTest.2 &&
      processCapabilityPolicySelfTest }

/-- Load one of the two probes; if that fails, release what there is. -/
def initProbe (k : Kernel) : Outcome := do
  let loaded ← k.loadProbe i images.userProbe
  if loaded.2 = false then
    .ok ((List.finRange 8).foldl (fun k j => if j ≤ i then k.release j else k) loaded.1, false)
  else .ok ({ loaded.1 with configuredProcesses := loaded.1.configuredProcesses + 1 }, true)

def processInit (paging : PagingInfo) (k : Kernel) : Outcome :=
  if paging.rootTable = 0 then .ok (k, false)
  else
    let k := k.reset paging
    if k.securityBoundariesReady = false ∨ images.archSyscallInit = false then .ok (k, false)
    else do
      let first ← initProbe images 0 k
      if first.2 = false then .ok first
      else
        let second ← initProbe images 1 first.1
        if second.2 = false then .ok second
        else
          let isolated := validateAddressSpaceIsolation second.1
          .ok ({ second.1 with addressSpacesIsolated := isolated, schedulerReady := isolated },
            isolated)

/-! ## Calls -/

/-- What the rest of the kernel asks of `process.c` once it is up, and the timer interrupt while
    no user code runs. -/
inductive Call where
  | appStart (appId : UInt32) (runs : List (List UserEvent))
  | appStop (appId : UInt32)
  | appRestart (appId : UInt32) (runs : List (List UserEvent))
  | appSetActive (appId : UInt32)
  | appInput (appId : UInt32) (key : UInt8)
  | runReadyOnce (run : List UserEvent)
  | timerTick

def Call.exec (k : Kernel) : Call → Outcome
  | .appStart appId runs => processAppStart images appId runs k
  | .appStop appId => .ok (processAppStop appId k)
  | .appRestart appId runs => processAppRestart images appId runs k
  | .appSetActive appId => .ok (processAppSetActive k appId, true)
  | .appInput appId key => .ok (processAppInput appId key k)
  | .runReadyOnce run => processRunReadyOnce images run k
  | .timerTick => .ok (interruptHandler k apicTimerVector, true)

end ArgusOs.Runtime
