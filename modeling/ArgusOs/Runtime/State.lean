/-
  Processes and the kernel around them: the data of `process.c`.

  `Process` is `process_t` field by field. The image pages with their count are the list of
  the pages taken; the input ring keeps its two positions. `Kernel` holds every static
  variable of `process.c` together with the three services processes live on (memory, IPC
  endpoints, anonymity transport), the APIC tick counter and what was written to the serial
  port. `Images` are the byte images linked into the kernel and the two facts about the
  machine that the code asks for.

  Four history variables are kept beside that; nothing reads them. `lateStores` counts the
  stores of a byte outside the palette into pixels that have been presented, `starts` the loads
  that were given a process id. `accepted` and `returned` of a process are the keys that entered
  its input queue and those that left it.
-/
import ArgusOs.Capability.Anonymity
import ArgusOs.Elf.Image
import ArgusOs.Ipc.Endpoint
import ArgusOs.Memory.Access

namespace ArgusOs.Runtime

open Lib Memory Capability Ipc Elf Function

/-! ## Constants -/

def processProbeCount : Nat := 2
def appProcessFirst : Nat := 2
def userCodeOffset : UInt64 := 0x1000
def userStackOffset : UInt64 := 0x200000
def userSurfaceOffset : UInt64 := 0x400000
def userWriteLimit : UInt64 := 128
def appStartDispatchLimit : Nat := 32

def argusAppSurfaceAddress : UInt64 := 0x8000400000
/-- 320 columns by 224 rows, one byte each. -/
def argusAppSurfaceBytes : Nat := 71680
def argusAppPaletteCount : UInt8 := 8
def argusAppPresentMagic : UInt32 := 0x41505031
def argusAppAbiVersion : UInt32 := 1

/-- The pages a surface takes. -/
def surfacePageCount : Nat := (argusAppSurfaceBytes + argusPageSize - 1) / argusPageSize

/-! ## Records -/

/-- `argus_process_state_t`. -/
inductive ProcessState where
  | unused
  | ready
  | running
  | blocked
  | exited
  | faulted
  deriving DecidableEq, Repr

/-- `arch_user_context_t`: the registers of a user process. -/
structure UserContext where
  r15 : UInt64
  r14 : UInt64
  r13 : UInt64
  r12 : UInt64
  r11 : UInt64
  r10 : UInt64
  r9 : UInt64
  r8 : UInt64
  rdi : UInt64
  rsi : UInt64
  rbp : UInt64
  rdx : UInt64
  rcx : UInt64
  rbx : UInt64
  rax : UInt64
  rip : UInt64
  rflags : UInt64
  rsp : UInt64
  deriving DecidableEq, Repr

def UserContext.zero : UserContext := ⟨0, 0, 0, 0, 0, 0, 0, 0, 0, 0, 0, 0, 0, 0, 0, 0, 0, 0⟩

/-- `interrupt_frame_t`: the registers, and what the interrupt pushed. -/
structure InterruptFrame where
  registers : UserContext
  vector : UInt64
  errorCode : UInt64
  cs : UInt64

structure Process where
  pid : UInt64
  state : ProcessState
  addressSpace : UserSpace
  imagePhysical : List UInt64
  stackPhysical : UInt64
  surfacePhysical : UInt64
  surfacePageCount : Nat
  codeVirtual : UInt64
  stackVirtual : UInt64
  appId : UInt32
  presentSequence : UInt32
  presentValid : Bool
  active : Bool
  input : Fin 32 → UInt8
  inputHead : Fin 32
  inputTail : Fin 32
  inputsDelivered : UInt64
  accepted : List UInt8
  returned : List UInt8
  waitDeadline : UInt64
  context : UserContext
  exitStatus : UInt64
  yields : UInt64
  faultVector : UInt64
  faultError : UInt64
  faultRip : UInt64
  faultAddress : UInt64
  securityRole : SecurityRole
  capabilities : CapabilityTable
  ipcEndpoint : UInt64

/-- `(process_t){0}`. -/
def Process.zero : Process where
  pid := 0
  state := .unused
  addressSpace := .zero
  imagePhysical := []
  stackPhysical := 0
  surfacePhysical := 0
  surfacePageCount := 0
  codeVirtual := 0
  stackVirtual := 0
  appId := 0
  presentSequence := 0
  presentValid := false
  active := false
  input := fun _ => 0
  inputHead := 0
  inputTail := 0
  inputsDelivered := 0
  accepted := []
  returned := []
  waitDeadline := 0
  context := .zero
  exitStatus := 0
  yields := 0
  faultVector := 0
  faultError := 0
  faultRip := 0
  faultAddress := 0
  securityRole := .unset
  capabilities := ⟨0, fun _ => .zero⟩
  ipcEndpoint := 0

/-- The event counters of `process.c`. -/
structure Counters where
  completed : UInt32
  syscalls : UInt64
  yields : UInt64
  contextSwitches : UInt64
  writes : UInt64
  faults : UInt64
  preemptions : UInt64
  waits : UInt64
  wakeups : UInt64
  networkDenials : UInt64

def Counters.zero : Counters := ⟨0, 0, 0, 0, 0, 0, 0, 0, 0, 0⟩

structure Kernel where
  phys : Phys
  ipc : Endpoints
  transport : TransportState
  processes : Fin 8 → Process
  kernelPaging : PagingInfo
  currentProcess : Option (Fin 8)
  configuredProcesses : Nat
  schedulerCursor : Nat
  focusedAppId : UInt32
  nextPid : UInt64
  counters : Counters
  addressSpacesIsolated : Bool
  schedulerReady : Bool
  processSelfTestPassed : Bool
  preemptionEnabled : Bool
  securityBoundariesReady : Bool
  timerTicks : UInt64
  serial : List UInt8
  lateStores : Nat
  starts : Nat

/-- A record in use. -/
abbrev Kernel.Live (k : Kernel) (i : Fin 8) : Prop := (k.processes i).state ≠ .unused

/-- Store one process record. -/
def Kernel.setProcess (k : Kernel) (i : Fin 8) (p : Process) : Kernel :=
  { k with processes := update k.processes i p }

@[simp] theorem Kernel.setProcess_same (k : Kernel) (i : Fin 8) (p : Process) :
    (k.setProcess i p).processes i = p := update_self ..

theorem Kernel.setProcess_of_ne (k : Kernel) {i j : Fin 8} (p : Process) (h : j ≠ i) :
    (k.setProcess i p).processes j = k.processes j := update_of_ne h ..

/-- The flat probe images, the images of the three catalog entries, whether
    `arch_syscall_init` succeeds and which interrupt vectors have a handler. -/
structure Images where
  userProbe : List UInt8
  userFaultProbe : List UInt8
  userSpinProbe : List UInt8
  apps : Fin 3 → List UInt8
  archSyscallInit : Bool
  registered : UInt64 → Bool

/-- `app_catalog[index].app_id`. -/
def catalogAppId (index : Fin 3) : UInt32 := UInt32.ofNat (index.val + 1)

/-- `find_catalog`, as the index of the entry. -/
def findCatalog (appId : UInt32) : Option (Fin 3) :=
  firstSlot fun index => catalogAppId index = appId

/-- The slot of a catalog entry's process. -/
def catalogSlot (index : Fin 3) : Fin 8 := ⟨appProcessFirst + index.val, by
  have := index.isLt
  unfold appProcessFirst
  omega⟩

/-- `app_slot`; an id that is not in the catalog has none. -/
def appSlot (appId : UInt32) : Option (Fin 8) := (findCatalog appId).map catalogSlot

/-! ## What a process owns -/

variable (p : Process)

def Process.imageFrames : List Nat := p.imagePhysical.map frameOf

def Process.stackFrames : List Nat :=
  if p.stackPhysical = 0 then [] else [frameOf p.stackPhysical]

def Process.surfaceFrames : List Nat :=
  if p.surfacePhysical = 0 then []
  else List.range' (frameOf p.surfacePhysical) p.surfacePageCount

/-- The pages a user may be given: image, stack and surface. -/
def Process.dataFrames : List Nat := p.imageFrames ++ (p.stackFrames ++ p.surfaceFrames)

/-- All pages of a process: page tables and data. -/
def Process.pages : List Nat := p.addressSpace.frames ++ p.dataFrames

theorem surfacePageCount_eq : surfacePageCount = 18 := by decide

end ArgusOs.Runtime
