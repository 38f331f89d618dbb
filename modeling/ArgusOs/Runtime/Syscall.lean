/-
  What a running user process can make the kernel do: `syscall_dispatch` and
  `process_on_user_interrupt` of `process.c`, `interrupt_dispatch` of `arch.c`.

  Between two entries into the kernel a process runs on its own. All it can change then is
  memory behind its writable mappings, one store at a time; what its registers hold when it
  enters the kernel is arbitrary. So a run of user code is a list of events: stores, system
  calls with any registers, and interrupts with any frame.

  A step that does not come back is a `Stop`: the process never gives the processor up, the
  kernel takes a fault of its own, or an interrupt has no handler. The kernel reads user
  memory through the user's own mapping; an address above bit 47 that passed the check on
  user pointers is not canonical, and reading it is such a fault.
-/
import ArgusOs.Runtime.State

namespace ArgusOs.Runtime

open Lib Memory Capability Ipc Elf

/-! ## Constants -/

def wordMax : UInt64 := 0xFFFFFFFFFFFFFFFF

def syscallWrite : UInt64 := 1
def syscallGetpid : UInt64 := 2
def syscallYield : UInt64 := 3
def syscallExit : UInt64 := 4
def syscallClockTicks : UInt64 := 5
def syscallInputPoll : UInt64 := 6
def syscallAppPresent : UInt64 := 7
def syscallEventWait : UInt64 := 8
def syscallCapabilityQuery : UInt64 := 9
def syscallIpcSend : UInt64 := 10
def syscallIpcReceive : UInt64 := 11
def syscallAnonymousConnect : UInt64 := 12

def apicTimerVector : UInt64 := 0x40
def apicSpuriousVector : UInt64 := 0xFF

/-- `sizeof(argus_app_present_v1_t)`. -/
def appPresentSize : UInt64 := 16

/-- `ARCH_USER_ACTION_*`: what the kernel does after an entry from user code. -/
inductive UserAction where
  | ret
  | yield
  | exit
  | wait
  | preempt
  | fault
  deriving DecidableEq, Repr

/-- Why a step does not come back. -/
inductive Stop where
  | userRunning
  | kernelFault (address : UInt64)
  | exceptionPanic (vector : UInt64)
  | imageRoom (index : Nat)
  deriving DecidableEq, Repr

inductive UserEvent where
  | store (address : UInt64) (value : UInt8)
  | syscall (context : UserContext)
  | interrupt (frame : InterruptFrame) (cr2 : UInt64)

/-! ## User memory -/

/-- The physical address behind a user address that the kernel or the user dereferences. -/
def userAddress (mem : Mem) (space : UserSpace) (address : UInt64) : Option (UInt64 × UInt64) :=
  if address.toNat ≥ 2 ^ 47 then none else pagingUserTranslate mem space address

/-- Read `n` bytes from a user address on. -/
def readUser (mem : Mem) (space : UserSpace) (address : UInt64) : Nat → Except Stop (List UInt8)
  | 0 => .ok []
  | n + 1 =>
    match userAddress mem space address with
    | none => .error (.kernelFault address)
    | some (physical, _) => do
      let rest ← readUser mem space (address + 1) n
      .ok (mem physical.toNat :: rest)

/-- Write bytes from a user address on. -/
def writeUser (mem : Mem) (space : UserSpace) (address : UInt64) : List UInt8 → Except Stop Mem
  | [] => .ok mem
  | byte :: rest =>
    match userAddress mem space address with
    | none => .error (.kernelFault address)
    | some (physical, _) =>
      writeUser (Function.update mem physical.toNat byte) space (address + 1) rest

/-- A 32-bit field of a structure read from user memory. -/
def field32 (bytes : List UInt8) (offset : Nat) : UInt32 :=
  UInt32.ofNat (loadLe (fun i => bytes.getD i 0) offset 4)

/-! ## Parts of `syscall_dispatch` -/

variable (p : Process)

/-- `process_capability`: the object the handle resolves to, unless another one is expected. -/
def processCapability (handle : UInt64) (type : UInt32) (rights : UInt16)
    (expected : UInt64) : Option UInt64 :=
  match capabilityResolve p.capabilities handle type rights with
  | none => none
  | some resolved => if expected ≠ wordMax ∧ resolved ≠ expected then none else some resolved

/-- The process after its oldest key has been taken. -/
def Process.takeKey : Process :=
  { p with
    inputTail := p.inputTail + 1
    inputsDelivered := p.inputsDelivered + 1
    returned := p.returned ++ [p.input p.inputTail] }

def appInputPoll : Process × UInt64 :=
  if p.inputTail = p.inputHead then (p, 0)
  else (p.takeKey, (p.input p.inputTail).toUInt64)

def appSurfaceValid (mem : Mem) (p : Process) : Bool :=
  p.surfacePhysical ≠ 0 &&
    (List.range argusAppSurfaceBytes).all fun i =>
      mem (p.surfacePhysical.toNat + i) < argusAppPaletteCount

/-- A request that `ARGUS_SYSCALL_APP_PRESENT` accepts; `valid` is the answer of
    `app_surface_valid`. -/
def presentAccepted (valid : Bool) (p : Process) (request : List UInt8) : Bool :=
  field32 request 0 = argusAppPresentMagic && field32 request 4 = argusAppAbiVersion &&
    field32 request 12 = 0 && field32 request 8 ≠ 0 &&
    !(p.presentValid && field32 request 8 ≤ p.presentSequence) && valid

def Process.present (sequence : UInt32) : Process :=
  { p with presentSequence := sequence, presentValid := true }

def Process.yield (context : UserContext) : Process :=
  { p with context := context, state := .ready, yields := p.yields + 1 }

def Process.exit (status : UInt64) : Process :=
  { p with exitStatus := status, state := .exited, active := false }

def Process.wait (context : UserContext) (deadline : UInt64) : Process :=
  { p with context := context, waitDeadline := deadline, state := .blocked }

def Process.preempt (context : UserContext) : Process :=
  { p with context := context, state := .ready }

def Process.fault (frame : InterruptFrame) (cr2 : UInt64) : Process :=
  { p with
    context := frame.registers
    faultVector := frame.vector
    faultError := frame.errorCode
    faultRip := frame.registers.rip
    faultAddress := if frame.vector = 14 then cr2 else 0
    state := .faulted
    active := false }

/-! ## System calls -/

/-- The kernel, the registers as it leaves them, and what happens next. -/
abbrev Entry := Kernel × UserContext × UserAction

/-- Back to the process with a result. -/
def answer (k : Kernel) (c : UserContext) (result : UInt64) : Except Stop Entry :=
  .ok (k, { c with rax := result }, .ret)

def refuse (k : Kernel) (c : UserContext) : Except Stop Entry := answer k c wordMax

section Calls

variable (k : Kernel) (i : Fin 8) (c : UserContext)

def sysWrite : Except Stop Entry :=
  if c.rsi = 0 ∨ c.rsi > userWriteLimit ∨
      userRangeReadable k.phys.mem (k.processes i).addressSpace c.rdi c.rsi = false then refuse k c
  else do
    let text ← readUser k.phys.mem (k.processes i).addressSpace c.rdi c.rsi.toNat
    answer { k with
      serial := k.serial ++ text
      counters := { k.counters with writes := k.counters.writes + 1 } } c c.rsi

def sysYield : Except Stop Entry :=
  let c := { c with rax := 0 }
  let k := k.setProcess i ((k.processes i).yield c)
  .ok ({ k with counters := { k.counters with yields := k.counters.yields + 1 } }, c, .yield)

def sysExit : Except Stop Entry :=
  let k := k.setProcess i ((k.processes i).exit c.rdi)
  .ok ({ k with counters := { k.counters with completed := k.counters.completed + 1 } }, c, .exit)

def sysClockTicks : Except Stop Entry :=
  if (k.processes i).appId ≠ 0 ∧
      (processCapability (k.processes i) c.rdi capabilityClock capRightRead 0).isSome then
    answer k c k.timerTicks
  else refuse k c

def sysInputPoll : Except Stop Entry :=
  if (k.processes i).appId ≠ 0 ∧ (processCapability (k.processes i) c.rdi capabilityInput
      capRightRead (k.processes i).appId.toUInt64).isSome then
    let polled := appInputPoll (k.processes i)
    answer (k.setProcess i polled.1) c polled.2
  else refuse k c

/-- `ARGUS_SYSCALL_APP_PRESENT`, given the answer of `app_surface_valid`. -/
def presentWith (valid : Bool) : Except Stop Entry :=
  if (k.processes i).appId = 0 ∨ (processCapability (k.processes i) c.rdx capabilitySurface
        capRightPresent (k.processes i).surfacePhysical).isNone ∨
      c.rsi ≠ appPresentSize ∨
      userRangeReadable k.phys.mem (k.processes i).addressSpace c.rdi c.rsi = false then refuse k c
  else do
    let request ← readUser k.phys.mem (k.processes i).addressSpace c.rdi c.rsi.toNat
    if presentAccepted valid (k.processes i) request = false then refuse k c
    else answer (k.setProcess i ((k.processes i).present (field32 request 8))) c 0

def sysAppPresent : Except Stop Entry :=
  presentWith k i c (appSurfaceValid k.phys.mem (k.processes i))

def sysEventWait : Except Stop Entry :=
  if (k.processes i).appId = 0 ∨ (processCapability (k.processes i) c.rdi capabilityInput
      capRightWait (k.processes i).appId.toUInt64).isNone then refuse k c
  else if (k.processes i).inputTail ≠ (k.processes i).inputHead ∨
      (c.rsi ≠ wordMax ∧ c.rsi ≤ k.timerTicks) then answer k c 0
  else
    let c := { c with rax := 0 }
    let k := k.setProcess i ((k.processes i).wait c c.rsi)
    .ok ({ k with counters := { k.counters with waits := k.counters.waits + 1 } }, c, .wait)

def sysCapabilityQuery : Except Stop Entry :=
  let type := c.rdi.toUInt32
  answer k c (if type > capabilityNone ∧ type ≤ capabilityRawNetwork then
    capabilityFind (k.processes i).capabilities type c.rsi.toUInt16 else 0)

def sysIpcSend : Except Stop Entry :=
  match processCapability (k.processes i) c.rdi capabilityIpc capRightSend wordMax with
  | none => refuse k c
  | some endpoint =>
    if c.rdx = 0 ∨ c.rdx > ipcMessageMax.toUInt64 ∨
        userRangeReadable k.phys.mem (k.processes i).addressSpace c.rsi c.rdx = false then
      refuse k c
    else do
      let data ← readUser k.phys.mem (k.processes i).addressSpace c.rsi c.rdx.toNat
      let sent := ipcSend k.ipc endpoint (k.processes i).pid (some fun j => data.getD j 0)
        c.rdx.toUInt32
      if sent.2 = false then refuse { k with ipc := sent.1 } c
      else answer { k with ipc := sent.1 } c c.rdx

/-- The message taken from the endpoint, copied out to the user. -/
def deliver (message : IpcMessage) : Except Stop Entry := do
  let mem ← writeUser k.phys.mem (k.processes i).addressSpace c.rsi message.data
  answer { k with phys := ⟨mem, k.phys.pmm⟩ } c (UInt64.ofNat message.data.length)

def sysIpcReceive : Except Stop Entry :=
  match processCapability (k.processes i) c.rdi capabilityIpc capRightReceive
      (k.processes i).ipcEndpoint with
  | none => refuse k c
  | some endpoint =>
    if ipcPending k.ipc endpoint (k.processes i).pid = 0 then answer k c 0
    else if c.rdx = 0 ∨ c.rdx > ipcMessageMax.toUInt64 ∨
        userRangeWritable k.phys.mem (k.processes i).addressSpace c.rsi c.rdx = false then
      refuse k c
    else
      let taken := ipcReceive k.ipc endpoint (k.processes i).pid .all c.rdx.toUInt32
      match taken.2 with
      | none => refuse { k with ipc := taken.1 } c
      | some message => deliver { k with ipc := taken.1 } i c message

/-- Whatever the policy answers, the connection is refused. -/
def sysAnonymousConnect : Except Stop Entry :=
  refuse { k with counters :=
    { k.counters with networkDenials := k.counters.networkDenials + 1 } } c

end Calls

/-- The switch on the number of the call. -/
def syscallSwitch (k : Kernel) (i : Fin 8) (c : UserContext) : Except Stop Entry :=
  if c.rax = syscallWrite then sysWrite k i c
  else if c.rax = syscallGetpid then answer k c (k.processes i).pid
  else if c.rax = syscallYield then sysYield k i c
  else if c.rax = syscallExit then sysExit k i c
  else if c.rax = syscallClockTicks then sysClockTicks k i c
  else if c.rax = syscallInputPoll then sysInputPoll k i c
  else if c.rax = syscallAppPresent then sysAppPresent k i c
  else if c.rax = syscallEventWait then sysEventWait k i c
  else if c.rax = syscallCapabilityQuery then sysCapabilityQuery k i c
  else if c.rax = syscallIpcSend then sysIpcSend k i c
  else if c.rax = syscallIpcReceive then sysIpcReceive k i c
  else if c.rax = syscallAnonymousConnect then sysAnonymousConnect k c
  else refuse k c

/-- `++syscall_count`. -/
def Kernel.countSyscall (k : Kernel) : Kernel :=
  { k with counters := { k.counters with syscalls := k.counters.syscalls + 1 } }

/-- The process that runs, when it is one of the configured ones. -/
def Kernel.running (k : Kernel) : Option (Fin 8) :=
  match k.currentProcess with
  | none => none
  | some i => if i.val ≥ k.configuredProcesses then none else some i

def syscallDispatch (k : Kernel) (c : UserContext) : Except Stop Entry :=
  match k.running with
  | none => .ok (k, c, .exit)
  | some i => syscallSwitch k.countSyscall i c

/-! ## Interrupts -/

def processOnUserInterrupt (k : Kernel) (frame : InterruptFrame) (cr2 : UInt64) :
    Kernel × UserAction :=
  if frame.cs &&& 3 ≠ 3 then (k, .ret)
  else
    match k.running with
    | none => (k, .ret)
    | some i =>
      if (k.processes i).state ≠ .running then (k, .ret)
      else if frame.vector < 32 then
        let k := k.setProcess i ((k.processes i).fault frame cr2)
        ({ k with counters := { k.counters with faults := k.counters.faults + 1 } }, .fault)
      else if frame.vector = apicTimerVector ∧ k.preemptionEnabled then
        let k := k.setProcess i ((k.processes i).preempt frame.registers)
        ({ k with counters := { k.counters with preemptions := k.counters.preemptions + 1 } },
          .preempt)
      else (k, .ret)

/-- The handler of a vector. The timer's counts; the others do not touch processes. -/
def interruptHandler (k : Kernel) (vector : UInt64) : Kernel :=
  if vector = apicTimerVector then { k with timerTicks := k.timerTicks + 1 } else k

def interruptDispatch (images : Images) (k : Kernel) (frame : InterruptFrame) (cr2 : UInt64) :
    Except Stop (Kernel × UserAction) :=
  if frame.vector = apicSpuriousVector then .ok (k, .ret)
  else if frame.vector < 256 ∧ images.registered frame.vector then
    let k := interruptHandler k frame.vector
    if frame.cs &&& 3 = 3 then .ok (processOnUserInterrupt k frame cr2) else .ok (k, .ret)
  else if frame.vector < 32 ∧ frame.cs &&& 3 = 3 then .ok (processOnUserInterrupt k frame cr2)
  else .error (.exceptionPanic frame.vector)

/-! ## User events -/

/-- The address is one of the process's pixels, and they have been presented. -/
def presentedPixel (physical : UInt64) : Bool :=
  p.presentValid && p.surfacePhysical ≤ physical &&
    physical.toNat < p.surfacePhysical.toNat + argusAppSurfaceBytes

/-- A store by user code. One that the mapping does not allow changes nothing; the fault it
    raises is an interrupt event of its own. -/
def userStore (k : Kernel) (i : Fin 8) (address : UInt64) (value : UInt8) : Kernel :=
  match userAddress k.phys.mem (k.processes i).addressSpace address with
  | none => k
  | some (physical, flags) =>
    if flags &&& pageWritable = 0 then k
    else
      { k with
        phys := ⟨Function.update k.phys.mem physical.toNat value, k.phys.pmm⟩
        lateStores := if presentedPixel (k.processes i) physical ∧ value ≥ argusAppPaletteCount
          then k.lateStores + 1 else k.lateStores }

def userEvent (images : Images) (k : Kernel) : UserEvent → Except Stop (Kernel × UserAction)
  | .store address value =>
    match k.currentProcess with
    | none => .ok (k, .ret)
    | some i => .ok (userStore k i address value, .ret)
  | .syscall context => do
    let entry ← syscallDispatch k context
    .ok (entry.1, entry.2.2)
  | .interrupt frame cr2 => interruptDispatch images k frame cr2

/-- `arch_resume_user`: user code runs until an entry into the kernel asks for something other
    than to return. -/
def archResumeUser (images : Images) : List UserEvent → Kernel → Except Stop (Kernel × UserAction)
  | [], _ => .error .userRunning
  | event :: rest, k => do
    let entry ← userEvent images k event
    if entry.2 = .ret then archResumeUser images rest entry.1 else .ok entry

end ArgusOs.Runtime
