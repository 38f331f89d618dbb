/-
  The AHCI controller: `ahci_init` of `ahci.c` and the functions it calls.

  The controller is an adversary: the n-th register read of a run returns the n-th value of an
  arbitrary sequence, whatever the register, and the identify data is arbitrary. A run leaves a
  record of its register accesses and of its calls of the page allocator; `start_port` puts a
  mark in the record when it returns, and `stop_port` when it is called.
-/
import ArgusOs.Lib.Interleave
import ArgusOs.Memory.Pmm

namespace ArgusOs.Ahci

open Lib Memory

/-! ## Registers -/

inductive Register
  | hba (offset : UInt32)
  | port (number : Nat) (offset : UInt32)
  deriving DecidableEq

def hbaCap : Register := .hba 0x00
def hbaGhc : Register := .hba 0x04
def hbaPi : Register := .hba 0x0C
def hbaVs : Register := .hba 0x10
def hbaCap2 : Register := .hba 0x24
def hbaBohc : Register := .hba 0x28

variable (port : Nat)

def portClb : Register := .port port 0x00
def portClbu : Register := .port port 0x04
def portFb : Register := .port port 0x08
def portFbu : Register := .port port 0x0C
def portIs : Register := .port port 0x10
def portIe : Register := .port port 0x14
def portCmd : Register := .port port 0x18
def portTfd : Register := .port port 0x20
def portSig : Register := .port port 0x24
def portSsts : Register := .port port 0x28
def portSerr : Register := .port port 0x30
def portSact : Register := .port port 0x34
def portCi : Register := .port port 0x38

def ghcIe : UInt32 := 0x2
def ghcAe : UInt32 := 0x80000000
def capS64a : UInt32 := 0x80000000
def cap2Boh : UInt32 := 0x1
def bohcBos : UInt32 := 0x1
def bohcOos : UInt32 := 0x2
def bohcBb : UInt32 := 0x10

def cmdSt : UInt32 := 0x1
def cmdFre : UInt32 := 0x10
def cmdFr : UInt32 := 0x4000
def cmdCr : UInt32 := 0x8000
def tfdDrq : UInt32 := 0x8
def tfdBsy : UInt32 := 0x80
def isTfes : UInt32 := 0x40000000
def sataSignature : UInt32 := 0x00000101

def ataIdentifyDevice : UInt8 := 0xEC

def ahciDmaPages : Nat := 2
def ahciTimeout : Nat := 10000000

/-! ## The bus -/

inductive Event
  | read (register : Register) (value : UInt32)
  | write (register : Register) (value : UInt32)
  | allocated (address : UInt64)
  | released (address : UInt64)
  | startPort (port : Nat)
  | stopPort (port : Nat) (reads : Nat)
  deriving DecidableEq

/-- The number of values read so far, the record so far and the page allocator. -/
structure Bus (values : Nat → UInt32) where
  reads : Nat
  record : List Event
  pmm : Pmm

variable {values : Nat → UInt32}

def mmioRead (register : Register) : Code (Bus values) UInt32 :=
  Code.atomic
    (fun bus => { bus with
      reads := bus.reads + 1
      record := bus.record ++ [.read register (values bus.reads)] })
    fun bus => values bus.reads

def mark (event : Event) : Code (Bus values) Unit :=
  Code.store fun bus => { bus with record := bus.record ++ [event] }

def mmioWrite (register : Register) (value : UInt32) : Code (Bus values) Unit :=
  mark (.write register value)

def pmmAlloc (count : Nat) : Code (Bus values) UInt64 :=
  Code.atomic
    (fun bus => { bus with
      pmm := (pmmAllocPages bus.pmm count).1
      record := bus.record ++ [.allocated (pmmAllocPages bus.pmm count).2] })
    fun bus => (pmmAllocPages bus.pmm count).2

def pmmRelease (address : UInt64) (count : Nat) : Code (Bus values) Unit :=
  Code.store fun bus => { bus with
    pmm := (pmmReleasePages bus.pmm address count).1
    record := bus.record ++ [.released address] }

/-! ## The driver -/

/-- `wait_clear`, with the number of attempts that are left. -/
def waitClear (register : Register) (mask : UInt32) : Nat → Code (Bus values) Bool
  | 0 => pure false
  | attempts + 1 => do
    let value ← mmioRead register
    if value &&& mask = 0 then pure true else waitClear register mask attempts

def claimController : Code (Bus values) Bool := do
  let cap2 ← mmioRead hbaCap2
  if cap2 &&& cap2Boh = 0 then pure true
  else do
    let ownership ← mmioRead hbaBohc
    mmioWrite hbaBohc (ownership ||| bohcOos)
    waitClear hbaBohc (bohcBos ||| bohcBb) ahciTimeout

/-- What `stop_port` does once its call is marked. -/
def stopEngines : Code (Bus values) Bool := do
  let command ← mmioRead (portCmd port)
  mmioWrite (portCmd port) (command &&& ~~~cmdSt)
  let idle ← waitClear (portCmd port) cmdCr ahciTimeout
  if idle = false then pure false
  else do
    let command ← mmioRead (portCmd port)
    mmioWrite (portCmd port) (command &&& ~~~cmdFre)
    waitClear (portCmd port) cmdFr ahciTimeout

/-- `stop_port`; the mark says how many registers have been read when it is called. -/
def stopPort (port : Nat) : Code (Bus values) Bool := do
  Code.store fun bus => { bus with record := bus.record ++ [.stopPort port bus.reads] }
  stopEngines port

def startPort (port : Nat) : Code (Bus values) Unit := do
  let command ← mmioRead (portCmd port)
  mmioWrite (portCmd port) (command ||| cmdFre)
  mmioWrite (portCmd port) (command ||| cmdFre ||| cmdSt)
  mark (.startPort port)

def sataPortPresent : Code (Bus values) Bool := do
  let status ← mmioRead (portSsts port)
  if status &&& 0x0F = 3 ∧ (status >>> 8) &&& 0x0F = 1 then do
    let signature ← mmioRead (portSig port)
    pure (signature == sataSignature)
  else pure false

/-- The loop over the ports `candidate, candidate + 1, …`, `left` of them. -/
def findPort (implemented : UInt32) : Nat → Nat → Code (Bus values) (Option Nat)
  | 0, _ => pure none
  | left + 1, candidate =>
    if implemented &&& (1 <<< UInt32.ofNat candidate) = 0 then
      findPort implemented left (candidate + 1)
    else do
      let present ← sataPortPresent candidate
      if present then pure (some candidate) else findPort implemented left (candidate + 1)

/-- The last loop of `issue_command`. -/
def awaitCommand (port : Nat) : Nat → Code (Bus values) Bool
  | 0 => pure false
  | attempts + 1 => do
    let interruptStatus ← mmioRead (portIs port)
    if interruptStatus &&& isTfes ≠ 0 then pure false
    else do
      let issued ← mmioRead (portCi port)
      if issued &&& 1 = 0 then do
        let taskFile ← mmioRead (portTfd port)
        pure (taskFile &&& 1 == 0)
      else awaitCommand port attempts

/-- The checks of `issue_command` on SACT and CI, the second only if the first is clear. -/
def slotBusy : Code (Bus values) Bool := do
  let active ← mmioRead (portSact port)
  if active &&& 1 ≠ 0 then pure true
  else do
    let issued ← mmioRead (portCi port)
    pure (issued &&& 1 != 0)

/-- `issue_command`; the command table it fills in is read by the controller only. -/
def issueCommand (online : Bool) (command : UInt8) : Code (Bus values) Bool :=
  if online = false ∧ command ≠ ataIdentifyDevice then pure false
  else do
    let ready ← waitClear (portTfd port) (tfdBsy ||| tfdDrq) ahciTimeout
    if ready = false then pure false
    else do
      let busy ← slotBusy port
      if busy then pure false
      else do
        mmioWrite (portIs port) 0xFFFFFFFF
        mmioWrite (portSerr port) 0xFFFFFFFF
        mmioWrite (portCi port) 1
        awaitCommand port ahciTimeout

def readU16 (bytes : Nat → UInt8) (word : Nat) : UInt16 :=
  (bytes (word * 2)).toUInt16 ||| ((bytes (word * 2 + 1)).toUInt16 <<< 8)

/-- What the identify data says: the number of sectors, or 0. -/
def sectorsOf (data : Nat → UInt8) : UInt64 :=
  if readU16 data 83 &&& 0xC400 ≠ 0x4400 then 0
  else
    let sectors := (readU16 data 100).toUInt64 ||| ((readU16 data 101).toUInt64 <<< 16) |||
      ((readU16 data 102).toUInt64 <<< 32) ||| ((readU16 data 103).toUInt64 <<< 48)
    if sectors = 0 ∨ sectors > 0x1000000000000 then 0
    else if readU16 data 106 &&& 0xC000 = 0x4000 ∧ readU16 data 106 &&& 0x1000 ≠ 0 ∧
        (readU16 data 117).toUInt32 ||| ((readU16 data 118).toUInt32 <<< 16) ≠ 256 then 0
    else sectors

def identifySectorCount (data : Nat → UInt8) : Code (Bus values) UInt64 := do
  let answered ← issueCommand port false ataIdentifyDevice
  if answered = false then pure 0 else pure (sectorsOf data)

/-! ## The block device -/

/-- `argus_block_device_v1_t` without its context, which no check reads. -/
structure BlockDevice where
  abiVersion : UInt32
  structSize : UInt32
  name : List UInt8
  sectorSize : UInt32
  reserved : UInt32
  sectorCount : UInt64
  hasRead : Bool

/-- `valid_name`, from character `i` on. -/
def validNameFrom : Nat → List UInt8 → Bool
  | _, [] => false
  | i, character :: rest =>
    if character = 0 then i != 0
    else if character < 32 ∨ character > 126 then false
    else validNameFrom (i + 1) rest

def validName (name : List UInt8) : Bool := validNameFrom 0 name

def blockDeviceValid (device : BlockDevice) : Bool :=
  device.abiVersion == 1 && device.structSize == 64 && validName device.name &&
    decide (device.sectorSize ≥ 512) && device.sectorSize &&& (device.sectorSize - 1) == 0 &&
    device.sectorCount != 0 && device.reserved == 0 && device.hasRead

/-- The device `ahci_init` publishes; its name is "ahci0" in a field of 24 characters. -/
def ahciDevice (sectors : UInt64) : BlockDevice where
  abiVersion := 1
  structSize := 64
  name := [0x61, 0x68, 0x63, 0x69, 0x30] ++ List.replicate 19 0
  sectorSize := 512
  reserved := 0
  sectorCount := sectors
  hasRead := true

theorem ahciDevice_valid {sectors : UInt64} (h : sectors ≠ 0) :
    blockDeviceValid (ahciDevice sectors) = true := by
  have hname : validName (ahciDevice sectors).name = true := rfl
  have hpower : (512 : UInt32) &&& 511 = 0 := by decide
  unfold blockDeviceValid
  rw [hname]
  simp [ahciDevice, h, hpower]

/-! ## Initialisation -/

/-- What `ahci_init` is given: the PCI device, how far memory is mapped, what the calls into the
    paging and PCI code return, and what the drive answers to the identify command. -/
structure Machine where
  hasDevice : Bool
  hasPagingInfo : Bool
  classCode : UInt8
  subclass : UInt8
  programmingInterface : UInt8
  bar : UInt32
  mappedBytes : UInt64
  marksMmio : Bool
  enablesBusMaster : Bool
  identifyData : Nat → UInt8

def abarBytes : UInt64 := 0x100 + 32 * 0x80

variable (machine : Machine)

def Machine.abarAddress : UInt64 := (machine.bar &&& 0xFFFFFFF0).toUInt64

/-- The checks that `ahci_init` makes before it touches a register. -/
def Machine.accepted : Bool :=
  machine.hasDevice && machine.hasPagingInfo && machine.classCode == 0x01 &&
    machine.subclass == 0x06 && machine.programmingInterface == 0x01 &&
    machine.bar != 0xFFFFFFFF && machine.bar &&& 1 == 0 && machine.bar &&& 6 != 4 &&
    machine.abarAddress != 0 && decide (machine.abarAddress < machine.mappedBytes) &&
    decide (abarBytes ≤ machine.mappedBytes - machine.abarAddress) && machine.marksMmio &&
    machine.enablesBusMaster

/-- `release_dma` for a controller with its pages at `dma`. -/
def releaseDma (dma : UInt64) : Code (Bus values) Unit :=
  if dma ≠ 0 then pmmRelease dma ahciDmaPages else pure ()

/-- The addresses of the DMA memory, and a clean interrupt state. -/
def programPort (dma : UInt64) : Code (Bus values) Unit := do
  mmioWrite (portClb port) dma.toUInt32
  mmioWrite (portClbu port) (dma >>> 32).toUInt32
  mmioWrite (portFb port) (dma + 1024).toUInt32
  mmioWrite (portFbu port) ((dma + 1024) >>> 32).toUInt32
  mmioWrite (portIe port) 0
  mmioWrite (portIs port) 0xFFFFFFFF
  mmioWrite (portSerr port) 0xFFFFFFFF

/-- The end of `ahci_init`, from `start_port` on. -/
def bringUp (port : Nat) (dma : UInt64) : Code (Bus values) Bool := do
  startPort port
  let sectors ← identifySectorCount port machine.identifyData
  if sectors = 0 then do
    -- the result is not looked at
    let _ ← stopPort port
    releaseDma dma
    pure false
  else do
    let _ ← mmioRead hbaVs
    pure (blockDeviceValid (ahciDevice sectors))

/-- `ahci_init` once a port is found and stopped. -/
def attach (port : Nat) : Code (Bus values) Bool := do
  let dma ← pmmAlloc ahciDmaPages
  if dma = 0 then pure false
  else do
    let cap ← mmioRead hbaCap
    if cap &&& capS64a = 0 ∧ dma > 0xFFFFFFFF - 2 * 4096 then do
      pmmRelease dma ahciDmaPages
      pure false
    else do
      programPort port dma
      bringUp machine port dma

def ahciInit : Code (Bus values) Bool :=
  if machine.accepted = false then pure false
  else do
    let claimed ← claimController
    if claimed = false then pure false
    else do
      let globalControl ← mmioRead hbaGhc
      mmioWrite hbaGhc ((globalControl ||| ghcAe) &&& ~~~ghcIe)
      let implemented ← mmioRead hbaPi
      let found ← findPort implemented 32 0
      match found with
      | none => pure false
      | some port => do
        let stopped ← stopPort port
        if stopped = false then pure false else attach machine port

/-- A run of `ahci_init`: the bus it leaves and what it returns. -/
def initRun (values : Nat → UInt32) (pmm : Pmm) :
    Bus values × Bool :=
  (ahciInit machine).run ⟨0, [], pmm⟩

end ArgusOs.Ahci
