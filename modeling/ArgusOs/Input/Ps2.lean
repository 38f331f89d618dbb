/-
  The PS/2 driver: `ps2.c`.

  Every access to a static variable or a port is one action, so that a run can be interrupted
  between any two of them. The handler `ps2Interrupt` is the drain loop run to completion.

  The controller hands out bytes in the order they came in, each marked as the keyboard's or
  the mouse's. Which bytes come in before each port access is part of its state, so that a
  statement about all states is one about bytes that come in at any time.
-/
import ArgusOs.Lib.Interleave
import ArgusOs.Lib.Ring

namespace ArgusOs.Input

open Lib

def argusKeyUp : UInt8 := 0x80
def argusKeyDown : UInt8 := 0x81
def argusKeyLeft : UInt8 := 0x82
def argusKeyRight : UInt8 := 0x83
def argusKeyEscape : UInt8 := 0x84

def ps2KeyQueueCapacity : Nat := 64
def ps2MouseQueueCapacity : Nat := 32

/-! ## Scan codes -/

structure Modifiers where
  leftShift : Bool := false
  rightShift : Bool := false
  capsLock : Bool := false
  extendedPrefix : Bool := false
  deriving DecidableEq

/-- The letters at scan codes 0x10, 0x1E and 0x2C on, lower case; 0 elsewhere. -/
def letters : List UInt8 :=
  List.replicate 16 0 ++ [0x71, 0x77, 0x65, 0x72, 0x74, 0x79, 0x75, 0x69, 0x6F, 0x70] ++
  List.replicate 4 0 ++ [0x61, 0x73, 0x64, 0x66, 0x67, 0x68, 0x6A, 0x6B, 0x6C] ++
  List.replicate 5 0 ++ [0x7A, 0x78, 0x63, 0x76, 0x62, 0x6E, 0x6D]

/-- The C string has a terminator, so that each table has seventeen bytes. -/
def normal : List UInt8 :=
  [0, 0, 0x31, 0x32, 0x33, 0x34, 0x35, 0x36, 0x37, 0x38, 0x39, 0x30, 0x2D, 0x3D, 0, 0, 0]

def upper : List UInt8 :=
  [0, 0, 0x21, 0x40, 0x23, 0x24, 0x25, 0x5E, 0x26, 0x2A, 0x28, 0x29, 0x5F, 0x2B, 0, 0, 0]

variable (scanCode : UInt8)

def translateLetter (shifted : Bool) : UInt8 :=
  let value := letters.getD scanCode.toNat 0
  if value = 0 then 0 else if shifted then value - 0x61 + 0x41 else value

/-- The cases after the tables are for scan codes beyond the tables' size, for which the
    function has already answered. -/
def translateSymbol (shifted : Bool) : UInt8 :=
  if scanCode.toNat ≥ normal.length then 0
  else
    let value := (if shifted then upper else normal).getD scanCode.toNat 0
    if value ≠ 0 then value
    else if scanCode = 0x1A then if shifted then 0x7B else 0x5B
    else if scanCode = 0x1B then if shifted then 0x7D else 0x5D
    else if scanCode = 0x27 then if shifted then 0x3A else 0x3B
    else if scanCode = 0x28 then if shifted then 0x22 else 0x27
    else if scanCode = 0x29 then if shifted then 0x7E else 0x60
    else if scanCode = 0x2B then if shifted then 0x7C else 0x5C
    else if scanCode = 0x33 then if shifted then 0x3C else 0x2C
    else if scanCode = 0x34 then if shifted then 0x3E else 0x2E
    else if scanCode = 0x35 then if shifted then 0x3F else 0x2F
    else 0

/-- A key after the 0xE0 byte. -/
def extendedKey : Option UInt8 :=
  if scanCode &&& 0x80 ≠ 0 then none
  else if scanCode &&& 0x7F = 0x48 then some argusKeyUp
  else if scanCode &&& 0x7F = 0x50 then some argusKeyDown
  else if scanCode &&& 0x7F = 0x4B then some argusKeyLeft
  else if scanCode &&& 0x7F = 0x4D then some argusKeyRight
  else none

/-- A key that is a letter or a symbol. -/
def printedKey : Code Modifiers (Option UInt8) := do
  let left ← Code.load (·.leftShift)
  let shifted ← if left then pure true else Code.load (·.rightShift)
  let capsLock ← Code.load (·.capsLock)
  let letter := translateLetter scanCode (shifted ^^ capsLock)
  let symbol := translateSymbol scanCode shifted
  pure (if letter ≠ 0 then some letter else if symbol ≠ 0 then some symbol else none)

/-- A byte without the 0xE0 before it. -/
def plainKey : Code Modifiers (Option UInt8) := do
  let released := scanCode &&& 0x80 ≠ 0
  let code := scanCode &&& 0x7F
  if code = 0x2A then
    Code.store fun m => { m with leftShift := !released }
    pure none
  else if code = 0x36 then
    Code.store fun m => { m with rightShift := !released }
    pure none
  else if released then pure none
  else if code = 0x01 then pure (some argusKeyEscape)
  else if code = 0x3A then
    let capsLock ← Code.load (·.capsLock)
    Code.store fun m => { m with capsLock := !capsLock }
    pure none
  else if code = 0x1C then pure (some 0x0A)
  else if code = 0x0E then pure (some 0x08)
  else if code = 0x0F then pure (some 0x09)
  else if code = 0x39 then pure (some 0x20)
  else printedKey code

/-- `decode_scan_code`, with `none` for -1. -/
def decodeScanCode : Code Modifiers (Option UInt8) := do
  if scanCode = 0xE0 then
    Code.store fun m => { m with extendedPrefix := true }
    pure none
  else
    let extended ← Code.load (·.extendedPrefix)
    if extended then
      Code.store fun m => { m with extendedPrefix := false }
      pure (extendedKey scanCode)
    else plainKey scanCode

/-! ## Queues

  The key queue and the mouse queue are the same code. Positions are below the capacity, and
  the mask after the addition brings the last one back to the first. -/

structure Spsc (cap : Nat) (α : Type) where
  cells : Fin cap → α
  head : Fin cap
  tail : Fin cap
  dropped : UInt64

namespace Spsc

variable {cap : Nat} [NeZero cap] {α : Type}

def enqueue (value : α) : Code (Spsc cap α) Unit := do
  let head ← Code.load (·.head)
  let tail ← Code.load (·.tail)
  if head + 1 = tail then Code.store fun q => { q with dropped := q.dropped + 1 }
  else
    Code.store fun q => { q with cells := Function.update q.cells head value }
    Code.store fun q => { q with head := head + 1 }

def dequeue : Code (Spsc cap α) (Option α) := do
  let tail ← Code.load (·.tail)
  let head ← Code.load (·.head)
  if tail = head then pure none
  else
    let value ← Code.load fun q => q.cells tail
    Code.store fun q => { q with tail := tail + 1 }
    pure (some value)

end Spsc

/-! ## The controller -/

/-- A byte in the controller, and whether it is the mouse's. -/
structure PortByte where
  fromMouse : Bool
  value : UInt8

structure Controller where
  /-- the bytes that come in before each port access to come -/
  arrivals : List (List PortByte)
  pending : List PortByte
  /-- the byte last read, which an empty data port gives again -/
  latch : UInt8
  /-- the keyboard bytes read so far -/
  received : List UInt8

namespace Controller

variable (c : Controller)

def tick : Controller :=
  { c with pending := c.pending ++ c.arrivals.headD [], arrivals := c.arrivals.tail }

def status : UInt8 :=
  match c.pending with
  | [] => 0
  | byte :: _ => if byte.fromMouse then 0x21 else 0x01

def data : UInt8 :=
  match c.pending with
  | [] => c.latch
  | byte :: _ => byte.value

def taken : Controller :=
  match c.pending with
  | [] => c
  | byte :: rest =>
    { c with
      pending := rest, latch := byte.value
      received := if byte.fromMouse then c.received else c.received ++ [byte.value] }

end Controller

/-! ## The driver -/

structure MouseEvent where
  dx : Int
  dy : Int
  buttons : UInt8

structure MousePacket where
  bytes : UInt8 → UInt8
  index : UInt8
  packets : UInt64

structure Ps2 where
  controller : Controller
  keyboardAvailable : Bool
  keyboardIrqOnline : Bool
  mouseAvailable : Bool
  mouseIrqOnline : Bool
  modifiers : Modifiers
  keys : Spsc ps2KeyQueueCapacity UInt8
  packet : MousePacket
  mouseEvents : Spsc ps2MouseQueueCapacity MouseEvent

instance : NeZero ps2KeyQueueCapacity := ⟨by decide⟩
instance : NeZero ps2MouseQueueCapacity := ⟨by decide⟩

def readStatus : Code Ps2 UInt8 :=
  Code.atomic (fun s => { s with controller := s.controller.tick }) fun s =>
    s.controller.tick.status

def readData : Code Ps2 UInt8 :=
  Code.atomic (fun s => { s with controller := s.controller.tick.taken })
    fun s => s.controller.tick.data

def onModifiers (c : Code Modifiers α) : Code Ps2 α :=
  c.zoom (·.modifiers) fun modifiers s => { s with modifiers }

def onKeys (c : Code (Spsc ps2KeyQueueCapacity UInt8) α) : Code Ps2 α :=
  c.zoom (·.keys) fun keys s => { s with keys }

def onPacket (c : Code MousePacket α) : Code Ps2 α :=
  c.zoom (·.packet) fun packet s => { s with packet }

def onMouseEvents (c : Code (Spsc ps2MouseQueueCapacity MouseEvent) α) : Code Ps2 α :=
  c.zoom (·.mouseEvents) fun mouseEvents s => { s with mouseEvents }

def queueKey (character : UInt8) : Code Ps2 Unit := onKeys (Spsc.enqueue character)

def dequeueKey : Code Ps2 (Option UInt8) := onKeys Spsc.dequeue

def queueMouseEvent (event : MouseEvent) : Code Ps2 Unit := onMouseEvents (Spsc.enqueue event)

def dequeueMouseEvent : Code Ps2 (Option MouseEvent) := onMouseEvents Spsc.dequeue

/-- The event of three packet bytes, unless it is one that overflowed. -/
def packetEvent : Code MousePacket (Option MouseEvent) := do
  let flags ← Code.load (·.bytes 0)
  if flags &&& 0xC0 ≠ 0 then pure none
  else
    let x ← Code.load (·.bytes 1)
    let y ← Code.load (·.bytes 2)
    let dx : Int := if flags &&& 0x10 ≠ 0 then x.toNat - 256 else x.toNat
    let rawDy : Int := if flags &&& 0x20 ≠ 0 then y.toNat - 256 else y.toNat
    pure (some { dx, dy := -rawDy, buttons := flags &&& 0x07 })

/-- `decode_mouse_byte` up to the call of `queue_mouse_event`. -/
def mousePacketByte (value : UInt8) : Code MousePacket (Option MouseEvent) := do
  let index ← Code.load (·.index)
  if index = 0 ∧ value &&& 0x08 = 0 then pure none
  else
    let place ← Code.load (·.index)
    Code.store fun p => { p with index := place + 1 }
    Code.store fun p => { p with bytes := Function.update p.bytes place value }
    let filled ← Code.load (·.index)
    if filled < 3 then pure none
    else
      Code.store fun p => { p with index := 0 }
      Code.store fun p => { p with packets := p.packets + 1 }
      packetEvent

def decodeMouseByte (value : UInt8) : Code Ps2 Unit := do
  match ← onPacket (mousePacketByte value) with
  | none => pure ()
  | some event => queueMouseEvent event

def routeKeyboardByte (value : UInt8) : Code Ps2 Unit := do
  match ← onModifiers (decodeScanCode value) with
  | none => pure ()
  | some character => queueKey character

def routeDataByte (status value : UInt8) : Code Ps2 Unit := do
  if status &&& 0x20 ≠ 0 then
    let mouseAvailable ← Code.load (·.mouseAvailable)
    if mouseAvailable then decodeMouseByte value else pure ()
  else
    let keyboardAvailable ← Code.load (·.keyboardAvailable)
    if keyboardAvailable then routeKeyboardByte value else pure ()

/-- The drain loop with so many turns left. -/
def drain : Nat → Code Ps2 Unit
  | 0 => pure ()
  | left + 1 => do
    let status ← readStatus
    if status &&& 1 = 0 then pure ()
    else
      let value ← readData
      routeDataByte status value
      drain left

def drainController : Code Ps2 Unit := drain 64

/-- The handler runs to completion; the end-of-interrupt to the APIC changes nothing here. -/
def ps2Interrupt (s : Ps2) : Ps2 := (drainController.run s).1

def ps2GetcNonblocking : Code Ps2 (Option UInt8) := do
  let keyboardAvailable ← Code.load (·.keyboardAvailable)
  if !keyboardAvailable then pure none
  else
    let keyboardIrqOnline ← Code.load (·.keyboardIrqOnline)
    if !keyboardIrqOnline then drainController else pure ()
    dequeueKey

def ps2MouseGetEvent : Code Ps2 (Option MouseEvent) := do
  let mouseAvailable ← Code.load (·.mouseAvailable)
  if !mouseAvailable then pure none
  else
    let mouseIrqOnline ← Code.load (·.mouseIrqOnline)
    if !mouseIrqOnline then drainController else pure ()
    dequeueMouseEvent

end ArgusOs.Input
