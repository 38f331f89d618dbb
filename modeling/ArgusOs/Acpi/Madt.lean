/-
  What the kernel learns from ACPI: `acpi.c`.

  `acpi_init` checks the root pointer, looks the MADT up in the XSDT and walks its entries.
  Tables are read where they are in memory; an address is a number, and reading a table never
  changes it.
-/
import ArgusOs.Lib.Bytes

namespace ArgusOs.Acpi

open Lib

def rsdpSize : Nat := 36
def sdtHeaderSize : Nat := 36
def madtSize : Nat := 44

/-- `acpi_info_t`. -/
structure Info where
  localApicAddress : UInt64
  ioApicAddress : UInt64
  ioApicGsiBase : UInt32
  keyboardGsi : UInt32
  mouseGsi : UInt32
  enabledCpuCount : UInt32
  interruptOverrideCount : UInt32
  madtFlags : UInt32
  keyboardFlags : UInt16
  mouseFlags : UInt16
  deriving DecidableEq, Repr

def Info.initial : Info := ⟨0, 0, 0, 1, 12, 0, 0, 0, 0, 0⟩

variable (mem : Mem)

def bytesEqual (address : Nat) (text : List UInt8) : Bool :=
  (List.range text.length).all fun i => mem (address + i) = text.getD i 0

def checksumOk (address length : Nat) : Bool :=
  (List.range length).foldl (fun sum i => sum + mem (address + i)) 0 = 0

/-! ## Finding the MADT -/

def sdtLength (header : Nat) : Nat := (load32 mem (header + 4)).toNat

def sdtValid (header : Nat) : Bool :=
  header ≠ 0 && sdtLength mem header ≥ sdtHeaderSize && sdtLength mem header ≤ 0x100000 &&
    checksumOk mem header (sdtLength mem header)

/-- `"XSDT"`. -/
def xsdtSignature : List UInt8 := [0x58, 0x53, 0x44, 0x54]

/-- `"APIC"`. -/
def apicSignature : List UInt8 := [0x41, 0x50, 0x49, 0x43]

/-- `"RSD PTR "`. -/
def rsdpSignature : List UInt8 := [0x52, 0x53, 0x44, 0x20, 0x50, 0x54, 0x52, 0x20]

/-- The XSDT's entry number `i`. -/
def xsdtEntry (xsdt i : Nat) : Nat := (load64 mem (xsdt + sdtHeaderSize + 8 * i)).toNat

def findMadt (rsdp : Nat) : Option Nat :=
  let xsdt := (load64 mem (rsdp + 24)).toNat
  if mem (rsdp + 15) < 2 ∨ xsdt = 0 then none
  else if sdtValid mem xsdt = false ∨ bytesEqual mem xsdt xsdtSignature = false then none
  else
    let payload := sdtLength mem xsdt - sdtHeaderSize
    if payload % 8 ≠ 0 then none
    else ((List.range (payload / 8)).map (xsdtEntry mem xsdt)).find? fun candidate =>
      sdtValid mem candidate && bytesEqual mem candidate apicSignature

/-! ## Its entries -/

/-- An interrupt source override of the ISA bus. -/
def Info.override (info : Info) (source : UInt8) (gsi : UInt32) (flags : UInt16) : Info :=
  if source = 1 then { info with keyboardGsi := gsi, keyboardFlags := flags }
  else if source = 12 then { info with mouseGsi := gsi, mouseFlags := flags }
  else info

def load16 (address : Nat) : UInt16 := UInt16.ofNat (loadLe mem address 2)

/-- What one entry tells. -/
def madtEntry (entry : Nat) (info : Info) : Info :=
  let type := mem entry
  let length := mem (entry + 1)
  if type = 0 ∧ length ≥ 8 then
    if load32 mem (entry + 4) &&& 3 ≠ 0 then
      { info with enabledCpuCount := info.enabledCpuCount + 1 }
    else info
  else if type = 1 ∧ length ≥ 12 ∧ info.ioApicAddress = 0 then
    { info with
      ioApicAddress := (load32 mem (entry + 4)).toUInt64
      ioApicGsiBase := load32 mem (entry + 8) }
  else if type = 2 ∧ length ≥ 10 then
    let info := { info with interruptOverrideCount := info.interruptOverrideCount + 1 }
    if mem (entry + 2) = 0 then
      info.override (mem (entry + 3)) (load32 mem (entry + 4)) (load16 mem (entry + 8))
    else info
  else if type = 5 ∧ length ≥ 12 then { info with localApicAddress := load64 mem (entry + 4) }
  else info

/-- The walk over the entries up to `stop`. An entry takes two bytes at least, so there is one
    step for every byte of the table to spare. -/
def madtEntries (mem : Mem) (stop : Nat) : Nat → Nat → Info → Info × Bool
  | 0, _, info => (info, false)
  | steps + 1, entry, info =>
    if entry + 2 ≤ stop then
      let length := (mem (entry + 1)).toNat
      if length < 2 ∨ entry + length > stop then (info, false)
      else madtEntries mem stop steps (entry + length) (madtEntry mem entry info)
    else (info, true)

def rsdpValid (rsdp : Nat) : Bool :=
  let length := (load32 mem (rsdp + 20)).toNat
  bytesEqual mem rsdp rsdpSignature && checksumOk mem rsdp 20 && mem (rsdp + 15) ≥ 2 &&
    length ≥ rsdpSize && length ≤ 4096 && checksumOk mem rsdp length

/-- `rsdp` is the boot information's `acpi_rsdp`. -/
def acpiInit (rsdp : Nat) : Info × Bool :=
  if rsdp = 0 ∨ rsdpValid mem rsdp = false then (.initial, false)
  else
    match findMadt mem rsdp with
    | none => (.initial, false)
    | some madt =>
      if sdtLength mem madt < madtSize then (.initial, false)
      else
        let walked := madtEntries mem (madt + sdtLength mem madt) (sdtLength mem madt)
          (madt + madtSize) { Info.initial with
            localApicAddress := (load32 mem (madt + 36)).toUInt64
            madtFlags := load32 mem (madt + 40) }
        (walked.1, walked.2 && walked.1.localApicAddress ≠ 0 && walked.1.enabledCpuCount ≠ 0)

end ArgusOs.Acpi
