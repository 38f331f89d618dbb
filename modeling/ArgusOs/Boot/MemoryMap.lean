/-
  The memory map of the firmware: `uefi_memory.c`.

  The firmware is an adversary: whatever it answers to `GetMemoryMap` and `AllocatePool`, call by
  call, is a parameter, outputs of failed calls included. All that is asked of it is that a
  successful `AllocatePool` gives a buffer that is not null. What the function does to the pool
  is a record of its calls, and `outstanding` replays the record.

  The map is acquired entirely or not at all, unless the firmware answers the first call, the
  one without a buffer, with success: that answer is passed on to the caller without a map
  (`acquire_all_or_nothing_iff`).
-/
import Mathlib.Data.List.Basic

namespace ArgusOs.Boot

def efiSuccess : UInt64 := 0
def efiBadBufferSize : UInt64 := 0x8000000000000004
def efiBufferTooSmall : UInt64 := 0x8000000000000005
def efiOutOfResources : UInt64 := 0x8000000000000009

/-- `sizeof(EFI_MEMORY_DESCRIPTOR)`. -/
def descriptorBytes : UInt64 := 40

structure MemoryMap where
  buffer : UInt64 := 0
  size : UInt64 := 0
  capacity : UInt64 := 0
  key : UInt64 := 0
  descriptorSize : UInt64 := 0
  descriptorVersion : UInt32 := 0
  deriving DecidableEq

/-! ## The firmware -/

/-- What `GetMemoryMap` returns and what it leaves in its outputs. -/
structure MapAnswer where
  status : UInt64
  size : UInt64
  key : UInt64
  descriptorSize : UInt64
  descriptorVersion : UInt32

structure PoolAnswer where
  status : UInt64
  buffer : UInt64

/-- The answers, by the number of the call. -/
structure Firmware where
  getMemoryMap : Nat → MapAnswer
  allocatePool : Nat → PoolAnswer

/-- A buffer that is handed out is not null. -/
def Firmware.GivesBuffers (bs : Firmware) : Prop :=
  ∀ n, (bs.allocatePool n).status = efiSuccess → (bs.allocatePool n).buffer ≠ 0

inductive PoolEvent
  | allocated (buffer : UInt64)
  | freed (buffer : UInt64)
  deriving DecidableEq

/-- The buffers that are out after the calls; none if a buffer is handed out that is out already,
    or given back that is not. -/
def outstandingFrom : List UInt64 → List PoolEvent → Option (List UInt64)
  | held, [] => some held
  | held, .allocated buffer :: rest =>
    if buffer ∈ held then none else outstandingFrom (buffer :: held) rest
  | held, .freed buffer :: rest =>
    if buffer ∈ held then outstandingFrom (held.erase buffer) rest else none

def outstanding (events : List PoolEvent) : Option (List UInt64) := outstandingFrom [] events

theorem outstandingFrom_append (held : List UInt64) (first second : List PoolEvent) :
    outstandingFrom held (first ++ second) =
      (outstandingFrom held first).bind fun held' => outstandingFrom held' second := by
  induction first generalizing held with
  | nil => rfl
  | cons event rest ih =>
    cases event with
    | allocated buffer =>
      simp only [List.cons_append, outstandingFrom]
      split
      · rfl
      · exact ih _
    | freed buffer =>
      simp only [List.cons_append, outstandingFrom]
      split
      · exact ih _
      · rfl

/-! ## The function -/

/-- The loop with so many attempts left; the answers of this attempt are those numbered
    `attempt`, the first answer of `GetMemoryMap` having been used before the loop. -/
def acquireFrom (bs : Firmware) (required descriptorSize : UInt64) (events : List PoolEvent) :
    Nat → Nat → UInt64 × MemoryMap × List PoolEvent
  | 0, _ => (efiBufferTooSmall, {}, events)
  | left + 1, attempt =>
    if descriptorSize > (0xFFFFFFFFFFFFFFFF - required) / 8 then (efiOutOfResources, {}, events)
    else
      let capacity := required + descriptorSize * 8
      let pool := bs.allocatePool attempt
      if pool.status ≠ efiSuccess then (pool.status, {}, events)
      else
        let events := events ++ [.allocated pool.buffer]
        let answer := bs.getMemoryMap (attempt + 1)
        if answer.status = efiSuccess then
          if answer.descriptorSize < descriptorBytes ∨ answer.size % answer.descriptorSize ≠ 0 then
            (efiBadBufferSize, {}, events ++ [.freed pool.buffer])
          else
            (efiSuccess,
              { buffer := pool.buffer
                size := answer.size
                capacity := capacity
                key := answer.key
                descriptorSize := answer.descriptorSize
                descriptorVersion := answer.descriptorVersion }, events)
        else
          let events := events ++ [.freed pool.buffer]
          if answer.status ≠ efiBufferTooSmall then (answer.status, {}, events)
          else acquireFrom bs answer.size answer.descriptorSize events left (attempt + 1)

/-- `uefi_memory_map_acquire`: the status, the map, and the calls made to the pool. -/
def uefiMemoryMapAcquire (bs : Firmware) : UInt64 × MemoryMap × List PoolEvent :=
  let answer := bs.getMemoryMap 0
  if answer.status ≠ efiBufferTooSmall then (answer.status, {}, [])
  else if answer.descriptorSize < descriptorBytes then (efiBadBufferSize, {}, [])
  else acquireFrom bs answer.size answer.descriptorSize [] 4 0

/-! ## All or nothing -/

/-- On success there is a map, its buffer is the one that is out, and its descriptors fill it; on
    failure there is none, and every buffer was given back once. -/
structure AllOrNothing (status : UInt64) (map : MemoryMap) (events : List PoolEvent) : Prop where
  success : status = efiSuccess →
    map.buffer ≠ 0 ∧ outstanding events = some [map.buffer] ∧
      descriptorBytes ≤ map.descriptorSize ∧ map.size.toNat % map.descriptorSize.toNat = 0
  failure : status ≠ efiSuccess → map.buffer = 0 ∧ outstanding events = some []

variable {events : List PoolEvent}

theorem AllOrNothing.failed {status : UInt64} (hstatus : status ≠ efiSuccess)
    (hevents : outstanding events = some []) : AllOrNothing status {} events where
  success h := absurd h hstatus
  failure _ := ⟨rfl, hevents⟩

theorem outstanding_allocated (h : outstanding events = some []) (buffer : UInt64) :
    outstanding (events ++ [.allocated buffer]) = some [buffer] := by
  unfold outstanding at *
  rw [outstandingFrom_append, h]
  rfl

theorem outstanding_freed {buffer : UInt64} (h : outstanding events = some [buffer]) :
    outstanding (events ++ [.freed buffer]) = some [] := by
  unfold outstanding at *
  rw [outstandingFrom_append, h]
  simp [outstandingFrom]

/-- The loop holds nothing between two attempts, and at most its own buffer within one. -/
theorem acquireFrom_allOrNothing {bs : Firmware} (hbs : bs.GivesBuffers)
    (required descriptorSize : UInt64) (hevents : outstanding events = some [])
    (left attempt : Nat) :
    AllOrNothing (acquireFrom bs required descriptorSize events left attempt).1
      (acquireFrom bs required descriptorSize events left attempt).2.1
      (acquireFrom bs required descriptorSize events left attempt).2.2 := by
  induction left generalizing required descriptorSize events attempt with
  | zero => exact .failed (show efiBufferTooSmall ≠ efiSuccess by decide) hevents
  | succ left ih =>
    have hheld := outstanding_allocated hevents (bs.allocatePool attempt).buffer
    have hback := outstanding_freed hheld
    unfold acquireFrom
    split
    · exact .failed (show efiOutOfResources ≠ efiSuccess by decide) hevents
    dsimp only
    split
    · next hpool => exact .failed hpool hevents
    next hpool =>
    rw [not_not] at hpool
    split
    · split
      · exact .failed (show efiBadBufferSize ≠ efiSuccess by decide) hback
      · next hgood =>
        rw [not_or, not_not, UInt64.not_lt] at hgood
        obtain ⟨hsize, hmultiple⟩ := hgood
        refine ⟨fun _ => ⟨hbs attempt hpool, hheld, hsize, ?_⟩, fun h => absurd rfl h⟩
        rw [← UInt64.toNat_mod, hmultiple]
        rfl
    · next hstatus =>
      split
      · exact .failed hstatus hback
      · exact ih _ _ hback _

/-- The map is acquired all or nothing exactly when the firmware does not answer the call without
    a buffer with success. -/
theorem acquire_all_or_nothing_iff (bs : Firmware) (hbs : bs.GivesBuffers) :
    AllOrNothing (uefiMemoryMapAcquire bs).1 (uefiMemoryMapAcquire bs).2.1
        (uefiMemoryMapAcquire bs).2.2 ↔
      (bs.getMemoryMap 0).status ≠ efiSuccess := by
  unfold uefiMemoryMapAcquire
  dsimp only
  constructor
  · intro h hsuccess
    rw [if_pos (by rw [hsuccess]; decide)] at h
    exact (h.success hsuccess).1 rfl
  · intro hstatus
    split
    · exact .failed hstatus rfl
    split
    · exact .failed (show efiBadBufferSize ≠ efiSuccess by decide) rfl
    · exact acquireFrom_allOrNothing hbs _ _ rfl 4 0

/-- A firmware that asks for one descriptor and then fills it in. -/
def sampleFirmware : Firmware where
  getMemoryMap n :=
    if n = 0 then ⟨efiBufferTooSmall, 48, 1, 48, 1⟩ else ⟨efiSuccess, 48, 2, 48, 1⟩
  allocatePool _ := ⟨efiSuccess, 0x1000⟩

theorem acquire_all_or_nothing_sample :
    (uefiMemoryMapAcquire sampleFirmware).1 = efiSuccess ∧
      AllOrNothing (uefiMemoryMapAcquire sampleFirmware).1 (uefiMemoryMapAcquire sampleFirmware).2.1
        (uefiMemoryMapAcquire sampleFirmware).2.2 :=
  ⟨by decide, (acquire_all_or_nothing_iff sampleFirmware fun _ _ =>
    show (0x1000 : UInt64) ≠ 0 by decide).mpr (by decide)⟩

/-- A firmware that answers every call with success. -/
def agreeingFirmware : Firmware where
  getMemoryMap _ := ⟨efiSuccess, 0, 0, 0, 0⟩
  allocatePool _ := ⟨efiSuccess, 0x1000⟩

/-- Success is returned with no buffer and descriptors of size zero, by which the caller divides. -/
theorem acquire_without_map :
    agreeingFirmware.GivesBuffers ∧ (uefiMemoryMapAcquire agreeingFirmware).1 = efiSuccess ∧
      (uefiMemoryMapAcquire agreeingFirmware).2.1.buffer = 0 ∧
      (uefiMemoryMapAcquire agreeingFirmware).2.1.descriptorSize = 0 ∧
      ¬ AllOrNothing (uefiMemoryMapAcquire agreeingFirmware).1
        (uefiMemoryMapAcquire agreeingFirmware).2.1 (uefiMemoryMapAcquire agreeingFirmware).2.2 :=
  ⟨fun _ _ => show (0x1000 : UInt64) ≠ 0 by decide, rfl, rfl, rfl, fun h => (h.success rfl).1 rfl⟩

end ArgusOs.Boot
