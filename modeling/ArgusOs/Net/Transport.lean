/-
  The transport of a network device: `virtio_modern_transport_valid` of `net.c`.

  The configuration space is the device's, and so are the chain of capabilities in it, their
  lengths, the registers they name and the regions they describe. Every function returns, beside
  its answer, the offsets it reads, as it computes them before they become a byte.

  A space that is accepted has a chain of distinct capabilities, and those that matter describe
  regions within bounds in a memory register (`transportWalk_sound`). Whether that register is
  the upper half of a 64-bit one is not looked at (`virtio_transport_sound_iff`).
-/
import ArgusOs.Pci.Quarantine

namespace ArgusOs.Net

open Lib Pci

def pciCapabilityVendor : UInt8 := 0x09
def virtioVendorId : UInt16 := 0x1AF4
def virtioNetModernDeviceId : UInt16 := 0x1041
def virtioPciCapCommonCfg : UInt8 := 1
def virtioPciCapNotifyCfg : UInt8 := 2
def virtioPciCapIsrCfg : UInt8 := 3
def virtioPciCapDeviceCfg : UInt8 := 4
def virtioCommonMinBytes : UInt32 := 56
def virtioCapMinBytes : UInt8 := 16
def virtioNotifyCapMinBytes : UInt8 := 20

/-- The part of `pci_device_t` that is looked at, with the space its address leads to. -/
structure PciDevice where
  vendorId : UInt16
  deviceId : UInt16
  classCode : UInt8
  config : ConfigSpace

/-! ## The code -/

section Code
variable (s : ConfigSpace)

/-- A read at an offset that becomes a byte in the call. -/
def read32 (offset : Nat) : UInt32 := pciConfigRead32 s (UInt8.ofNat offset)

def validMemoryBar (bar : UInt8) : Bool × List Nat :=
  if bar ≥ 6 then (false, [])
  else
    let offset := 0x10 + bar.toNat * 4
    let value := read32 s offset
    if value = 0xFFFFFFFF ∨ value &&& 1 ≠ 0 then (false, [offset])
    else if value &&& 6 = 4 ∧ bar = 5 then (false, [offset])
    else (true, [offset])

def capabilityRegionValid (capability capabilityLength type : UInt8) : Bool × List Nat :=
  if capability > 0xF0 ∨ capabilityLength < virtioCapMinBytes then (false, [])
  else
    let barData := read32 s (capability.toNat + 4)
    let offset := read32 s (capability.toNat + 8)
    let length := read32 s (capability.toNat + 12)
    let words := [capability.toNat + 4, capability.toNat + 8, capability.toNat + 12]
    if barData = 0xFFFFFFFF ∨ offset = 0xFFFFFFFF ∨ length = 0xFFFFFFFF ∨ length = 0 ∨
        offset > 0xFFFFFFFF - length then (false, words)
    else
      let bar := validMemoryBar s barData.toUInt8
      let words := words ++ bar.2
      if bar.1 = false then (false, words)
      else if type = virtioPciCapCommonCfg then (length ≥ virtioCommonMinBytes, words)
      else if type = virtioPciCapNotifyCfg then
        if capability > 0xEC ∨ capabilityLength < virtioNotifyCapMinBytes ∨ length < 2 then
          (false, words)
        else
          let multiplier := read32 s (capability.toNat + 16)
          (multiplier ≠ 0xFFFFFFFF ∧
            (multiplier = 0 ∨ (multiplier &&& 1 = 0 ∧ multiplier &&& (multiplier - 1) = 0)),
            words ++ [capability.toNat + 16])
      else if type = virtioPciCapIsrCfg then (length ≥ 1, words)
      else if type = virtioPciCapDeviceCfg then (true, words)
      else (false, words)

/-- The loop, with `left` of its 48 turns to go: what was found, unless it returns 0. -/
def transportWalk : Nat → UInt8 → UInt64 → UInt32 → Option UInt32 × List Nat
  | 0, capability, _, found => (if capability = 0 then some found else none, [])
  | left + 1, capability, visited, found =>
    if capability = 0 then (some found, [])
    else if capability < 0x40 ∨ capability > 0xFC then (none, [])
    else if visited &&& slotBit capability ≠ 0 then (none, [])
    else
      let header := read32 s capability.toNat
      if header = 0xFFFFFFFF then (none, [capability.toNat])
      else
        let identifier := header.toUInt8
        let next := (header >>> 8).toUInt8
        if next &&& 3 ≠ 0 then (none, [capability.toNat])
        else
          let length := (header >>> 16).toUInt8
          let type := (header >>> 24).toUInt8
          let region : Bool × List Nat :=
            if identifier = pciCapabilityVendor ∧ type ≥ virtioPciCapCommonCfg ∧
                type ≤ virtioPciCapDeviceCfg then capabilityRegionValid s capability length type
            else (true, [])
          let found :=
            if identifier = pciCapabilityVendor ∧ type ≥ virtioPciCapCommonCfg ∧
                type ≤ virtioPciCapDeviceCfg then found ||| (1 <<< type.toUInt32)
            else found
          if region.1 = false then (none, capability.toNat :: region.2)
          else
            let rest := transportWalk left next (visited ||| slotBit capability) found
            (rest.1, capability.toNat :: (region.2 ++ rest.2))

end Code

/-- The bits of the capabilities that have to be there. -/
def requiredBits : UInt32 := 0xE

def virtioModernTransportValid (device : PciDevice) : Bool × List Nat :=
  if device.vendorId ≠ virtioVendorId ∨ device.deviceId ≠ virtioNetModernDeviceId ∨
      device.classCode ≠ 0x02 then (false, [])
  else
    let s := device.config
    let commandStatus := read32 s 0x04
    if commandStatus = 0xFFFFFFFF ∨ (commandStatus >>> 16) &&& pciStatusCapabilities = 0 then
      (false, [0x04])
    else
      let capability := configRead8 s pciCapabilityPointer
      if capability &&& 3 ≠ 0 then (false, [0x04, 0x34])
      else
        let walked := transportWalk s 48 capability 0 0
        (walked.1.any fun found => found &&& requiredBits = requiredBits,
          [0x04, 0x34] ++ walked.2)

/-! ## What a capability describes -/

section Describes
variable (s : ConfigSpace)

/-- The four bytes at an offset, as one number. -/
def dwordAt (offset : UInt8) : UInt32 :=
  dword (s.registers offset) (s.registers (offset + 1)) (s.registers (offset + 2))
    (s.registers (offset + 3))

def capabilityType (capability : UInt8) : UInt8 := s.registers (capability + 3)

/-- A vendor capability of type common, notify, ISR or device. -/
def IsVirtio (capability : UInt8) : Prop :=
  s.registers capability = pciCapabilityVendor ∧ virtioPciCapCommonCfg ≤
    capabilityType s capability ∧
    capabilityType s capability ≤ virtioPciCapDeviceCfg

/-- The register a capability's region lies in. -/
def barOf (capability : UInt8) : UInt8 := s.registers (capability + 4)

def barRegister (bar : Nat) : UInt32 := dwordAt s (UInt8.ofNat (0x10 + bar * 4))

/-- A 64-bit memory register starts here; one that starts right before has this as its upper
    half. -/
def startsWide : Nat → Bool
  | 0 => barRegister s 0 &&& 7 = 4
  | bar + 1 => barRegister s (bar + 1) &&& 7 = 4 && !startsWide bar

def IsUpperHalf (bar : Nat) : Prop := ∃ lower, bar = lower + 1 ∧ startsWide s lower = true

def capabilityBytes (type : UInt8) : Nat := if type = virtioPciCapNotifyCfg then 20 else 16

def minimumLength (type : UInt8) : Nat :=
  if type = virtioPciCapCommonCfg then 56 else if type = virtioPciCapNotifyCfg then 2 else 1

/-- The capability is inside the space, and its region within bounds in a memory register. -/
structure RegionAt (capability : UInt8) : Prop where
  inside : capability.toNat + capabilityBytes (capabilityType s capability) ≤ 256
  long : capabilityBytes (capabilityType s capability) ≤ (s.registers (capability + 2)).toNat
  minimum : minimumLength (capabilityType s capability) ≤ (dwordAt s (capability + 12)).toNat
  ends : (dwordAt s (capability + 8)).toNat + (dwordAt s (capability + 12)).toNat < 2 ^ 32
  bar_lt : (barOf s capability).toNat < 6
  memory_bar : barRegister s (barOf s capability).toNat &&& 1 = 0
  multiplier : capabilityType s capability = virtioPciCapNotifyCfg →
    dwordAt s (capability + 16) = 0 ∨
      ∃ k, 1 ≤ k ∧ (dwordAt s (capability + 16)).toNat = 2 ^ k

end Describes

/-- No listed capability that matters names an upper half. -/
def NoUpperHalf (s : ConfigSpace) : Prop :=
  ∀ list, ListedFrom s list → ∀ c ∈ list, IsVirtio s c → ¬ IsUpperHalf s (barOf s c).toNat

/-- A transport as it is asked for: a chain of distinct capabilities, with regions that can be
    used, and those that are needed among them. -/
structure TransportSound (s : ConfigSpace) (list : List UInt8) : Prop where
  listed : ListedFrom s list
  nodup : list.Nodup
  regions : ∀ c ∈ list, IsVirtio s c → RegionAt s c ∧ ¬ IsUpperHalf s (barOf s c).toNat
  required : ∀ type ∈ [virtioPciCapCommonCfg, virtioPciCapNotifyCfg, virtioPciCapIsrCfg],
    ∃ c ∈ list, IsVirtio s c ∧ capabilityType s c = type

/-! ## Reads -/

theorem read32_aligned (s : ConfigSpace) {offset : Nat} (h : UInt8.ofNat offset &&& 3 = 0) :
    read32 s offset = dwordAt s (UInt8.ofNat offset) := by
  have hbase : ∀ b : UInt8, b &&& 3 = 0 → b &&& 0xFC = b := forall_byte (by decide)
  unfold read32 pciConfigRead32 readLocation dwordAt
  rw [if_neg (not_not.mpr h), hbase _ h]

/-- The offsets of the words of a capability. -/
theorem capability_words (capability : UInt8) (h : Capability capability) :
    (UInt8.ofNat capability.toNat = capability ∧ capability &&& 3 = 0) ∧
      ∀ k ∈ [4, 8, 12, 16], UInt8.ofNat (capability.toNat + k) = capability + UInt8.ofNat k ∧
        UInt8.ofNat (capability.toNat + k) &&& 3 = 0 := by
  have hall : ∀ c : UInt8, c &&& 3 = 0 → ∀ k ∈ [4, 8, 12, 16],
      UInt8.ofNat (c.toNat + k) = c + UInt8.ofNat k ∧ UInt8.ofNat (c.toNat + k) &&& 3 = 0 :=
    forall_byte (by decide)
  exact ⟨⟨UInt8.ofNat_toNat, h.2.2⟩, hall capability h.2.2⟩

variable {capability : UInt8}

theorem read32_word (s : ConfigSpace) (h : Capability capability) {k : Nat}
    (hk : k ∈ [4, 8, 12, 16]) :
    read32 s (capability.toNat + k) = dwordAt s (capability + UInt8.ofNat k) := by
  obtain ⟨heq, halign⟩ := (capability_words capability h).2 k hk
  rw [read32_aligned s halign, heq]

theorem read32_header (s : ConfigSpace) (h : Capability capability) :
    read32 s capability.toNat = dwordAt s capability := by
  have hat := (capability_words capability h).1
  rw [read32_aligned s (by rw [hat.1]; exact hat.2), hat.1]

/-! ## Regions -/

section Regions
variable {s : ConfigSpace}

theorem validMemoryBar_sound {bar : UInt8} (h : (validMemoryBar s bar).1 = true) :
    bar.toNat < 6 ∧ barRegister s bar.toNat &&& 1 = 0 := by
  have haligned : ∀ b : UInt8, b < 6 → UInt8.ofNat (0x10 + b.toNat * 4) &&& 3 = 0 :=
    forall_byte (by decide)
  unfold validMemoryBar at h
  split at h
  · cases h
  next hlt =>
  rw [ge_iff_le, UInt8.not_le] at hlt
  dsimp only at h
  split at h
  · cases h
  next hmemory =>
  rw [not_or, not_not, read32_aligned s (haligned bar hlt)] at hmemory
  exact ⟨UInt8.lt_iff_toNat_lt.mp hlt, hmemory.2⟩

theorem validMemoryBar_reads (bar : UInt8) : ∀ o ∈ (validMemoryBar s bar).2, o ≤ 0xFF := by
  unfold validMemoryBar
  split
  · simp
  next hlt =>
  rw [ge_iff_le, UInt8.not_le, UInt8.lt_iff_toNat_lt] at hlt
  have hbar : 0x10 + bar.toNat * 4 ≤ 0xFF := by
    rw [show (6 : UInt8).toNat = 6 from rfl] at hlt
    omega
  dsimp only
  split
  · simpa using hbar
  split
  · simpa using hbar
  · simpa using hbar

/-- A multiplier that is even and shares no bit with its predecessor. -/
theorem multiplier_power {m : UInt32} (hne : m ≠ 0) (heven : m &&& 1 = 0)
    (hpower : m &&& (m - 1) = 0) : ∃ k, 1 ≤ k ∧ m.toNat = 2 ^ k := by
  have hpos : m.toNat ≠ 0 := fun hz => hne (UInt32.toNat_inj.mp hz)
  have hpred : (m - 1).toNat = m.toNat - 1 :=
    toNat_sub32 (Nat.one_le_iff_ne_zero.mpr hpos)
  have hand : m.toNat &&& (m.toNat - 1) = 0 := by
    rw [← hpred, ← UInt32.toNat_and, hpower]
    rfl
  obtain ⟨k, hk⟩ := nat_two_pow_of_and_pred hpos hand
  refine ⟨k, Nat.one_le_iff_ne_zero.mpr ?_, hk⟩
  rintro rfl
  rw [Nat.pow_zero] at hk
  rw [show m = 1 from UInt32.toNat_inj.mp hk] at heven
  exact absurd heven (by decide)

/-- What the words of a region are checked for, whatever its type. -/
structure WordsChecked (s : ConfigSpace) (capability : UInt8) : Prop where
  length_ne : dwordAt s (capability + 12) ≠ 0
  ends : (dwordAt s (capability + 8)).toNat + (dwordAt s (capability + 12)).toNat < 2 ^ 32
  bar_lt : (barOf s capability).toNat < 6
  memory_bar : barRegister s (barOf s capability).toNat &&& 1 = 0

/-- What is left to check once the words are: by type, the region's length and what notify has
    beyond the others. -/
def typeChecked (s : ConfigSpace) (capability capabilityLength type : UInt8) : Bool :=
  if type = virtioPciCapCommonCfg then dwordAt s (capability + 12) ≥ virtioCommonMinBytes
  else if type = virtioPciCapNotifyCfg then
    ¬ (capability > 0xEC ∨ capabilityLength < virtioNotifyCapMinBytes ∨
        dwordAt s (capability + 12) < 2) ∧
      dwordAt s (capability + 16) ≠ 0xFFFFFFFF ∧ (dwordAt s (capability + 16) = 0 ∨
        (dwordAt s (capability + 16) &&& 1 = 0 ∧
          dwordAt s (capability + 16) &&& (dwordAt s (capability + 16) - 1) = 0))
  else if type = virtioPciCapIsrCfg then dwordAt s (capability + 12) ≥ 1
  else type = virtioPciCapDeviceCfg

theorem capabilityRegionValid_checked {length type : UInt8}
    (hcap : Capability capability) (h : (capabilityRegionValid s capability length type).1 = true) :
    capability ≤ 0xF0 ∧ virtioCapMinBytes ≤ length ∧ WordsChecked s capability ∧
      typeChecked s capability length type = true := by
  have hbarWord : (dwordAt s (capability + 4)).toUInt8 = barOf s capability :=
    (dword_shiftRight _ _ _ _).1.1
  have hword : ∀ k ∈ [4, 8, 12, 16], read32 s (capability.toNat + k) =
      dwordAt s (capability + UInt8.ofNat k) := fun k hk => read32_word s hcap hk
  unfold capabilityRegionValid at h
  split at h
  · cases h
  next hsize =>
  rw [not_or, gt_iff_lt, UInt8.not_lt, UInt8.not_lt] at hsize
  dsimp only at h
  rw [hword 4 (by simp), hword 8 (by simp), hword 12 (by simp), hword 16 (by simp)] at h
  split at h
  · cases h
  next hwords =>
  simp only [not_or] at hwords
  obtain ⟨_, _, _, hne, hends⟩ := hwords
  split at h
  · cases h
  next hbar =>
  rw [Bool.not_eq_false] at hbar
  obtain ⟨hlt, hmemory⟩ := validMemoryBar_sound hbar
  rw [show capability + UInt8.ofNat 4 = capability + 4 from rfl, hbarWord] at hlt hmemory
  refine ⟨hsize.1, hsize.2, ⟨hne, ?_, hlt, hmemory⟩, ?_⟩
  · have hlt32 := (dwordAt s (capability + 12)).toNat_lt
    rw [gt_iff_lt, UInt32.not_lt, UInt32.le_iff_toNat_le, UInt32.toNat_sub_of_le _ _
      (UInt32.le_iff_toNat_le.mpr (Nat.le_of_lt_succ (dwordAt s (capability + 12)).toNat_lt)),
      show (0xFFFFFFFF : UInt32).toNat = 2 ^ 32 - 1 from rfl] at hends
    have hoffset : (dwordAt s (capability + 8)).toNat ≤
        2 ^ 32 - 1 - (dwordAt s (capability + 12)).toNat := hends
    omega
  · unfold typeChecked
    by_cases hcommon : type = virtioPciCapCommonCfg
    · rw [if_pos hcommon] at h ⊢
      exact h
    rw [if_neg hcommon] at h ⊢
    by_cases hnotify : type = virtioPciCapNotifyCfg
    · rw [if_pos hnotify] at h ⊢
      split at h
      · cases h
      next hroom =>
      exact decide_eq_true ⟨hroom, of_decide_eq_true h⟩
    rw [if_neg hnotify] at h ⊢
    by_cases hisr : type = virtioPciCapIsrCfg
    · rw [if_pos hisr] at h ⊢
      exact h
    rw [if_neg hisr] at h ⊢
    split at h
    · next hdevice => exact decide_eq_true hdevice
    · cases h

theorem capabilityRegionValid_reads (capability length type : UInt8) :
    ∀ o ∈ (capabilityRegionValid s capability length type).2, o ≤ 0xFF := by
  unfold capabilityRegionValid
  split
  · simp
  next hsize =>
  rw [not_or, gt_iff_lt, UInt8.not_lt, UInt8.not_lt, UInt8.le_iff_toNat_le] at hsize
  have hcap : capability.toNat ≤ 0xF0 := hsize.1
  have hwords : ∀ o ∈ [capability.toNat + 4, capability.toNat + 8, capability.toNat + 12],
      o ≤ 0xFF := by
    simp only [List.forall_mem_cons, List.not_mem_nil, false_implies, implies_true, and_true]
    omega
  dsimp only
  split
  · exact hwords
  have hbar := List.forall_mem_append.mpr ⟨hwords,
    validMemoryBar_reads (s := s) (read32 s (capability.toNat + 4)).toUInt8⟩
  split_ifs with _ _ _ hroom
  all_goals first | exact hbar | skip
  refine List.forall_mem_append.mpr ⟨hbar, ?_⟩
  rw [not_or, gt_iff_lt, UInt8.not_lt, UInt8.le_iff_toNat_le] at hroom
  have hnotify : capability.toNat ≤ 0xEC := hroom.1
  rw [List.forall_mem_singleton]
  omega

/-- What the type decides of a region. -/
theorem typeChecked_sound {length type : UInt8} (hlast : capability ≤ 0xF0)
    (hlong : virtioCapMinBytes ≤ length) (hne : dwordAt s (capability + 12) ≠ 0)
    (h : typeChecked s capability length type = true) :
    capability.toNat + capabilityBytes type ≤ 256 ∧ capabilityBytes type ≤ length.toNat ∧
      minimumLength type ≤ (dwordAt s (capability + 12)).toNat ∧
      (type = virtioPciCapNotifyCfg → dwordAt s (capability + 16) = 0 ∨
        ∃ k, 1 ≤ k ∧ (dwordAt s (capability + 16)).toNat = 2 ^ k) := by
  have hlast' : capability.toNat ≤ 0xF0 := UInt8.le_iff_toNat_le.mp hlast
  have hlong' : 16 ≤ length.toNat := UInt8.le_iff_toNat_le.mp hlong
  have hnonempty : 1 ≤ (dwordAt s (capability + 12)).toNat :=
    Nat.one_le_iff_ne_zero.mpr fun hz => hne (UInt32.toNat_inj.mp hz)
  unfold typeChecked at h
  by_cases hcommon : type = virtioPciCapCommonCfg
  · rw [if_pos hcommon, decide_eq_true_iff, ge_iff_le, UInt32.le_iff_toNat_le] at h
    subst hcommon
    exact ⟨Nat.add_le_add_right hlast' 16, hlong', h, fun h => absurd h (by decide)⟩
  rw [if_neg hcommon] at h
  by_cases hnotify : type = virtioPciCapNotifyCfg
  · rw [if_pos hnotify, decide_eq_true_iff] at h
    obtain ⟨hroom, _, hmultiplier⟩ := h
    rw [not_or, not_or, gt_iff_lt, UInt8.not_lt, UInt8.not_lt, UInt32.not_lt,
      UInt8.le_iff_toNat_le, UInt8.le_iff_toNat_le, UInt32.le_iff_toNat_le] at hroom
    obtain ⟨hinside, hbytes, hlength⟩ := hroom
    subst hnotify
    refine ⟨Nat.add_le_add_right hinside 20, hbytes, hlength, fun _ => ?_⟩
    by_cases hzero : dwordAt s (capability + 16) = 0
    · exact Or.inl hzero
    · obtain ⟨heven, hpower⟩ := hmultiplier.resolve_left hzero
      exact Or.inr (multiplier_power hzero heven hpower)
  · have hbytes : capabilityBytes type = 16 := if_neg hnotify
    have hminimum : minimumLength type = 1 := by
      unfold minimumLength
      rw [if_neg hcommon, if_neg hnotify]
    rw [hbytes, hminimum]
    exact ⟨Nat.add_le_add_right hlast' 16, hlong', hnonempty, fun h => absurd h hnotify⟩

/-- A capability that is accepted describes a region as it should, the register's neighbour
    apart. -/
theorem capabilityRegionValid_sound (hcap : Capability capability)
    (h : (capabilityRegionValid s capability (s.registers (capability + 2))
      (capabilityType s capability)).1 = true) : RegionAt s capability := by
  obtain ⟨hlast, hlong, hwords, htype⟩ := capabilityRegionValid_checked hcap h
  obtain ⟨hinside, hbytes, hminimum, hmultiplier⟩ :=
    typeChecked_sound hlast hlong hwords.length_ne htype
  exact ⟨hinside, hbytes, hminimum, hwords.ends, hwords.bar_lt, hwords.memory_bar, hmultiplier⟩

end Regions

/-! ## The walk -/

section Walk
variable {s : ConfigSpace}

/-- What is known of a capability the walk has passed. -/
def Passed (s : ConfigSpace) (capability : UInt8) : Prop :=
  IsVirtio s capability → RegionAt s capability

variable {visited : UInt64}

/-- One turn of the loop that does not return 0. -/
theorem transportWalk_turn {left : Nat} {found result : UInt32} (hne : capability ≠ 0)
    (halign : capability &&& 3 = 0)
    (h : (transportWalk s (left + 1) capability visited found).1 = some result) :
    Capability capability ∧ visited &&& slotBit capability = 0 ∧
      s.registers (capability + 1) &&& 3 = 0 ∧ Passed s capability ∧
      ∃ found', (found' = found ∨ IsVirtio s capability ∧
          found' = found ||| (1 <<< (capabilityType s capability).toUInt32)) ∧
        (transportWalk s left (s.registers (capability + 1)) (visited ||| slotBit capability)
          found').1 = some result := by
  unfold transportWalk at h
  rw [if_neg hne] at h
  split at h
  · cases h
  next hrange =>
  rw [not_or, UInt8.not_lt, gt_iff_lt, UInt8.not_lt] at hrange
  have hcap : Capability capability := ⟨hrange.1, hrange.2, halign⟩
  split at h
  · cases h
  next hnew =>
  rw [not_not] at hnew
  obtain ⟨⟨h0, h1, h2, h3⟩, -⟩ := dword_shiftRight (s.registers capability)
    (s.registers (capability + 1)) (s.registers (capability + 2)) (s.registers (capability + 3))
  dsimp only at h h0 h1 h2 h3
  rw [UInt32.shiftRight_zero] at h0
  rw [read32_header s hcap] at h
  unfold dwordAt at h
  rw [h0, h1, h2, h3] at h
  split at h
  · cases h
  split at h
  · cases h
  next hnext =>
  rw [not_not] at hnext
  by_cases hvirtio : IsVirtio s capability
  · have hcond : s.registers capability = pciCapabilityVendor ∧
        s.registers (capability + 3) ≥ virtioPciCapCommonCfg ∧
        s.registers (capability + 3) ≤ virtioPciCapDeviceCfg := hvirtio
    rw [if_pos hcond, if_pos hcond] at h
    split at h
    · cases h
    next hregion =>
    rw [Bool.not_eq_false] at hregion
    exact ⟨hcap, hnew, hnext, fun _ => capabilityRegionValid_sound hcap hregion, _,
      Or.inr ⟨hvirtio, rfl⟩, h⟩
  · have hcond : ¬ (s.registers capability = pciCapabilityVendor ∧
        s.registers (capability + 3) ≥ virtioPciCapCommonCfg ∧
        s.registers (capability + 3) ≤ virtioPciCapDeviceCfg) := hvirtio
    rw [if_neg hcond, if_neg hcond] at h
    exact ⟨hcap, hnew, hnext, fun hv => absurd hv hvirtio, found, Or.inl rfl, h⟩

/-- What a walk that does not return 0 went over: a chain of distinct capabilities, none of them
    visited before, each as it should be, and among them what was found. -/
structure WentOver (s : ConfigSpace) (capability : UInt8) (visited : UInt64) (found result : UInt32)
    (list : List UInt8) : Prop where
  chain : Chain s capability list
  nodup : list.Nodup
  fresh : ∀ x ∈ list, visited &&& slotBit x = 0
  passed : ∀ x ∈ list, Passed s x
  found_of : ∀ bit, result &&& bit ≠ 0 → found &&& bit ≠ 0 ∨
    ∃ c ∈ list, IsVirtio s c ∧ (1 <<< (capabilityType s c).toUInt32) &&& bit ≠ 0

theorem WentOver.nil (s : ConfigSpace) (visited : UInt64) (found : UInt32) :
    WentOver s 0 visited found found [] :=
  ⟨Chain.done, List.nodup_nil, by simp, by simp, fun _ hbit => Or.inl hbit⟩

theorem or32_and_ne_zero {x y m : UInt32} (h : (x ||| y) &&& m ≠ 0) :
    x &&& m ≠ 0 ∨ y &&& m ≠ 0 := by
  by_contra hboth
  rw [not_or, not_not, not_not] at hboth
  apply h
  apply UInt32.toNat_inj.mp
  rw [UInt32.toNat_and, UInt32.toNat_or, Nat.and_or_distrib_right, ← UInt32.toNat_and,
    ← UInt32.toNat_and, hboth.1, hboth.2]
  rfl

theorem WentOver.cons {found found' result : UInt32}
    {list : List UInt8} (hcap : Capability capability) (hnew : visited &&& slotBit capability = 0)
    (hpassed : Passed s capability) (hfound : found' = found ∨ IsVirtio s capability ∧
      found' = found ||| (1 <<< (capabilityType s capability).toUInt32))
    (h : WentOver s (s.registers (capability + 1)) (visited ||| slotBit capability) found' result
      list) : WentOver s capability visited found result (capability :: list) where
  chain := Chain.link hcap h.chain
  nodup := by
    refine List.nodup_cons.mpr ⟨fun hmem => ?_, h.nodup⟩
    have hbit := h.fresh capability hmem
    rw [UInt64.or_comm] at hbit
    exact or_and_ne_zero visited (slotBit_self capability) hbit
  fresh := by
    refine List.forall_mem_cons.mpr ⟨hnew, fun x hx => ?_⟩
    by_contra hset
    exact or_and_ne_zero (slotBit capability) hset (h.fresh x hx)
  passed := List.forall_mem_cons.mpr ⟨hpassed, h.passed⟩
  found_of := by
    intro bit hbit
    rcases h.found_of bit hbit with hbefore | ⟨c, hc, hwhat⟩
    · rcases hfound with rfl | ⟨hvirtio, rfl⟩
      · exact Or.inl hbefore
      · rcases or32_and_ne_zero hbefore with hold | hthis
        · exact Or.inl hold
        · exact Or.inr ⟨capability, List.mem_cons_self .., hvirtio, hthis⟩
    · exact Or.inr ⟨c, List.mem_cons_of_mem _ hc, hwhat⟩

theorem transportWalk_sound {left : Nat} {found result : UInt32} (halign : capability &&& 3 = 0)
    (h : (transportWalk s left capability visited found).1 = some result) :
    ∃ list, WentOver s capability visited found result list := by
  induction left generalizing capability visited found with
  | zero =>
    unfold transportWalk at h
    dsimp only at h
    split at h
    · next hzero =>
      obtain rfl := Option.some.inj h
      subst hzero
      exact ⟨[], WentOver.nil s visited found⟩
    · cases h
  | succ left ih =>
    by_cases hzero : capability = 0
    · subst hzero
      rw [transportWalk, if_pos rfl] at h
      obtain rfl := Option.some.inj h
      exact ⟨[], WentOver.nil s visited found⟩
    · obtain ⟨hcap, hnew, hnext, hpassed, found', hfound, hrest⟩ :=
        transportWalk_turn hzero halign h
      obtain ⟨list, hover⟩ := ih hnext hrest
      exact ⟨capability :: list, WentOver.cons hcap hnew hpassed hfound hover⟩

theorem transportWalk_reads (left : Nat) (capability : UInt8) (visited : UInt64) (found : UInt32) :
    ∀ o ∈ (transportWalk s left capability visited found).2, o ≤ 0xFF := by
  induction left generalizing capability visited found with
  | zero => simp [transportWalk]
  | succ left ih =>
    have hcap : capability.toNat ≤ 0xFF := Nat.le_of_lt_succ capability.toNat_lt
    have hone : ∀ o ∈ [capability.toNat], o ≤ 0xFF := List.forall_mem_singleton.mpr hcap
    unfold transportWalk
    split
    · simp
    split
    · simp
    split
    · simp
    dsimp only
    split
    · exact hone
    split
    · exact hone
    split_ifs
    · exact List.forall_mem_append.mpr ⟨hone, capabilityRegionValid_reads _ _ _⟩
    · exact List.forall_mem_append.mpr ⟨hone,
        List.forall_mem_append.mpr ⟨capabilityRegionValid_reads _ _ _, ih _ _ _⟩⟩
    · exact hone
    · exact List.forall_mem_append.mpr ⟨hone, ih _ _ _⟩

end Walk

/-! ## Accepted transports -/

theorem chain_unique {s : ConfigSpace} {list list' : List UInt8} (h : Chain s capability list)
    (h' : Chain s capability list') : list = list' := by
  induction h generalizing list' with
  | done =>
    cases h' with
    | done => rfl
    | link hat _ => exact absurd hat.1 (by decide)
  | link hat _ ih =>
    cases h' with
    | done => exact absurd hat.1 (by decide)
    | link _ hnext => rw [ih hnext]

/-- The capability with a bit that has to be there. -/
theorem type_of_bit {type wanted : UInt8} (hlow : virtioPciCapCommonCfg ≤ type)
    (hhigh : type ≤ virtioPciCapDeviceCfg)
    (hwanted : wanted ∈ [virtioPciCapCommonCfg, virtioPciCapNotifyCfg, virtioPciCapIsrCfg])
    (h : (1 <<< type.toUInt32 : UInt32) &&& (1 <<< wanted.toUInt32) ≠ 0) : type = wanted := by
  have hall : ∀ t : UInt8, virtioPciCapCommonCfg ≤ t → t ≤ virtioPciCapDeviceCfg →
      ∀ w ∈ [virtioPciCapCommonCfg, virtioPciCapNotifyCfg, virtioPciCapIsrCfg],
        (1 <<< t.toUInt32 : UInt32) &&& (1 <<< w.toUInt32) ≠ 0 → t = w :=
    forall_byte (by decide +kernel)
  exact hall type hlow hhigh wanted hwanted h

theorem required_bit {found : UInt32} (h : found &&& requiredBits = requiredBits) :
    ∀ wanted ∈ [virtioPciCapCommonCfg, virtioPciCapNotifyCfg, virtioPciCapIsrCfg],
      found &&& (1 <<< wanted.toUInt32) ≠ 0 := by
  intro wanted hwanted hzero
  have hpart : ∀ w ∈ [virtioPciCapCommonCfg, virtioPciCapNotifyCfg, virtioPciCapIsrCfg],
      requiredBits &&& (1 <<< w.toUInt32) ≠ 0 := by decide +kernel
  apply hpart wanted hwanted
  rw [← h, UInt32.and_assoc, UInt32.and_comm requiredBits, ← UInt32.and_assoc, hzero,
    UInt32.zero_and]

/-- What an accepted transport is, the upper halves apart. -/
theorem valid_sound {device : PciDevice} (h : (virtioModernTransportValid device).1 = true) :
    ∃ list, ListedFrom device.config list ∧ list.Nodup ∧
      (∀ c ∈ list, IsVirtio device.config c → RegionAt device.config c) ∧
      ∀ type ∈ [virtioPciCapCommonCfg, virtioPciCapNotifyCfg, virtioPciCapIsrCfg],
        ∃ c ∈ list, IsVirtio device.config c ∧ capabilityType device.config c = type := by
  unfold virtioModernTransportValid at h
  split at h
  · cases h
  dsimp only at h
  split at h
  · cases h
  split at h
  · cases h
  next halign =>
  rw [not_not] at halign
  rw [Option.any_eq_true] at h
  obtain ⟨found, hwalk, hfound⟩ := h
  obtain ⟨list, hover⟩ := transportWalk_sound halign hwalk
  refine ⟨list, ?_, hover.nodup, hover.passed, fun wanted hwanted => ?_⟩
  · have hchain := hover.chain
    rwa [pointer_eq halign] at hchain
  · rcases hover.found_of _ (required_bit (of_decide_eq_true hfound) wanted hwanted) with
      hzero | ⟨c, hc, hvirtio, hbit⟩
    · exact absurd UInt32.zero_and hzero
    · exact ⟨c, hc, hvirtio, type_of_bit hvirtio.2.1 hvirtio.2.2 hwanted hbit⟩

theorem valid_reads (device : PciDevice) :
    ∀ o ∈ (virtioModernTransportValid device).2, o ≤ 0xFF := by
  unfold virtioModernTransportValid
  split
  · simp
  dsimp only
  split
  · simp
  split
  · simp
  · exact List.forall_mem_append.mpr ⟨by simp, transportWalk_reads _ _ _ _⟩

/-! ## A device -/

/-- The bytes of a space with one 64-bit memory register, and the three capabilities that have to
    be there, in the register after it. -/
def wideRegisters : List (UInt8 × UInt8) :=
  [(0x06, 0x10), (0x10, 0x04), (0x34, 0x40),
    (0x40, 0x09), (0x41, 0x50), (0x42, 0x10), (0x43, 0x01), (0x44, 0x01), (0x4C, 0x38),
    (0x50, 0x09), (0x51, 0x64), (0x52, 0x14), (0x53, 0x02), (0x54, 0x01), (0x5C, 0x02),
    (0x64, 0x09), (0x66, 0x10), (0x67, 0x03), (0x68, 0x01), (0x70, 0x01)]

def wideDevice : PciDevice where
  vendorId := virtioVendorId
  deviceId := virtioNetModernDeviceId
  classCode := 0x02
  config :=
    { registers := fun offset => (wideRegisters.lookup offset).getD 0, writable := fun _ => 0 }

/-- The same with a 32-bit register in its place. -/
def narrowDevice : PciDevice :=
  { wideDevice with config := { wideDevice.config with
    registers := Function.update wideDevice.config.registers 0x10 0 } }

/-! ## Soundness -/

/-- A space in which no capability that matters names the upper half of a 64-bit register is
    accepted only if it is sound; any other is unsound if it is accepted. No offset is read beyond
    the space. -/
theorem virtio_transport_sound_iff (device : PciDevice) :
    (NoUpperHalf device.config → (virtioModernTransportValid device).1 = true →
      ∃ list, TransportSound device.config list) ∧
    (¬ NoUpperHalf device.config → (virtioModernTransportValid device).1 = true →
      ¬ ∃ list, TransportSound device.config list) ∧
    ∀ o ∈ (virtioModernTransportValid device).2, o ≤ 0xFF := by
  refine ⟨fun hnone hvalid => ?_, fun hupper _ => ?_, valid_reads device⟩
  · obtain ⟨list, hlisted, hnodup, hregions, hrequired⟩ := valid_sound hvalid
    exact ⟨list, hlisted, hnodup, fun c hc hvirtio => ⟨hregions c hc hvirtio,
      hnone list hlisted c hc hvirtio⟩, hrequired⟩
  · rintro ⟨list, h⟩
    refine hupper fun list' hlisted c hc hvirtio => ?_
    obtain rfl := chain_unique hlisted h.listed
    exact (h.regions c hc hvirtio).2

theorem virtio_transport_sound_narrow :
    (virtioModernTransportValid narrowDevice).1 = true ∧
      ∃ list, TransportSound narrowDevice.config list := by
  have hvalid : (virtioModernTransportValid narrowDevice).1 = true := by decide +kernel
  have hnone : ∀ n < 256, startsWide narrowDevice.config n = false := by decide +kernel
  refine ⟨hvalid, (virtio_transport_sound_iff narrowDevice).1 ?_ hvalid⟩
  rintro list - c - - ⟨lower, heq, hwide⟩
  have hlt := (barOf narrowDevice.config c).toNat_lt
  rw [hnone lower (by omega)] at hwide
  cases hwide

/-- The device is accepted with its regions in register 1, the upper half of register 0. -/
theorem upper_half_accepted :
    (virtioModernTransportValid wideDevice).1 = true ∧ IsVirtio wideDevice.config 0x40 ∧
      ListedFrom wideDevice.config [0x40, 0x50, 0x64] ∧ barOf wideDevice.config 0x40 = 1 ∧
      IsUpperHalf wideDevice.config 1 ∧ ¬ ∃ list, TransportSound wideDevice.config list := by
  have hvalid : (virtioModernTransportValid wideDevice).1 = true := by decide +kernel
  have hvirtio : IsVirtio wideDevice.config 0x40 := by unfold IsVirtio; decide
  have hlisted : ListedFrom wideDevice.config [0x40, 0x50, 0x64] :=
    Chain.link ⟨by decide, by decide, by decide⟩
      (Chain.link ⟨by decide, by decide, by decide⟩
        (Chain.link ⟨by decide, by decide, by decide⟩ Chain.done))
  have hupper : IsUpperHalf wideDevice.config 1 := ⟨0, rfl, by decide⟩
  refine ⟨hvalid, hvirtio, hlisted, rfl, hupper, ?_⟩
  rintro ⟨list, h⟩
  obtain rfl := chain_unique hlisted h.listed
  exact (h.regions 0x40 (by simp) hvirtio).2 hupper

end ArgusOs.Net
