/-
  Quarantine of network devices: `pci_quarantine_device` of `pci.c`.

  A function's configuration space is 256 registers of a byte. A write changes the bits of a
  byte that are writable, and which ones are is the device's business. The capability list in
  it is the device's too: it may be misaligned, run out of the space or come back to itself.

  The walk over that list both reads and, when it disables, writes the space. It keeps to the
  control words of the capabilities it visits, which hold neither a list pointer nor another
  capability's identifier (`messageInterruptState_sound`), so that the second, reading walk sees
  the list the first one saw, and answers for the space as it is left.
-/
import ArgusOs.Lib.Word

namespace ArgusOs.Pci

open Lib Function

variable {capability offset : UInt8} {list : List UInt8}

def pciCommandIoSpace : UInt16 := 1
def pciCommandMemorySpace : UInt16 := 2
def pciCommandBusMaster : UInt16 := 4
def pciCommandInterruptDisable : UInt16 := 0x400
def pciStatusCapabilities : UInt32 := 0x10
def pciCapabilityPointer : UInt8 := 0x34
def pciCapabilityMsi : UInt8 := 0x05
def pciCapabilityMsix : UInt8 := 0x11
def pciMsiEnable : UInt16 := 1
def pciMsixFunctionMask : UInt16 := 0x4000
def pciMsixEnable : UInt16 := 0x8000

/-- The registers of a function, and the bits of each that a write changes. -/
structure ConfigSpace where
  registers : UInt8 → UInt8
  writable : UInt8 → UInt8

variable {s s' : ConfigSpace}

/-! ## Access -/

/-- Four bytes, least significant first. -/
def dword (b0 b1 b2 b3 : UInt8) : UInt32 :=
  b0.toUInt32 ||| (b1.toUInt32 <<< 8) ||| (b2.toUInt32 <<< 16) ||| (b3.toUInt32 <<< 24)

variable (s)

/-- The address register drops the low two bits of the offset. -/
def readLocation (offset : UInt8) : UInt32 :=
  let base := offset &&& 0xFC
  dword (s.registers base) (s.registers (base + 1)) (s.registers (base + 2))
    (s.registers (base + 3))

def pciConfigRead32 (offset : UInt8) : UInt32 :=
  if offset &&& 3 ≠ 0 then 0xFFFFFFFF else readLocation s offset

def configRead8 (offset : UInt8) : UInt8 :=
  let value := pciConfigRead32 s (offset &&& 0xFC)
  if value = 0xFFFFFFFF then 0xFF else (value >>> ((offset &&& 3).toUInt32 * 8)).toUInt8

def configRead16 (offset : UInt8) : UInt16 :=
  if offset &&& 1 ≠ 0 then 0xFFFF
  else
    let value := pciConfigRead32 s (offset &&& 0xFC)
    if value = 0xFFFFFFFF then 0xFFFF else (value >>> ((offset &&& 2).toUInt32 * 8)).toUInt16

/-- A byte after a write: only its writable bits change. -/
def writtenByte (offset value : UInt8) : UInt8 :=
  (s.registers offset &&& ~~~(s.writable offset)) ||| (value &&& s.writable offset)

/-- `cpu_out16` to the data port: two bytes of the function's space. -/
def outWord (offset : UInt8) (value : UInt16) : ConfigSpace :=
  let low := update s.registers offset (writtenByte s offset value.toUInt8)
  { s with
    registers := update low (offset + 1) (writtenByte s (offset + 1) (value >>> 8).toUInt8) }

def configWrite16 (offset : UInt8) (value : UInt16) : ConfigSpace × Bool :=
  if offset &&& 1 ≠ 0 then (s, false)
  else
    let s' := outWord s ((offset &&& 0xFC) + (offset &&& 2)) value
    (s', configRead16 s' offset = value)

/-! ## The capability list -/

/-- One capability: message interrupts are turned off, or found to be off. -/
def capabilityState (capability identifier : UInt8) (disable : Bool) :
    ConfigSpace × Bool :=
  if identifier = pciCapabilityMsi then
    let control := configRead16 s (capability + 2)
    if control = 0xFFFF then (s, false)
    else if disable then configWrite16 s (capability + 2) (control &&& ~~~pciMsiEnable)
    else (s, control &&& pciMsiEnable = 0)
  else if identifier = pciCapabilityMsix then
    let control := configRead16 s (capability + 2)
    if control = 0xFFFF then (s, false)
    else if disable then
      configWrite16 s (capability + 2) ((control &&& ~~~pciMsixEnable) ||| pciMsixFunctionMask)
    else (s, control &&& (pciMsixEnable ||| pciMsixFunctionMask) = pciMsixFunctionMask)
  else (s, true)

variable {s}

/-- The bit of `visited` for a capability. -/
def slotBit (capability : UInt8) : UInt64 := (1 : UInt64) <<< (capability >>> 2).toUInt64

/-- The loop, with `left` of its 48 turns to go. -/
def walk (disable : Bool) : Nat → ConfigSpace → UInt8 → UInt64 → ConfigSpace × Bool
  | 0, s, capability, _ => (s, capability = 0)
  | left + 1, s, capability, visited =>
    if capability = 0 then (s, true)
    else if capability < 0x40 ∨ capability > 0xFC then (s, false)
    else if visited &&& slotBit capability ≠ 0 then (s, false)
    else
      let identifier := configRead8 s capability
      let next := configRead8 s (capability + 1)
      if identifier = 0xFF ∨ next = 0xFF ∨ next &&& 3 ≠ 0 then (s, false)
      else
        let state := capabilityState s capability identifier disable
        if state.2 = false then state
        else walk disable left state.1 next (visited ||| slotBit capability)

variable (s)

def messageInterruptState (disable : Bool) : ConfigSpace × Bool :=
  let commandStatus := pciConfigRead32 s 0x04
  if commandStatus = 0xFFFFFFFF then (s, false)
  else if (commandStatus >>> 16) &&& pciStatusCapabilities = 0 then (s, true)
  else
    let capability := configRead8 s pciCapabilityPointer
    if capability &&& 3 ≠ 0 then (s, false) else walk disable 48 s capability 0

/-! ## Quarantine -/

def pciDeviceCommand : UInt16 :=
  let commandStatus := pciConfigRead32 s 0x04
  if commandStatus = 0xFFFFFFFF then 0xFFFF else commandStatus.toUInt16

def pciDeviceIsQuarantined : Bool :=
  let command := pciDeviceCommand s
  command ≠ 0xFFFF ∧
    command &&& (pciCommandIoSpace ||| pciCommandMemorySpace ||| pciCommandBusMaster) = 0 ∧
    command &&& pciCommandInterruptDisable ≠ 0 ∧ (messageInterruptState s false).2 = true

def pciQuarantineDevice : ConfigSpace × Bool :=
  let command := pciDeviceCommand s
  if command = 0xFFFF then (s, false)
  else
    let command := (command &&&
      ~~~(pciCommandIoSpace ||| pciCommandMemorySpace ||| pciCommandBusMaster)) |||
      pciCommandInterruptDisable
    let state := messageInterruptState (outWord s 0x04 command) true
    if state.2 = false then state else (state.1, pciDeviceIsQuarantined state.1)

/-! ## What the reads say -/

/-- The word at an offset. -/
def wordAt (offset : UInt8) : UInt16 :=
  (s.registers offset).toUInt16 ||| ((s.registers (offset + 1)).toUInt16 <<< 8)

/-- The bytes and the words of a dword. -/
theorem dword_shiftRight (b0 b1 b2 b3 : UInt8) :
    let parts := fun shift : UInt32 => dword b0 b1 b2 b3 >>> shift
    ((parts 0).toUInt8 = b0 ∧ (parts 8).toUInt8 = b1 ∧ (parts 16).toUInt8 = b2 ∧
      (parts 24).toUInt8 = b3) ∧
    (parts 0).toUInt16 = b0.toUInt16 ||| (b1.toUInt16 <<< 8) ∧
    (parts 16).toUInt16 = b2.toUInt16 ||| (b3.toUInt16 <<< 8) := by
  have h0 := b0.toNat_lt
  have h1 := b1.toNat_lt
  have h2 := b2.toNat_lt
  have h3 := b3.toNat_lt
  simp only [← UInt8.toNat_inj, ← UInt16.toNat_inj, UInt32.toNat_toUInt8, UInt32.toNat_toUInt16,
    UInt32.toNat_shiftRight, dword, quad_toNat, Nat.shiftRight_eq_div_pow, pair_toNat,
    show (0 : UInt32).toNat % 32 = 0 from rfl, show (8 : UInt32).toNat % 32 = 8 from rfl,
    show (16 : UInt32).toNat % 32 = 16 from rfl, show (24 : UInt32).toNat % 32 = 24 from rfl]
  omega

/-- The four bytes of a dword, at the offsets with the same upper bits. -/
theorem offset_cases (offset : UInt8) :
    (offset &&& 3 = 0 ∧ offset &&& 0xFC = offset) ∨
    (offset &&& 3 = 1 ∧ (offset &&& 0xFC) + 1 = offset) ∨
    (offset &&& 3 = 2 ∧ (offset &&& 0xFC) + 2 = offset) ∨
    (offset &&& 3 = 3 ∧ (offset &&& 0xFC) + 3 = offset) := by
  revert offset
  exact forall_byte (by decide)

theorem base_and (offset : UInt8) :
    (offset &&& 0xFC) &&& 3 = 0 ∧ (offset &&& 0xFC) &&& 0xFC = offset &&& 0xFC := by
  revert offset
  exact forall_byte (by decide)

theorem even_cases (offset : UInt8) (h : offset &&& 1 = 0) :
    (offset &&& 2 = 0 ∧ offset &&& 0xFC = offset) ∨
    (offset &&& 2 = 2 ∧ (offset &&& 0xFC) + 2 = offset ∧ (offset &&& 0xFC) + 3 = offset + 1) := by
  revert offset
  exact forall_byte (by decide)

theorem pciConfigRead32_base (offset : UInt8) :
    pciConfigRead32 s (offset &&& 0xFC) =
      dword (s.registers (offset &&& 0xFC)) (s.registers ((offset &&& 0xFC) + 1))
        (s.registers ((offset &&& 0xFC) + 2)) (s.registers ((offset &&& 0xFC) + 3)) := by
  obtain ⟨h0, hbase⟩ := base_and offset
  unfold pciConfigRead32 readLocation
  rw [if_neg (not_not.mpr h0), hbase]

variable {s}

/-- A byte that does not read as all ones is the register. -/
theorem configRead8_eq (h : configRead8 s offset ≠ 0xFF) :
    configRead8 s offset = s.registers offset := by
  unfold configRead8 at h ⊢
  dsimp only at h ⊢
  rw [pciConfigRead32_base] at h ⊢
  split
  · next hall =>
    rw [if_pos hall] at h
    exact absurd rfl h
  · obtain ⟨⟨h0, h1, h2, h3⟩, -⟩ := dword_shiftRight (s.registers (offset &&& 0xFC))
      (s.registers ((offset &&& 0xFC) + 1)) (s.registers ((offset &&& 0xFC) + 2))
      (s.registers ((offset &&& 0xFC) + 3))
    rcases offset_cases offset with ⟨hlow, hat⟩ | ⟨hlow, hat⟩ | ⟨hlow, hat⟩ | ⟨hlow, hat⟩
    · rw [hlow]
      exact h0.trans (congrArg s.registers hat)
    · rw [hlow]
      exact h1.trans (congrArg s.registers hat)
    · rw [hlow]
      exact h2.trans (congrArg s.registers hat)
    · rw [hlow]
      exact h3.trans (congrArg s.registers hat)

/-- A word that does not read as all ones is at an even offset, and is the registers'. -/
theorem configRead16_eq (h : configRead16 s offset ≠ 0xFFFF) :
    offset &&& 1 = 0 ∧ configRead16 s offset = wordAt s offset := by
  unfold configRead16 at h ⊢
  by_cases hodd : offset &&& 1 ≠ 0
  · rw [if_pos hodd] at h
    exact absurd rfl h
  rw [if_neg hodd] at h ⊢
  dsimp only at h ⊢
  rw [pciConfigRead32_base] at h ⊢
  refine ⟨not_not.mp hodd, ?_⟩
  split
  · next hall =>
    rw [if_pos hall] at h
    exact absurd rfl h
  · obtain ⟨-, hfirst, hsecond⟩ := dword_shiftRight (s.registers (offset &&& 0xFC))
      (s.registers ((offset &&& 0xFC) + 1)) (s.registers ((offset &&& 0xFC) + 2))
      (s.registers ((offset &&& 0xFC) + 3))
    rcases even_cases offset (not_not.mp hodd) with ⟨hlow, hat⟩ | ⟨hlow, hat, hnext⟩
    · rw [hlow]
      exact hfirst.trans (by rw [hat]; rfl)
    · rw [hlow]
      exact hsecond.trans (by rw [hat, hnext]; rfl)

theorem pciDeviceCommand_eq (s : ConfigSpace) : pciDeviceCommand s = configRead16 s 4 := by
  unfold pciDeviceCommand configRead16
  rw [if_neg (show ¬ ((4 : UInt8) &&& 1 ≠ 0) by decide)]
  show _ = if pciConfigRead32 s 4 = 0xFFFFFFFF then 0xFFFF
    else (pciConfigRead32 s 4 >>> (((4 : UInt8) &&& 2).toUInt32 * 8)).toUInt16
  rw [show ((4 : UInt8) &&& 2).toUInt32 * 8 = 0 from rfl, UInt32.shiftRight_zero]

/-- The device has a capability list: bit 4 of the status register, which starts at offset 6. -/
def HasCapabilities (s : ConfigSpace) : Prop := s.registers 6 &&& 0x10 ≠ 0

theorem statusBit_iff (s : ConfigSpace) :
    (pciConfigRead32 s 4 >>> 16) &&& pciStatusCapabilities = 0 ↔ ¬ HasCapabilities s := by
  have hread : pciConfigRead32 s 4 =
      dword (s.registers 4) (s.registers 5) (s.registers 6) (s.registers 7) := rfl
  have h4 := (s.registers 4).toNat_lt
  have h5 := (s.registers 5).toNat_lt
  have hword : (pciConfigRead32 s 4 >>> 16).toNat =
      (s.registers 6).toNat + 256 * (s.registers 7).toNat := by
    rw [hread, dword, UInt32.toNat_shiftRight, quad_toNat,
      show (16 : UInt32).toNat % 32 = 16 from rfl, Nat.shiftRight_eq_div_pow]
    omega
  unfold HasCapabilities pciStatusCapabilities
  rw [not_not, ← UInt32.toNat_inj, ← UInt8.toNat_inj, UInt32.toNat_and, UInt8.toNat_and, hword]
  show ((s.registers 6).toNat + 256 * (s.registers 7).toNat) &&& 2 ^ 4 = 0 ↔
    (s.registers 6).toNat &&& 2 ^ 4 = 0
  rw [Nat.and_two_pow, Nat.and_two_pow, Nat.testBit_eq_decide_div_mod_eq,
    Nat.testBit_eq_decide_div_mod_eq]
  have hsame : ((s.registers 6).toNat + 256 * (s.registers 7).toNat) / 2 ^ 4 % 2 =
      (s.registers 6).toNat / 2 ^ 4 % 2 := by
    omega
  rw [hsame]

/-! ## Writes -/

/-- Writing a word back is no change, whatever is writable. -/
theorem outWord_self (s : ConfigSpace) (offset : UInt8) :
    outWord s offset (wordAt s offset) = s := by
  have hlow : (wordAt s offset).toUInt8 = s.registers offset := by
    have h := (s.registers offset).toNat_lt
    apply UInt8.toNat_inj.mp
    rw [UInt16.toNat_toUInt8, wordAt, pair_toNat]
    omega
  have hhigh : (wordAt s offset >>> 8).toUInt8 = s.registers (offset + 1) := by
    have h := (s.registers offset).toNat_lt
    have h' := (s.registers (offset + 1)).toNat_lt
    apply UInt8.toNat_inj.mp
    rw [UInt16.toNat_toUInt8, UInt16.toNat_shiftRight, wordAt, pair_toNat,
      show (8 : UInt16).toNat % 16 = 8 from rfl, Nat.shiftRight_eq_div_pow]
    omega
  unfold outWord
  dsimp only
  rw [hlow, hhigh, writtenByte, writtenByte, blend_self, blend_self, update_eq_self,
    update_eq_self]

theorem even_offset (offset : UInt8) (h : offset &&& 1 = 0) :
    (offset &&& 0xFC) + (offset &&& 2) = offset := by
  revert offset
  exact forall_byte (by decide)

theorem configWrite16_self (h : configRead16 s offset ≠ 0xFFFF) :
    configWrite16 s offset (configRead16 s offset) = (s, true) := by
  obtain ⟨heven, hword⟩ := configRead16_eq h
  unfold configWrite16
  rw [if_neg (not_not.mpr heven), even_offset offset heven, hword, outWord_self]
  dsimp only
  rw [hword, decide_eq_true rfl]

/-- What a quarantine does not write: anything but the command word and, beyond the header,
    the upper two bytes of a dword. -/
def Fixed (offset : UInt8) : Prop :=
  offset ≠ 4 ∧ offset ≠ 5 ∧ (offset < 0x40 ∨ offset &&& 3 = 0 ∨ offset &&& 3 = 1)

def Kept (s s' : ConfigSpace) : Prop :=
  ∀ offset, Fixed offset → s'.registers offset = s.registers offset

theorem Kept.refl (s : ConfigSpace) : Kept s s := fun _ _ => rfl

theorem Kept.trans {s₁ s₂ s₃ : ConfigSpace} (h : Kept s₁ s₂) (h' : Kept s₂ s₃) : Kept s₁ s₃ :=
  fun offset hfixed => (h' offset hfixed).trans (h offset hfixed)

theorem outWord_kept (s : ConfigSpace) (offset : UInt8) (value : UInt16) (h : ¬ Fixed offset)
    (h' : ¬ Fixed (offset + 1)) : Kept s (outWord s offset value) := by
  intro o ho
  unfold outWord
  dsimp only
  rw [update_of_ne, update_of_ne]
  · rintro rfl
    exact h ho
  · rintro rfl
    exact h' ho

/-- An offset at which the list may hold a capability. -/
def Capability (offset : UInt8) : Prop := 0x40 ≤ offset ∧ offset ≤ 0xFC ∧ offset &&& 3 = 0

instance (offset : UInt8) : Decidable (Fixed offset) := by
  unfold Fixed
  infer_instance

instance (offset : UInt8) : Decidable (Capability offset) := by
  unfold Capability
  infer_instance

/-- The control word of a capability is not read by the walk: neither as an identifier nor as a
    pointer, of this capability or of another. -/
theorem control_not_fixed (capability : UInt8) (h : Capability capability) :
    ¬ Fixed (capability + 2) ∧ ¬ Fixed (capability + 2 + 1) := by
  revert capability
  exact forall_byte (by decide)

theorem link_fixed (capability : UInt8) (h : Capability capability) :
    Fixed capability ∧ Fixed (capability + 1) := by
  revert capability
  exact forall_byte (by decide)

theorem configWrite16_kept (s : ConfigSpace) (h : Capability capability) (value : UInt16) :
    Kept s (configWrite16 s (capability + 2) value).1 := by
  obtain ⟨h2, h3⟩ := control_not_fixed capability h
  unfold configWrite16
  by_cases hodd : (capability + 2) &&& 1 ≠ 0
  · rw [if_pos hodd]
    exact Kept.refl s
  · rw [if_neg hodd, even_offset _ (not_not.mp hodd)]
    exact outWord_kept s _ value h2 h3

/-! ## One capability -/

/-- The capability raises no message interrupt. -/
structure Silent (s : ConfigSpace) (capability : UInt8) : Prop where
  msi : s.registers capability = pciCapabilityMsi → wordAt s (capability + 2) &&& pciMsiEnable = 0
  msixOff : s.registers capability = pciCapabilityMsix →
    wordAt s (capability + 2) &&& pciMsixEnable = 0
  msixMasked : s.registers capability = pciCapabilityMsix →
    wordAt s (capability + 2) &&& pciMsixFunctionMask = pciMsixFunctionMask

theorem capabilityState_kept (s : ConfigSpace) (h : Capability capability) (identifier : UInt8)
    (disable : Bool) : Kept s (capabilityState s capability identifier disable).1 := by
  unfold capabilityState
  dsimp only
  repeat' split
  all_goals first
    | exact Kept.refl s
    | exact configWrite16_kept s h _

theorem and_of_and_eq {x m : UInt16} (n : UInt16) {y : UInt16} (h : x &&& m = y)
    (hn : m &&& n = n) : x &&& n = y &&& n := by
  rw [← h, UInt16.and_assoc, hn]

/-- The reading mode changes nothing and answers for the capability. -/
theorem capabilityState_read
    (h : capabilityState s capability (s.registers capability) false = (s', true)) :
    s' = s ∧ Silent s capability := by
  unfold capabilityState at h
  by_cases hmsi : s.registers capability = pciCapabilityMsi
  · rw [if_pos hmsi] at h
    dsimp only at h
    by_cases hones : configRead16 s (capability + 2) = 0xFFFF
    · rw [if_pos hones] at h
      cases h
    rw [if_neg hones, if_neg Bool.false_ne_true, (configRead16_eq hones).2] at h
    obtain ⟨rfl, hoff⟩ := Prod.mk.inj h
    refine ⟨rfl, fun _ => of_decide_eq_true hoff, fun hx => ?_, fun hx => ?_⟩
    all_goals exact absurd (hmsi.symm.trans hx) (by decide)
  rw [if_neg hmsi] at h
  by_cases hmsix : s.registers capability = pciCapabilityMsix
  · rw [if_pos hmsix] at h
    dsimp only at h
    by_cases hones : configRead16 s (capability + 2) = 0xFFFF
    · rw [if_pos hones] at h
      cases h
    rw [if_neg hones, if_neg Bool.false_ne_true, (configRead16_eq hones).2] at h
    obtain ⟨rfl, hoff⟩ := Prod.mk.inj h
    have hmask := of_decide_eq_true hoff
    exact ⟨rfl, fun hx => absurd hx hmsi,
      fun _ => and_of_and_eq pciMsixEnable hmask (by decide),
      fun _ => and_of_and_eq pciMsixFunctionMask hmask (by decide)⟩
  · rw [if_neg hmsix] at h
    obtain ⟨rfl, -⟩ := Prod.mk.inj h
    exact ⟨rfl, fun hx => absurd hx hmsi, fun hx => absurd hx hmsix, fun hx => absurd hx hmsix⟩

/-- Disabling what is silent changes nothing, and it succeeds where the reading mode does. -/
theorem capabilityState_silent (h : Silent s capability) :
    (capabilityState s capability (s.registers capability) true).1 = s ∧
    ((capabilityState s capability (s.registers capability) false).2 = true →
      (capabilityState s capability (s.registers capability) true).2 = true) := by
  unfold capabilityState
  by_cases hmsi : s.registers capability = pciCapabilityMsi
  · rw [if_pos hmsi, if_pos hmsi]
    dsimp only
    by_cases hones : configRead16 s (capability + 2) = 0xFFFF
    · rw [if_pos hones, if_pos hones]
      exact ⟨rfl, fun hf => hf⟩
    have hsame : configRead16 s (capability + 2) &&& ~~~pciMsiEnable =
      configRead16 s (capability + 2) := by
      rw [(configRead16_eq hones).2]
      exact and_not_eq_self (h.msi hmsi)
    rw [if_neg hones, if_neg hones, if_pos rfl, hsame, configWrite16_self hones]
    exact ⟨rfl, fun _ => rfl⟩
  rw [if_neg hmsi, if_neg hmsi]
  by_cases hmsix : s.registers capability = pciCapabilityMsix
  · rw [if_pos hmsix, if_pos hmsix]
    dsimp only
    by_cases hones : configRead16 s (capability + 2) = 0xFFFF
    · rw [if_pos hones, if_pos hones]
      exact ⟨rfl, fun hf => hf⟩
    have hsame : (configRead16 s (capability + 2) &&& ~~~pciMsixEnable) ||| pciMsixFunctionMask =
        configRead16 s (capability + 2) := by
      rw [(configRead16_eq hones).2, and_not_eq_self (h.msixOff hmsix)]
      exact or_eq_self (h.msixMasked hmsix)
    rw [if_neg hones, if_neg hones, if_pos rfl, hsame, configWrite16_self hones]
    exact ⟨rfl, fun _ => rfl⟩
  · rw [if_neg hmsix, if_neg hmsix]
    exact ⟨rfl, fun hf => hf⟩

/-! ## The list -/

/-- The capability list from a pointer: dword-aligned offsets beyond the header, up to the
    pointer that is 0. -/
inductive Chain (s : ConfigSpace) : UInt8 → List UInt8 → Prop
  | done : Chain s 0 []
  | link {capability : UInt8} {rest : List UInt8} (at_capability : Capability capability)
      (next : Chain s (s.registers (capability + 1)) rest) : Chain s capability (capability :: rest)

theorem Chain.of_kept (h : Kept s s') (hchain : Chain s' capability list) :
    Chain s capability list := by
  induction hchain with
  | done => exact Chain.done
  | link hat _ ih =>
    refine Chain.link hat ?_
    rwa [h _ (link_fixed _ hat).2] at ih

/-- One turn of the loop, in both modes: it stops where it is, or it goes on from the next
    pointer with what is left of the space. -/
theorem walk_turn (left : Nat) (s : ConfigSpace) (visited : UInt64) (hne : capability ≠ 0)
    (halign : capability &&& 3 = 0) :
    (∀ disable, walk disable (left + 1) s capability visited = (s, false)) ∨
    (Capability capability ∧ visited &&& slotBit capability = 0 ∧
      s.registers (capability + 1) &&& 3 = 0 ∧
      ∀ disable, walk disable (left + 1) s capability visited =
        let state := capabilityState s capability (s.registers capability) disable
        if state.2 = false then state
        else walk disable left state.1 (s.registers (capability + 1))
          (visited ||| slotBit capability)) := by
  by_cases hrange : capability < 0x40 ∨ capability > 0xFC
  · left
    intro disable
    rw [walk, if_neg hne, if_pos hrange]
  by_cases hseen : visited &&& slotBit capability ≠ 0
  · left
    intro disable
    rw [walk, if_neg hne, if_neg hrange, if_pos hseen]
  by_cases hbad : configRead8 s capability = 0xFF ∨ configRead8 s (capability + 1) = 0xFF ∨
      configRead8 s (capability + 1) &&& 3 ≠ 0
  · left
    intro disable
    rw [walk, if_neg hne, if_neg hrange, if_neg hseen]
    exact if_pos hbad
  right
  have hid := configRead8_eq (fun h => hbad (Or.inl h))
  have hnext := configRead8_eq (fun h => hbad (Or.inr (Or.inl h)))
  have hto : s.registers (capability + 1) &&& 3 = 0 := by
    rw [← hnext]
    exact not_not.mp (fun h => hbad (Or.inr (Or.inr h)))
  have hat : Capability capability :=
    ⟨UInt8.not_lt.mp (fun h => hrange (Or.inl h)), UInt8.not_lt.mp (fun h => hrange (Or.inr h)),
      halign⟩
  refine ⟨hat, not_not.mp hseen, hto, ?_⟩
  intro disable
  rw [walk, if_neg hne, if_neg hrange, if_neg hseen, ← hid, ← hnext]
  exact if_neg hbad

theorem slotBit_self (capability : UInt8) : slotBit capability &&& slotBit capability ≠ 0 := by
  revert capability
  exact forall_byte (by decide)

/-- A walk that succeeds has followed a chain of distinct capabilities to its end, and in the
    reading mode each of them was silent. -/
theorem walk_sound (disable : Bool) (left : Nat) {visited : UInt64} (halign : capability &&& 3 = 0)
    (h : walk disable left s capability visited = (s', true)) :
    Kept s s' ∧ (disable = false → s' = s) ∧
    ∃ list, Chain s capability list ∧ list.Nodup ∧ (∀ x ∈ list, visited &&& slotBit x = 0) ∧
      (disable = false → ∀ x ∈ list, Silent s x) := by
  induction left generalizing s capability visited with
  | zero =>
    obtain ⟨rfl, hzero⟩ := Prod.mk.inj h
    obtain rfl := of_decide_eq_true hzero
    exact ⟨Kept.refl s, fun _ => rfl, [], Chain.done, List.nodup_nil, by simp, by simp⟩
  | succ left ih =>
    by_cases hne : capability = 0
    · subst hne
      rw [walk, if_pos rfl] at h
      obtain ⟨rfl, -⟩ := Prod.mk.inj h
      exact ⟨Kept.refl s, fun _ => rfl, [], Chain.done, List.nodup_nil, by simp, by simp⟩
    rcases walk_turn left s visited hne halign with
      hstop | ⟨hat, hnew, hto, hgo⟩
    · rw [hstop] at h
      cases h
    rw [hgo] at h
    dsimp only at h
    have hkept := capabilityState_kept s hat (s.registers capability) disable
    generalize hstate : capabilityState s capability (s.registers capability) disable =
      state at h hkept
    by_cases hok : state.2 = false
    · rw [if_pos hok] at h
      rw [h] at hok
      cases hok
    rw [if_neg hok] at h
    obtain ⟨hkept', hsame, list, hchain, hnodup, hfresh, hsilent⟩ := ih hto h
    refine ⟨hkept.trans hkept', ?_, capability :: list, Chain.link hat (hchain.of_kept hkept), ?_,
      ?_, ?_⟩
    · rintro rfl
      rw [hsame rfl]
      exact (capabilityState_read (hstate.trans (Prod.ext rfl (Bool.not_eq_false _ ▸ hok)))).1
    · refine List.nodup_cons.mpr ⟨fun hmem => ?_, hnodup⟩
      -- the bit of a visited capability stays set, so the chain does not come back to it
      have hbit := hfresh capability hmem
      rw [UInt64.or_comm] at hbit
      exact or_and_ne_zero visited (slotBit_self capability) hbit
    · intro x hx
      rcases List.mem_cons.mp hx with rfl | hx
      · exact hnew
      · by_contra hset
        exact or_and_ne_zero (slotBit capability) hset (hfresh x hx)
    · rintro rfl x hx
      have hread := capabilityState_read (hstate.trans (Prod.ext rfl (Bool.not_eq_false _ ▸ hok)))
      rcases List.mem_cons.mp hx with rfl | hx
      · exact hread.2
      · rw [← hread.1]
        exact hsilent rfl x hx

/-- Over a chain of silent capabilities the disabling walk leaves the space as it is, and it
    succeeds where the reading walk does. -/
theorem walk_silent (left : Nat) {visited : UInt64} (hchain : Chain s capability list)
    (hsilent : ∀ x ∈ list, Silent s x) :
    (walk true left s capability visited).1 = s ∧
    ((walk false left s capability visited).2 = true →
      (walk true left s capability visited).2 = true) := by
  induction left generalizing capability visited list with
  | zero => exact ⟨rfl, fun h => h⟩
  | succ left ih =>
    cases hchain with
    | done =>
      rw [walk, walk, if_pos rfl, if_pos rfl]
      exact ⟨rfl, fun h => h⟩
    | link hat hnext =>
      have hne : capability ≠ 0 := by
        rintro rfl
        exact absurd hat (by decide)
      rcases walk_turn left s visited hne hat.2.2 with
        hstop | ⟨-, -, -, hgo⟩
      · rw [hstop, hstop]
        exact ⟨rfl, fun h => h⟩
      obtain ⟨hsame, hok⟩ := capabilityState_silent (hsilent capability List.mem_cons_self)
      obtain ⟨hrest, hrestOk⟩ := @ih _ _ (visited ||| slotBit capability) hnext
        (fun x hx => hsilent x (List.mem_cons_of_mem _ hx))
      rw [hgo, hgo]
      dsimp only
      refine ⟨?_, fun h => ?_⟩
      · split
        · exact hsame
        · rw [hsame]
          exact hrest
      · by_cases hread : (capabilityState s capability (s.registers capability) false).2 = false
        · rw [if_pos hread, hread] at h
          cases h
        have hreadTrue := Bool.not_eq_false _ ▸ hread
        have hreadSame : (capabilityState s capability (s.registers capability) false).1 = s :=
          (capabilityState_read (Prod.ext rfl hreadTrue)).1
        rw [if_neg hread, hreadSame] at h
        rw [if_neg (by rw [hok hreadTrue]; decide), hsame]
        exact hrestOk h

/-- The list as `message_interrupt_state` finds it. -/
def ListedFrom (s : ConfigSpace) (list : List UInt8) : Prop :=
  Chain s (s.registers pciCapabilityPointer) list

theorem pointer_eq (h : configRead8 s pciCapabilityPointer &&& 3 = 0) :
    configRead8 s pciCapabilityPointer = s.registers pciCapabilityPointer := by
  apply configRead8_eq
  intro hones
  rw [hones] at h
  exact absurd h (by decide)

theorem messageInterruptState_sound (disable : Bool)
    (h : messageInterruptState s disable = (s', true)) :
    Kept s s' ∧ (disable = false → s' = s) ∧
    (HasCapabilities s → ∃ list, ListedFrom s list ∧ list.Nodup ∧
      (disable = false → ∀ x ∈ list, Silent s x)) := by
  unfold messageInterruptState at h
  dsimp only at h
  by_cases hones : pciConfigRead32 s 4 = 0xFFFFFFFF
  · rw [if_pos hones] at h
    cases h
  rw [if_neg hones] at h
  by_cases hbit : (pciConfigRead32 s 4 >>> 16) &&& pciStatusCapabilities = 0
  · rw [if_pos hbit] at h
    obtain ⟨rfl, -⟩ := Prod.mk.inj h
    exact ⟨Kept.refl s, fun _ => rfl, fun hhas => absurd hhas ((statusBit_iff s).mp hbit)⟩
  rw [if_neg hbit] at h
  by_cases halign : configRead8 s pciCapabilityPointer &&& 3 ≠ 0
  · rw [if_pos halign] at h
    cases h
  rw [if_neg halign] at h
  obtain ⟨hkept, hsame, list, hchain, hnodup, -, hsilent⟩ :=
    walk_sound disable 48 (not_not.mp halign) h
  rw [pointer_eq (not_not.mp halign)] at hchain
  exact ⟨hkept, hsame, fun _ => ⟨list, hchain, hnodup, hsilent⟩⟩

theorem messageInterruptState_silent
    (h : HasCapabilities s → ∃ list, ListedFrom s list ∧ ∀ x ∈ list, Silent s x) :
    (messageInterruptState s true).1 = s ∧
    ((messageInterruptState s false).2 = true → (messageInterruptState s true).2 = true) := by
  unfold messageInterruptState
  dsimp only
  by_cases hones : pciConfigRead32 s 4 = 0xFFFFFFFF
  · rw [if_pos hones, if_pos hones]
    exact ⟨rfl, fun hf => hf⟩
  rw [if_neg hones, if_neg hones]
  by_cases hbit : (pciConfigRead32 s 4 >>> 16) &&& pciStatusCapabilities = 0
  · rw [if_pos hbit, if_pos hbit]
    exact ⟨rfl, fun hf => hf⟩
  rw [if_neg hbit, if_neg hbit]
  by_cases halign : configRead8 s pciCapabilityPointer &&& 3 ≠ 0
  · rw [if_pos halign, if_pos halign]
    exact ⟨rfl, fun hf => hf⟩
  rw [if_neg halign, if_neg halign, pointer_eq (not_not.mp halign)]
  obtain ⟨list, hlist, hsilent⟩ := h (not_not.mp (fun hno => hbit ((statusBit_iff s).mpr hno)))
  exact walk_silent 48 hlist hsilent

/-! ## The quarantine -/

/-- A device that neither answers, nor masters the bus, nor interrupts. -/
structure Quarantined (s : ConfigSpace) : Prop where
  io : wordAt s 4 &&& pciCommandIoSpace = 0
  memory : wordAt s 4 &&& pciCommandMemorySpace = 0
  busMaster : wordAt s 4 &&& pciCommandBusMaster = 0
  intx : wordAt s 4 &&& pciCommandInterruptDisable = pciCommandInterruptDisable
  messages : HasCapabilities s →
    ∃ list, ListedFrom s list ∧ list.Nodup ∧ ∀ capability ∈ list, Silent s capability

theorem and_bit_of_ne_zero {x : UInt16} (h : x &&& pciCommandInterruptDisable ≠ 0) :
    x &&& pciCommandInterruptDisable = pciCommandInterruptDisable := by
  apply UInt16.toNat_inj.mp
  have hne : x.toNat &&& 2 ^ 10 ≠ 0 := by
    intro hc
    exact h (UInt16.toNat_inj.mp hc)
  show x.toNat &&& 2 ^ 10 = 2 ^ 10
  rw [Nat.and_two_pow] at hne ⊢
  cases hbit : x.toNat.testBit 10
  · rw [hbit] at hne
    exact absurd rfl hne
  · rfl

theorem pciDeviceIsQuarantined_sound (h : pciDeviceIsQuarantined s = true) :
    Quarantined s ∧ pciDeviceCommand s ≠ 0xFFFF ∧ (messageInterruptState s false).2 = true := by
  obtain ⟨hread, hoff, hintx, hmessages⟩ := of_decide_eq_true h
  have hword : pciDeviceCommand s = wordAt s 4 := by
    rw [pciDeviceCommand_eq] at hread ⊢
    exact (configRead16_eq hread).2
  rw [hword] at hoff hintx
  obtain ⟨-, -, hlist⟩ := messageInterruptState_sound false (Prod.ext rfl hmessages)
  refine ⟨⟨and_of_and_eq _ hoff (by decide), and_of_and_eq _ hoff (by decide),
    and_of_and_eq _ hoff (by decide), and_bit_of_ne_zero hintx, fun hhas => ?_⟩, hread, hmessages⟩
  obtain ⟨list, hchain, hnodup, hsilent⟩ := hlist hhas
  exact ⟨list, hchain, hnodup, hsilent rfl⟩

/-- The command word that is written is the one a quarantined device has. -/
theorem Quarantined.command (h : Quarantined s) (hread : pciDeviceCommand s ≠ 0xFFFF) :
    outWord s 4 ((pciDeviceCommand s &&&
      ~~~(pciCommandIoSpace ||| pciCommandMemorySpace ||| pciCommandBusMaster)) |||
      pciCommandInterruptDisable) = s := by
  have hword : pciDeviceCommand s = wordAt s 4 := by
    rw [pciDeviceCommand_eq] at hread ⊢
    exact (configRead16_eq hread).2
  have hclear : wordAt s 4 &&& (pciCommandIoSpace ||| pciCommandMemorySpace |||
      pciCommandBusMaster) = 0 := by
    exact and_or_eq_zero (and_or_eq_zero h.io h.memory) h.busMaster
  rw [hword, and_not_eq_self hclear, or_eq_self h.intx, outWord_self]

/-- A quarantined device is left as it is, also where the run ends in a refusal. -/
theorem pciQuarantineDevice_quarantined (h : Quarantined s) : (pciQuarantineDevice s).1 = s := by
  unfold pciQuarantineDevice
  dsimp only
  by_cases hread : pciDeviceCommand s = 0xFFFF
  · rw [if_pos hread]
  rw [if_neg hread, h.command hread]
  have hsame := (messageInterruptState_silent (s := s) (fun hhas => by
    obtain ⟨list, hchain, -, hsilent⟩ := h.messages hhas
    exact ⟨list, hchain, hsilent⟩)).1
  split
  · exact hsame
  · exact hsame

theorem pciQuarantineDevice_again (h : pciDeviceIsQuarantined s = true) :
    pciQuarantineDevice s = (s, true) := by
  obtain ⟨hq, hread, hmessages⟩ := pciDeviceIsQuarantined_sound h
  obtain ⟨hsame, hok⟩ := messageInterruptState_silent (s := s) (fun hhas => by
    obtain ⟨list, hchain, -, hsilent⟩ := hq.messages hhas
    exact ⟨list, hchain, hsilent⟩)
  unfold pciQuarantineDevice
  dsimp only
  rw [if_neg hread, hq.command hread, if_neg (by rw [hok hmessages]; decide), hsame, h]

theorem pciQuarantineDevice_checked (h : pciQuarantineDevice s = (s', true)) :
    pciDeviceIsQuarantined s' = true := by
  unfold pciQuarantineDevice at h
  dsimp only at h
  by_cases hread : pciDeviceCommand s = 0xFFFF
  · rw [if_pos hread] at h
    cases h
  rw [if_neg hread] at h
  split at h
  · next hf =>
    rw [h] at hf
    cases hf
  · obtain ⟨rfl, hq⟩ := Prod.mk.inj h
    exact hq

/-- The header fields the walk starts from are not written either. -/
theorem header_fixed : Fixed 6 ∧ Fixed pciCapabilityPointer := by
  decide

theorem HasCapabilities.of_kept (h : Kept s s') (hhas : HasCapabilities s) :
    HasCapabilities s' := by
  unfold HasCapabilities
  rwa [h 6 header_fixed.1]

theorem ListedFrom.of_kept (h : Kept s s') (hlist : ListedFrom s' list) : ListedFrom s list := by
  unfold ListedFrom at hlist ⊢
  rw [h _ header_fixed.2] at hlist
  exact Chain.of_kept h hlist

theorem messageInterruptState_endless (hhas : HasCapabilities s)
    (hnone : ¬ ∃ list, ListedFrom s list) (disable : Bool) :
    (messageInterruptState s disable).2 = false := by
  cases hok : (messageInterruptState s disable).2
  · rfl
  · obtain ⟨-, -, hlist⟩ := messageInterruptState_sound disable (Prod.ext rfl hok)
    obtain ⟨list, hchain, -⟩ := hlist hhas
    exact absurd ⟨list, hchain⟩ hnone

theorem pciQuarantineDevice_endless (hhas : HasCapabilities s)
    (hnone : ¬ ∃ list, ListedFrom s list) : (pciQuarantineDevice s).2 = false := by
  unfold pciQuarantineDevice
  dsimp only
  split
  · rfl
  · have hkept := fun value => outWord_kept s 4 value (by decide) (by decide)
    rw [if_pos]
    all_goals
      refine messageInterruptState_endless (hhas.of_kept (hkept _)) ?_ true
      rintro ⟨list, hlist⟩
      exact hnone ⟨list, hlist.of_kept (hkept _)⟩

/-- What quarantine achieves, on every configuration space and for every choice of writable
    bits. A run that succeeds leaves the device quarantined, and the next run changes nothing; no
    run changes a quarantined device; and a list that is not a finite chain, a cyclic one for
    instance, is refused in both modes of the walk. -/
theorem quarantine_complete (s : ConfigSpace) :
    (∀ s', pciQuarantineDevice s = (s', true) →
      Quarantined s' ∧ pciQuarantineDevice s' = (s', true)) ∧
    (Quarantined s → (pciQuarantineDevice s).1 = s) ∧
    (HasCapabilities s → (¬ ∃ list, ListedFrom s list) →
      (pciQuarantineDevice s).2 = false ∧
      ∀ disable, (messageInterruptState s disable).2 = false) := by
  refine ⟨?_, pciQuarantineDevice_quarantined, ?_⟩
  · intro s' h
    have hchecked := pciQuarantineDevice_checked h
    exact ⟨(pciDeviceIsQuarantined_sound hchecked).1, pciQuarantineDevice_again hchecked⟩
  · intro hhas hnone
    exact ⟨pciQuarantineDevice_endless hhas hnone, messageInterruptState_endless hhas hnone⟩

/-- A device that decodes and masters the bus, with an MSI capability that is enabled at 0x50
    and an MSI-X capability at 0x40; the command bytes and both control words are writable. -/
def sampleSpace : ConfigSpace where
  registers := fun offset =>
    if offset = 0x04 then 7 else if offset = 0x06 then 0x10 else if offset = 0x34 then 0x50
    else if offset = 0x50 then 0x05 else if offset = 0x51 then 0x40 else if offset = 0x52 then 1
    else if offset = 0x40 then 0x11 else if offset = 0x43 then 0x80 else 0
  writable := fun offset =>
    if offset = 4 ∨ offset = 5 ∨ offset = 0x52 ∨ offset = 0x43 then 0xFF else 0

theorem quarantine_complete_sample :
    (pciQuarantineDevice sampleSpace).2 = true ∧ Quarantined (pciQuarantineDevice sampleSpace).1 :=
  have hok : (pciQuarantineDevice sampleSpace).2 = true := by decide +kernel
  ⟨hok, ((quarantine_complete sampleSpace).1 _ (Prod.ext rfl hok)).1⟩

end ArgusOs.Pci
