/-
  Per-process capability tables: `capability.c`.

  A table has sixteen entries and a principal. A handle packs a tag, the entry's
  generation, its type and its slot into one word:

    bits 48..63  tag 0xA6C5
    bits 16..47  generation of the slot
    bits  8..15  type
    bits  0..7   slot + 1

  The type parameters are the 32-bit words of the C enumeration and not an inductive
  type: `syscall_dispatch` casts a user register to it. `capability_resolve`
  returns the object it would store through its out parameter. Tables are passed by
  value, so the null tests on `table` have no counterpart here.
-/
import ArgusOs.Lib.Word
import ArgusOs.Lib.Generation
import ArgusOs.Lib.Slots

namespace ArgusOs.Capability

open Lib Function

/-! ## Types, rights and entries -/

def capabilityNone : UInt32 := 0
def capabilityClock : UInt32 := 1
def capabilityInput : UInt32 := 2
def capabilitySurface : UInt32 := 3
def capabilityIpc : UInt32 := 4
def capabilityAnonymousStream : UInt32 := 5
def capabilityRawNetwork : UInt32 := 6

def capRightRead : UInt16 := (1 : UInt16) <<< 0
def capRightWrite : UInt16 := (1 : UInt16) <<< 1
def capRightWait : UInt16 := (1 : UInt16) <<< 2
def capRightPresent : UInt16 := (1 : UInt16) <<< 3
def capRightSend : UInt16 := (1 : UInt16) <<< 4
def capRightReceive : UInt16 := (1 : UInt16) <<< 5
def capRightConnect : UInt16 := (1 : UInt16) <<< 6

def capabilityHandleTag : UInt64 := 0xA6C5

structure CapabilityEntry where
  object : UInt64
  generation : UInt32
  type : UInt16
  rights : UInt16
  deriving DecidableEq, Repr

def CapabilityEntry.zero : CapabilityEntry := ⟨0, 0, 0, 0⟩

structure CapabilityTable where
  principal : UInt64
  entries : Fin 16 → CapabilityEntry

variable (table : CapabilityTable) (slot : Fin 16) (entry : CapabilityEntry)

/-- Store one entry. -/
def CapabilityTable.setEntry : CapabilityTable :=
  { table with entries := update table.entries slot entry }

@[simp] theorem CapabilityTable.setEntry_same
    (entry : CapabilityEntry) : (table.setEntry slot entry).entries slot = entry :=
  update_self ..

theorem CapabilityTable.setEntry_of_ne {slot slot' : Fin 16}
    (entry : CapabilityEntry) (h : slot' ≠ slot) :
    (table.setEntry slot entry).entries slot' = table.entries slot' :=
  update_of_ne h ..

/-! ## The operations -/

variable (type : UInt32)

def allowedRights : UInt16 :=
  if type = capabilityClock then capRightRead
  else if type = capabilityInput then capRightRead ||| capRightWait
  else if type = capabilitySurface then capRightPresent
  else if type = capabilityIpc then capRightSend ||| capRightReceive
  else if type = capabilityAnonymousStream ∨ type = capabilityRawNetwork then capRightConnect
  else 0

def initialGeneration (principal : UInt64) (slot : UInt32) : UInt32 :=
  let mixed := principal.toUInt32 ^^^ (principal >>> 32).toUInt32 ^^^ 0xA6C50001 ^^^
    ((slot + 1) * 0x9E3779B9)
  if mixed ≠ 0 then mixed else slot + 1

def makeHandle : UInt64 :=
  (capabilityHandleTag <<< 48) ||| (entry.generation.toUInt64 <<< 16) |||
    (entry.type.toUInt64 <<< 8) ||| UInt64.ofNat (slot.val + 1)

def capabilityTableInit (principal : UInt64) : CapabilityTable where
  principal := principal
  entries := fun slot =>
    { CapabilityEntry.zero with
      generation := initialGeneration principal (UInt32.ofNat slot.val) }

variable (rights : UInt16)

def capabilityGrant (object : UInt64) : CapabilityTable × UInt64 :=
  let valid := allowedRights type
  if table.principal = 0 ∨ valid = 0 ∨ rights = 0 ∨ rights &&& ~~~valid ≠ 0 then (table, 0)
  else
    match firstSlot fun slot => (table.entries slot).type = 0 with
    | none => (table, 0)
    | some slot =>
      let entry := { table.entries slot with
        object := object, type := type.toUInt16, rights := rights }
      (table.setEntry slot entry, makeHandle slot entry)

/-- The slot a handle names, when its tag and slot fields are in range. -/
def handleSlot (handle : UInt64) : Option (Fin 16) :=
  if handle = 0 ∨ handle >>> 48 ≠ capabilityHandleTag then none
  else
    let encoded := (handle &&& 0xFF).toNat
    if h : encoded ≠ 0 ∧ encoded ≤ 16 then some ⟨encoded - 1, by omega⟩ else none

def capabilityResolve (handle : UInt64) (type : UInt32)
    (required : UInt16) : Option UInt64 :=
  if table.principal = 0 then none
  else
    match handleSlot handle with
    | none => none
    | some slot =>
      let entry := table.entries slot
      let generation := ((handle >>> 16) &&& 0xFFFFFFFF).toUInt32
      let encodedType := ((handle >>> 8) &&& 0xFF).toUInt16
      if entry.type.toUInt32 ≠ type ∨ encodedType.toUInt32 ≠ type ∨
          entry.generation ≠ generation ∨ entry.rights &&& required ≠ required then none
      else some entry.object

def capabilityFind (required : UInt16) : UInt64 :=
  if table.principal = 0 then 0
  else
    match firstSlot fun slot => (table.entries slot).type.toUInt32 = type ∧
        (table.entries slot).rights &&& required = required with
    | none => 0
    | some slot => makeHandle slot (table.entries slot)

def capabilityRevoke (handle : UInt64) : CapabilityTable × Bool :=
  match handleSlot handle with
  | none => (table, false)
  | some slot =>
    let entry := table.entries slot
    if makeHandle slot entry ≠ handle ∨ entry.type = 0 then (table, false)
    else
      let cleared := { CapabilityEntry.zero with generation := nextGen entry.generation }
      (table.setEntry slot cleared, true)

def capabilityCountType : Nat :=
  slotCount fun slot => (table.entries slot).type.toUInt32 = type

def capabilitySelfTest : Bool :=
  let first := capabilityTableInit 11
  let second := capabilityTableInit 12
  let (first, clock) := capabilityGrant first capabilityClock capRightRead 0x11223344
  if clock = 0 ∨
      capabilityResolve first clock capabilityClock capRightRead ≠ some 0x11223344 ∨
      (capabilityResolve first clock capabilityClock capRightWrite).isSome ∨
      (capabilityResolve first (clock ^^^ ((1 : UInt64) <<< 20)) capabilityClock
        capRightRead).isSome ∨
      (capabilityResolve second clock capabilityClock capRightRead).isSome ∨
      capabilityCountType first capabilityClock ≠ 1 then false
  else
    let (first, revoked) := capabilityRevoke first clock
    if revoked = false ∨
        (capabilityResolve first clock capabilityClock capRightRead).isSome then false
    else
      let (first, replacement) := capabilityGrant first capabilityClock capRightRead 7
      replacement ≠ 0 ∧ replacement ≠ clock ∧
        (capabilityGrant first capabilityRawNetwork capRightRead 0).2 = 0

/-! ## Handles -/

theorem makeHandle_toNat (ht : entry.type.toNat < 256) :
    (makeHandle slot entry).toNat =
      0xA6C5 * 2 ^ 48 + entry.generation.toNat * 2 ^ 16 + entry.type.toNat * 2 ^ 8 +
        (slot.val + 1) := by
  have hg := entry.generation.toNat_lt
  have hs := slot.isLt
  have h1 : (capabilityHandleTag <<< 48).toNat = 0xA6C5 * 2 ^ 48 := by decide
  have h2 : (entry.generation.toUInt64 <<< 16).toNat = entry.generation.toNat * 2 ^ 16 := by
    rw [UInt64.toNat_shiftLeft, UInt32.toNat_toUInt64, Nat.shiftLeft_eq]
    exact Nat.mod_eq_of_lt (by simp; omega)
  have h3 : (entry.type.toUInt64 <<< 8).toNat = entry.type.toNat * 2 ^ 8 := by
    rw [UInt64.toNat_shiftLeft, UInt16.toNat_toUInt64, Nat.shiftLeft_eq]
    exact Nat.mod_eq_of_lt (by simp; omega)
  have h4 : (UInt64.ofNat (slot.val + 1)).toNat = slot.val + 1 := by
    rw [UInt64.toNat_ofNat']
    omega
  have h12 := toNat_or_of_lt (capabilityHandleTag <<< 48) (entry.generation.toUInt64 <<< 16) 48
    (by rw [h1]; decide) (by rw [h2]; omega)
  have h123 := toNat_or_of_lt _ (entry.type.toUInt64 <<< 8) 16
    (by rw [h12, h1, h2]; omega) (by rw [h3]; omega)
  have h1234 := toNat_or_of_lt _ (UInt64.ofNat (slot.val + 1)) 8
    (by rw [h123, h12, h1, h2, h3]; omega) (by rw [h4]; omega)
  unfold makeHandle
  rw [h1234, h123, h12, h1, h2, h3, h4]

theorem handleSlot_eq_some (h : UInt64) (slot : Fin 16) :
    handleSlot h = some slot ↔ h.toNat / 2 ^ 48 = 0xA6C5 ∧ h.toNat % 2 ^ 8 = slot.val + 1 := by
  have htag : h >>> 48 = capabilityHandleTag ↔ h.toNat / 2 ^ 48 = 0xA6C5 := by
    rw [← UInt64.toNat_inj, UInt64.toNat_shiftRight, Nat.shiftRight_eq_div_pow]
    rfl
  have hlow : (h &&& 0xFF).toNat = h.toNat % 2 ^ 8 := toNat_and_low h 0xFF 8 rfl
  have hs := slot.isLt
  unfold handleSlot
  simp only [hlow]
  split
  · next hc =>
    constructor
    · intro hx; cases hx
    · rintro ⟨hd, -⟩
      rcases hc with hc | hc
      · rw [hc] at hd
        exact absurd hd (by decide)
      · exact absurd (htag.mpr hd) hc
  · next hc =>
    rw [not_or, not_not, htag] at hc
    split
    · next hb =>
      simp only [Option.some.injEq, ← Fin.val_inj]
      omega
    · next hb =>
      constructor
      · intro hx; cases hx
      · rintro ⟨-, he⟩
        omega

theorem handleGeneration_toNat (h : UInt64) :
    ((h >>> 16) &&& 0xFFFFFFFF).toUInt32.toNat = h.toNat / 2 ^ 16 % 2 ^ 32 := by
  rw [UInt64.toNat_toUInt32, toNat_and_low _ 0xFFFFFFFF 32 rfl, UInt64.toNat_shiftRight,
    Nat.shiftRight_eq_div_pow, Nat.mod_mod]
  rfl

theorem handleType_toNat (h : UInt64) :
    ((h >>> 8) &&& 0xFF).toUInt16.toUInt32.toNat = h.toNat / 2 ^ 8 % 2 ^ 8 := by
  rw [UInt16.toNat_toUInt32, UInt64.toNat_toUInt16, toNat_and_low _ 0xFF 8 rfl,
    UInt64.toNat_shiftRight, Nat.shiftRight_eq_div_pow]
  show h.toNat / 2 ^ 8 % 2 ^ 8 % 2 ^ 16 = _
  omega

/-- Every stored type fits the type field of a handle. -/
def TypesFit : Prop :=
  ∀ slot, (table.entries slot).type.toNat < 256

/-- Resolution accepts the handle of an entry and no other word. -/
theorem capabilityResolve_eq_some {table : CapabilityTable} (hp : table.principal ≠ 0)
    (hfit : TypesFit table) (handle : UInt64) (type : UInt32) (required : UInt16)
    (object : UInt64) :
    capabilityResolve table handle type required = some object ↔
      ∃ slot, handle = makeHandle slot (table.entries slot) ∧
        (table.entries slot).type.toUInt32 = type ∧
        (table.entries slot).rights &&& required = required ∧
        (table.entries slot).object = object := by
  have hgen := handleGeneration_toNat handle
  have htyp := handleType_toNat handle
  have hlt := handle.toNat_lt
  unfold capabilityResolve
  rw [if_neg hp]
  constructor
  · intro h
    split at h
    · cases h
    · next slot hs =>
      rw [handleSlot_eq_some] at hs
      dsimp only at h
      split at h
      · cases h
      · next hc =>
        rw [not_or, not_or, not_or, not_not, not_not, not_not, not_not] at hc
        obtain ⟨h1, h2, h3, h4⟩ := hc
        refine ⟨slot, ?_, h1, h4, Option.some.inj h⟩
        have hg : (table.entries slot).generation.toNat = handle.toNat / 2 ^ 16 % 2 ^ 32 := by
          rw [h3, hgen]
        have ht : (table.entries slot).type.toNat = handle.toNat / 2 ^ 8 % 2 ^ 8 := by
          rw [← htyp, h2, ← h1, UInt16.toNat_toUInt32]
        rw [← UInt64.toNat_inj, makeHandle_toNat _ _ (hfit slot), hg, ht]
        omega
  · rintro ⟨slot, hh, h1, h4, ho⟩
    have hv := makeHandle_toNat slot _ (hfit slot)
    have hfs := hfit slot
    have hg := (table.entries slot).generation.toNat_lt
    have hsl := slot.isLt
    rw [← hh] at hv
    have hs : handleSlot handle = some slot := by
      rw [handleSlot_eq_some]
      omega
    rw [hs]
    dsimp only
    rw [if_neg]
    · rw [ho]
    · rw [not_or, not_or, not_or, not_not, not_not, not_not, not_not]
      refine ⟨h1, ?_, ?_, h4⟩
      · rw [← h1, ← UInt32.toNat_inj, htyp, UInt16.toNat_toUInt32]
        omega
      · rw [← UInt32.toNat_inj, hgen]
        omega

theorem handleSlot_makeHandle
    (ht : entry.type.toNat < 256) : handleSlot (makeHandle slot entry) = some slot := by
  have hv := makeHandle_toNat slot entry ht
  have hg := entry.generation.toNat_lt
  have hsl := slot.isLt
  rw [handleSlot_eq_some]
  omega

theorem makeHandle_ne_zero (ht : entry.type.toNat < 256) : makeHandle slot entry ≠ 0 := by
  intro h
  have hv := makeHandle_toNat slot entry ht
  rw [h] at hv
  have h0 : (0 : UInt64).toNat = 0 := rfl
  omega

theorem makeHandle_inj {slot slot' : Fin 16} {entry entry' : CapabilityEntry}
    (ht : entry.type.toNat < 256) (ht' : entry'.type.toNat < 256) :
    makeHandle slot entry = makeHandle slot' entry' ↔
      slot = slot' ∧ entry.generation = entry'.generation ∧ entry.type = entry'.type := by
  have hg := entry.generation.toNat_lt
  have hg' := entry'.generation.toNat_lt
  have hs := slot.isLt
  have hs' := slot'.isLt
  rw [← UInt64.toNat_inj, makeHandle_toNat _ _ ht, makeHandle_toNat _ _ ht', ← Fin.val_inj,
    ← UInt32.toNat_inj, ← UInt16.toNat_inj]
  omega

/-! ## What each operation does -/

theorem allowedRights_ne_zero {type : UInt32} (h : allowedRights type ≠ 0) :
    1 ≤ type.toNat ∧ type.toNat ≤ 6 := by
  unfold allowedRights at h
  split at h
  · next e => subst e; decide
  · split at h
    · next e => subst e; decide
    · split at h
      · next e => subst e; decide
      · split at h
        · next e => subst e; decide
        · split at h
          · next e =>
            rcases e with e | e <;> subst e <;> decide
          · exact absurd rfl h

/-- A type small enough for the handle survives the store into the 16-bit field. -/
theorem toUInt16_toNat_of_le {type : UInt32} (h : type.toNat ≤ 6) :
    type.toUInt16.toNat = type.toNat := by
  rw [UInt32.toNat_toUInt16]
  omega

/-- The arguments `capability_grant` accepts. -/
def GrantOk : Prop :=
  allowedRights type ≠ 0 ∧ rights ≠ 0 ∧ rights &&& ~~~(allowedRights type) = 0

/-- The entry a grant writes: the slot keeps its generation. -/
def grantedEntry (object : UInt64) : CapabilityEntry :=
  { table.entries slot with object := object, type := type.toUInt16, rights := rights }

/-- Either the grant is refused and nothing changes, or the first empty slot takes it. -/
theorem capabilityGrant_cases (object : UInt64) :
    (capabilityGrant table type rights object = (table, 0) ∧
      ¬ (table.principal ≠ 0 ∧ GrantOk type rights ∧
        ∃ slot, (table.entries slot).type = 0)) ∨
    (table.principal ≠ 0 ∧ GrantOk type rights ∧
      ∃ slot, firstSlot (fun slot => (table.entries slot).type = 0) = some slot ∧
        (table.entries slot).type = 0 ∧
        capabilityGrant table type rights object =
          (table.setEntry slot (grantedEntry table slot type rights object),
            makeHandle slot (grantedEntry table slot type rights object))) := by
  unfold capabilityGrant
  dsimp only
  split
  · next hbad =>
    refine Or.inl ⟨rfl, ?_⟩
    rintro ⟨h1, ⟨h2, h3, h4⟩, -⟩
    rcases hbad with hb | hb | hb | hb
    · exact h1 hb
    · exact h2 hb
    · exact h3 hb
    · exact hb h4
  · next hok =>
    rw [not_or, not_or, not_or, not_not] at hok
    obtain ⟨h1, h2, h3, h4⟩ := hok
    cases hs : firstSlot fun slot => decide ((table.entries slot).type = 0) with
    | none =>
      refine Or.inl ⟨rfl, ?_⟩
      rintro ⟨-, -, slot, h0⟩
      have := (firstSlot_eq_none _).mp hs slot
      simp [h0] at this
    | some slot =>
      refine Or.inr ⟨h1, ⟨h2, h3, h4⟩, slot, rfl, ?_, rfl⟩
      simpa using firstSlot_true hs

/-- The entry a revocation leaves: empty, one generation on. -/
def revokedEntry : CapabilityEntry :=
  { CapabilityEntry.zero with generation := nextGen entry.generation }

/-- Either the handle is not that of an occupied slot and nothing changes, or its slot is
    emptied. -/
theorem capabilityRevoke_cases {table : CapabilityTable} (hfit : TypesFit table) (handle : UInt64) :
    (capabilityRevoke table handle = (table, false) ∧
      ∀ slot, (table.entries slot).type ≠ 0 → makeHandle slot (table.entries slot) ≠ handle) ∨
    (∃ slot, makeHandle slot (table.entries slot) = handle ∧ (table.entries slot).type ≠ 0 ∧
      capabilityRevoke table handle =
        (table.setEntry slot (revokedEntry (table.entries slot)), true)) := by
  unfold capabilityRevoke
  cases hs : handleSlot handle with
  | none =>
    refine Or.inl ⟨rfl, ?_⟩
    intro slot _ hh
    have := handleSlot_makeHandle slot _ (hfit slot)
    rw [hh, hs] at this
    cases this
  | some slot =>
    dsimp only
    split
    · next hbad =>
      refine Or.inl ⟨rfl, ?_⟩
      intro slot' hne hh
      have hslot := handleSlot_makeHandle slot' _ (hfit slot')
      rw [hh, hs] at hslot
      cases hslot
      rcases hbad with hb | hb
      · exact hb hh
      · exact hne hb
    · next hok =>
      rw [not_or, not_not] at hok
      exact Or.inr ⟨slot, hok.1, hok.2, rfl⟩

theorem capabilityFind_cases (required : UInt16) (hp : table.principal ≠ 0) :
    (capabilityFind table type required = 0 ∧
      ∀ slot, ¬ ((table.entries slot).type.toUInt32 = type ∧
        (table.entries slot).rights &&& required = required)) ∨
    (∃ slot, ((table.entries slot).type.toUInt32 = type ∧
        (table.entries slot).rights &&& required = required) ∧
      capabilityFind table type required = makeHandle slot (table.entries slot)) := by
  unfold capabilityFind
  rw [if_neg hp]
  cases hs : firstSlot fun slot => decide ((table.entries slot).type.toUInt32 = type ∧
      (table.entries slot).rights &&& required = required) with
  | none =>
    refine Or.inl ⟨rfl, ?_⟩
    intro slot hc
    have := (firstSlot_eq_none _).mp hs slot
    simp [hc] at this
  | some slot =>
    refine Or.inr ⟨slot, ?_, rfl⟩
    have := firstSlot_true hs
    simpa using this

end ArgusOs.Capability
