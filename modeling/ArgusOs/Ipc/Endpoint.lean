/-
  The IPC service: `ipc.c`.

  Eight endpoints, each with one receiver, a generation and a ring of eight messages.
  An endpoint handle packs a tag, the generation and the slot:

    bits 48..63  tag 0x4950
    bits  8..39  generation of the slot
    bits  0..7   slot + 1

  A message holds the bytes the source keeps in `data[0 .. length)`; what an earlier
  message left beyond `length` is never read. A buffer to send from is a pointer, so it is
  `none` when null and gives a byte for every index otherwise. `ipc_receive` stores through
  three pointers; the model takes which of them are null and returns what is stored.
-/
import ArgusOs.Lib.Word
import ArgusOs.Lib.Generation
import ArgusOs.Lib.Slots
import ArgusOs.Lib.Ring

namespace ArgusOs.Ipc

open Lib Function

def ipcQueueCapacity : Nat := 8
def ipcMessageMax : UInt32 := 64
def ipcEndpointTag : UInt64 := 0x4950

structure IpcMessage where
  senderPid : UInt64
  data : List UInt8
  deriving DecidableEq, Repr

structure IpcEndpoint where
  receiverPid : UInt64
  generation : UInt32
  head : Fin 8
  tail : Fin 8
  count : Nat
  used : Bool
  messages : Fin 8 → IpcMessage

def IpcEndpoint.zero : IpcEndpoint := ⟨0, 0, 0, 0, 0, false, fun _ => ⟨0, []⟩⟩

abbrev Endpoints := Fin 8 → IpcEndpoint

/-! ## The operations -/

def makeEndpoint (slot : Fin 8) (endpoint : IpcEndpoint) : UInt64 :=
  (ipcEndpointTag <<< 48) ||| (endpoint.generation.toUInt64 <<< 8) ||| UInt64.ofNat (slot.val + 1)

variable (endpoints : Endpoints)

/-- `resolve_endpoint`, as the slot of the endpoint it points to. -/
def resolveEndpoint (handle : UInt64) : Option (Fin 8) :=
  if handle = 0 ∨ handle >>> 48 ≠ ipcEndpointTag then none
  else
    let encoded := (handle &&& 0xFF).toNat
    if h : encoded ≠ 0 ∧ encoded ≤ 8 then
      let slot : Fin 8 := ⟨encoded - 1, by omega⟩
      if (endpoints slot).used = false ∨ makeEndpoint slot (endpoints slot) ≠ handle then none
      else some slot
    else none

def ipcInit : Endpoints := fun slot =>
  { IpcEndpoint.zero with
    generation := 0x49500001 ^^^ ((UInt32.ofNat slot.val + 1) * 0x9E3779B9) }

def ipcEndpointCreate (receiverPid : UInt64) : Endpoints × UInt64 :=
  if receiverPid = 0 then (endpoints, 0)
  else
    match firstSlot fun slot => !(endpoints slot).used with
    | none => (endpoints, 0)
    | some slot =>
      let generation := (endpoints slot).generation
      let endpoint := { IpcEndpoint.zero with
        generation := if generation ≠ 0 then generation else 1
        receiverPid := receiverPid
        used := true }
      (update endpoints slot endpoint, makeEndpoint slot endpoint)

def ipcEndpointDestroy (handle : UInt64) : Endpoints × Bool :=
  match resolveEndpoint endpoints handle with
  | none => (endpoints, false)
  | some slot =>
    let endpoint := { IpcEndpoint.zero with generation := nextGen (endpoints slot).generation }
    (update endpoints slot endpoint, true)

def ipcSend (handle senderPid : UInt64) (data : Option (Nat → UInt8))
    (length : UInt32) : Endpoints × Bool :=
  match resolveEndpoint endpoints handle, data with
  | some slot, some data =>
    let endpoint := endpoints slot
    if senderPid = 0 ∨ length = 0 ∨ length > ipcMessageMax ∨
        endpoint.count = ipcQueueCapacity then (endpoints, false)
    else
      let message := ⟨senderPid, (List.range length.toNat).map data⟩
      let endpoint := { endpoint with
        messages := update endpoint.messages endpoint.head message
        head := endpoint.head + 1
        count := endpoint.count + 1 }
      (update endpoints slot endpoint, true)
  | _, _ => (endpoints, false)

/-- Which of the three pointers of `ipc_receive` are not null. -/
structure ReceiveBuffers where
  data : Bool
  length : Bool
  senderPid : Bool

def ReceiveBuffers.all : ReceiveBuffers := ⟨true, true, true⟩

def ipcReceive (handle receiverPid : UInt64) (buffers : ReceiveBuffers)
    (capacity : UInt32) : Endpoints × Option IpcMessage :=
  match resolveEndpoint endpoints handle with
  | none => (endpoints, none)
  | some slot =>
    let endpoint := endpoints slot
    if endpoint.receiverPid ≠ receiverPid ∨ buffers.data = false ∨ buffers.length = false ∨
        buffers.senderPid = false ∨ endpoint.count = 0 then (endpoints, none)
    else
      let message := endpoint.messages endpoint.tail
      if capacity.toNat < message.data.length then (endpoints, none)
      else
        let endpoint := { endpoint with
          tail := endpoint.tail + 1
          count := endpoint.count - 1 }
        (update endpoints slot endpoint, some message)

def ipcPending (handle receiverPid : UInt64) : Nat :=
  match resolveEndpoint endpoints handle with
  | none => 0
  | some slot =>
    if (endpoints slot).receiverPid = receiverPid then (endpoints slot).count else 0

def ipcSelfTest : Endpoints × Bool :=
  let sent : List UInt8 := [0x41, 0x52, 0x47]
  let source : Option (Nat → UInt8) := some fun i => sent.getD i 0
  let (e, endpoint) := ipcEndpointCreate ipcInit 41
  if endpoint = 0 then (e, false)
  else
    let (e, done) := ipcSend e endpoint 17 source 3
    if done = false ∨ ipcPending e endpoint 41 ≠ 1 then (e, false)
    else
      let (e, wrong) := ipcReceive e endpoint 42 .all 3
      let (e, short) := ipcReceive e endpoint 41 .all 2
      if wrong.isSome ∨ short.isSome ∨ ipcPending e endpoint 41 ≠ 1 then (e, false)
      else
        let (e, received) := ipcReceive e endpoint 41 .all 3
        if received ≠ some ⟨17, sent⟩ ∨ ipcPending e endpoint 41 ≠ 0 then (e, false)
        else
          let (e, destroyed) := ipcEndpointDestroy e endpoint
          if destroyed = false ∨ (ipcSend e endpoint 17 source 3).2 then (e, false)
          else (ipcInit, true)

theorem ipcSelfTest_eq : ipcSelfTest = (ipcInit, true) := by rfl

/-! ## Handles -/

theorem makeEndpoint_toNat (slot : Fin 8) (endpoint : IpcEndpoint) :
    (makeEndpoint slot endpoint).toNat =
      0x4950 * 2 ^ 48 + endpoint.generation.toNat * 2 ^ 8 + (slot.val + 1) := by
  have hg := endpoint.generation.toNat_lt
  have hs := slot.isLt
  have h1 : (ipcEndpointTag <<< 48).toNat = 0x4950 * 2 ^ 48 := by decide
  have h2 : (endpoint.generation.toUInt64 <<< 8).toNat = endpoint.generation.toNat * 2 ^ 8 := by
    rw [UInt64.toNat_shiftLeft, UInt32.toNat_toUInt64, Nat.shiftLeft_eq]
    exact Nat.mod_eq_of_lt (by simp; omega)
  have h3 : (UInt64.ofNat (slot.val + 1)).toNat = slot.val + 1 := by
    rw [UInt64.toNat_ofNat']
    omega
  have h12 := toNat_or_of_lt (ipcEndpointTag <<< 48) (endpoint.generation.toUInt64 <<< 8) 48
    (by rw [h1]; decide) (by rw [h2]; omega)
  have h123 := toNat_or_of_lt _ (UInt64.ofNat (slot.val + 1)) 8
    (by rw [h12, h1, h2]; omega) (by rw [h3]; omega)
  unfold makeEndpoint
  rw [h123, h12, h1, h2, h3]

theorem makeEndpoint_ne_zero (slot : Fin 8) (endpoint : IpcEndpoint) :
    makeEndpoint slot endpoint ≠ 0 := by
  intro h
  have hv := makeEndpoint_toNat slot endpoint
  rw [h] at hv
  have h0 : (0 : UInt64).toNat = 0 := rfl
  omega

theorem makeEndpoint_inj {slot slot' : Fin 8} {endpoint endpoint' : IpcEndpoint} :
    makeEndpoint slot endpoint = makeEndpoint slot' endpoint' ↔
      slot = slot' ∧ endpoint.generation = endpoint'.generation := by
  have hg := endpoint.generation.toNat_lt
  have hg' := endpoint'.generation.toNat_lt
  have hs := slot.isLt
  have hs' := slot'.isLt
  rw [← UInt64.toNat_inj, makeEndpoint_toNat, makeEndpoint_toNat, ← Fin.val_inj,
    ← UInt32.toNat_inj]
  omega

/-- A handle resolves to the used slot whose handle it is, and no other word resolves. -/
theorem resolveEndpoint_eq_some (handle : UInt64) (slot : Fin 8) :
    resolveEndpoint endpoints handle = some slot ↔
      (endpoints slot).used = true ∧ makeEndpoint slot (endpoints slot) = handle := by
  have hlow : (handle &&& 0xFF).toNat = handle.toNat % 2 ^ 8 := toNat_and_low handle 0xFF 8 rfl
  have htag : handle >>> 48 = ipcEndpointTag ↔ handle.toNat / 2 ^ 48 = 0x4950 := by
    rw [← UInt64.toNat_inj, UInt64.toNat_shiftRight, Nat.shiftRight_eq_div_pow]
    rfl
  have hg := (endpoints slot).generation.toNat_lt
  have hs := slot.isLt
  have hv := makeEndpoint_toNat slot (endpoints slot)
  unfold resolveEndpoint
  simp only [hlow]
  constructor
  · intro h
    split at h
    · cases h
    · split at h
      · split at h
        · cases h
        · next hok =>
          rw [not_or, not_not, Bool.not_eq_false, Option.some.injEq] at *
          rw [← h]
          exact hok
      · cases h
  · intro h
    obtain ⟨hu, hh⟩ := h
    have hslot : handle.toNat % 2 ^ 8 = slot.val + 1 ∧ handle.toNat / 2 ^ 48 = 0x4950 := by
      rw [← hh]
      omega
    have hz : handle ≠ 0 := by
      rw [← hh]
      exact makeEndpoint_ne_zero slot _
    have hfin : (⟨handle.toNat % 2 ^ 8 - 1, by omega⟩ : Fin 8) = slot := by
      apply Fin.val_injective
      show handle.toNat % 2 ^ 8 - 1 = slot.val
      omega
    rw [if_neg (by rw [not_or, not_not]; exact ⟨hz, htag.mpr hslot.2⟩), dif_pos (by omega), hfin,
      if_neg]
    rw [not_or, not_not, Bool.not_eq_false]
    exact ⟨hu, hh⟩

/-! ## What each operation does -/

/-- The endpoint `ipc_endpoint_create` writes. -/
def createdEndpoint (endpoint : IpcEndpoint) (receiverPid : UInt64) : IpcEndpoint :=
  { IpcEndpoint.zero with
    generation := if endpoint.generation ≠ 0 then endpoint.generation else 1
    receiverPid := receiverPid
    used := true }

theorem ipcEndpointCreate_cases (receiverPid : UInt64) :
    (ipcEndpointCreate endpoints receiverPid = (endpoints, 0) ∧
      (receiverPid = 0 ∨ ∀ slot, (endpoints slot).used = true)) ∨
    (receiverPid ≠ 0 ∧ ∃ slot, firstSlot (fun slot => !(endpoints slot).used) = some slot ∧
      (endpoints slot).used = false ∧
      ipcEndpointCreate endpoints receiverPid =
        (update endpoints slot (createdEndpoint (endpoints slot) receiverPid),
          makeEndpoint slot (createdEndpoint (endpoints slot) receiverPid))) := by
  unfold ipcEndpointCreate
  split
  · next h0 => exact Or.inl ⟨rfl, Or.inl h0⟩
  · next h0 =>
    cases hs : firstSlot fun slot => !(endpoints slot).used with
    | none =>
      refine Or.inl ⟨rfl, Or.inr ?_⟩
      intro slot
      simpa using (firstSlot_eq_none _).mp hs slot
    | some slot =>
      refine Or.inr ⟨h0, slot, rfl, ?_, rfl⟩
      simpa using firstSlot_true hs

theorem ipcEndpointDestroy_cases (handle : UInt64) :
    (ipcEndpointDestroy endpoints handle = (endpoints, false) ∧
      resolveEndpoint endpoints handle = none) ∨
    (∃ slot, resolveEndpoint endpoints handle = some slot ∧
      ipcEndpointDestroy endpoints handle =
        (update endpoints slot
          { IpcEndpoint.zero with generation := nextGen (endpoints slot).generation }, true)) := by
  unfold ipcEndpointDestroy
  cases hs : resolveEndpoint endpoints handle with
  | none => exact Or.inl ⟨rfl, rfl⟩
  | some slot => exact Or.inr ⟨slot, rfl, rfl⟩

/-- The endpoint after one message has been stored at its write position. -/
def pushMessage (endpoint : IpcEndpoint) (message : IpcMessage) : IpcEndpoint :=
  { endpoint with
    messages := update endpoint.messages endpoint.head message
    head := endpoint.head + 1
    count := endpoint.count + 1 }

/-- The endpoint after its oldest message has been taken. -/
def popMessage (endpoint : IpcEndpoint) : IpcEndpoint :=
  { endpoint with tail := endpoint.tail + 1, count := endpoint.count - 1 }

/-- The message a send stores. -/
def sentMessage (senderPid : UInt64) (data : Nat → UInt8) (length : UInt32) : IpcMessage :=
  ⟨senderPid, (List.range length.toNat).map data⟩

theorem ipcSend_cases (handle senderPid : UInt64) (data : Option (Nat → UInt8)) (length : UInt32) :
    (ipcSend endpoints handle senderPid data length = (endpoints, false) ∧
      ¬ (∃ slot, resolveEndpoint endpoints handle = some slot ∧ senderPid ≠ 0 ∧
        data.isSome = true ∧ length ≠ 0 ∧ length ≤ ipcMessageMax ∧
        (endpoints slot).count ≠ ipcQueueCapacity)) ∨
    (∃ slot bytes, resolveEndpoint endpoints handle = some slot ∧ data = some bytes ∧
      senderPid ≠ 0 ∧ length ≠ 0 ∧ length ≤ ipcMessageMax ∧
      (endpoints slot).count ≠ ipcQueueCapacity ∧
      ipcSend endpoints handle senderPid data length =
        (update endpoints slot
          (pushMessage (endpoints slot) (sentMessage senderPid bytes length)), true)) := by
  unfold ipcSend
  cases hs : resolveEndpoint endpoints handle with
  | none =>
    refine Or.inl ⟨rfl, ?_⟩
    intro h
    obtain ⟨slot, h, -⟩ := h
    cases h
  | some slot =>
    cases data with
    | none =>
      refine Or.inl ⟨rfl, ?_⟩
      intro h
      obtain ⟨slot, -, -, h, -⟩ := h
      cases h
    | some bytes =>
      dsimp only
      split
      · next hbad =>
        refine Or.inl ⟨rfl, ?_⟩
        intro h
        obtain ⟨slot', hslot, h1, -, h2, h3, h4⟩ := h
        cases hslot
        rcases hbad with hb | hb | hb | hb
        · exact h1 hb
        · exact h2 hb
        · exact absurd h3 (UInt32.not_le.mpr hb)
        · exact h4 hb
      · next hok =>
        rw [not_or, not_or, not_or] at hok
        exact Or.inr ⟨slot, bytes, rfl, rfl, hok.1, hok.2.1, UInt32.not_lt.mp hok.2.2.1,
          hok.2.2.2, rfl⟩

theorem ipcReceive_cases (handle receiverPid : UInt64)
    (buffers : ReceiveBuffers) (capacity : UInt32) :
    (ipcReceive endpoints handle receiverPid buffers capacity = (endpoints, none) ∧
      ¬ (∃ slot, resolveEndpoint endpoints handle = some slot ∧
        (endpoints slot).receiverPid = receiverPid ∧ buffers = .all ∧ (endpoints slot).count ≠ 0 ∧
        ((endpoints slot).messages (endpoints slot).tail).data.length ≤ capacity.toNat)) ∨
    (∃ slot, resolveEndpoint endpoints handle = some slot ∧
      (endpoints slot).receiverPid = receiverPid ∧ buffers = .all ∧ (endpoints slot).count ≠ 0 ∧
      ((endpoints slot).messages (endpoints slot).tail).data.length ≤ capacity.toNat ∧
      ipcReceive endpoints handle receiverPid buffers capacity =
        (update endpoints slot (popMessage (endpoints slot)),
          some ((endpoints slot).messages (endpoints slot).tail))) := by
  unfold ipcReceive
  cases hs : resolveEndpoint endpoints handle with
  | none =>
    refine Or.inl ⟨rfl, ?_⟩
    intro h
    obtain ⟨slot, h, -⟩ := h
    cases h
  | some slot =>
    dsimp only
    split
    · next hbad =>
      refine Or.inl ⟨rfl, ?_⟩
      intro h
      obtain ⟨slot', hslot, h1, h2, h3, -⟩ := h
      cases hslot
      subst h2
      rcases hbad with hb | hb | hb | hb | hb
      · exact hb h1
      · cases hb
      · cases hb
      · cases hb
      · exact h3 hb
    · next hok =>
      rw [not_or, not_or, not_or, not_or, not_not, Bool.not_eq_false, Bool.not_eq_false,
        Bool.not_eq_false] at hok
      obtain ⟨h1, h2, h3, h4, h5⟩ := hok
      have hall : buffers = .all := by
        cases buffers
        simp only at h2 h3 h4
        rw [h2, h3, h4]
        rfl
      split
      · next hshort =>
        refine Or.inl ⟨rfl, ?_⟩
        intro h
        obtain ⟨slot', hslot, -, -, -, hfit⟩ := h
        cases hslot
        omega
      · next hfit =>
        exact Or.inr ⟨slot, rfl, h1, hall, h5, by omega, rfl⟩

/-! ## Frames: what an operation leaves alone -/

theorem ipcEndpointCreate_used {endpoints : Endpoints} {receiverPid : UInt64} {slot : Fin 8}
    (hu : (endpoints slot).used = true) :
    (ipcEndpointCreate endpoints receiverPid).1 slot = endpoints slot := by
  rcases ipcEndpointCreate_cases endpoints receiverPid with ⟨h, -⟩ | ⟨-, slot', -, hf, h⟩
  · rw [h]
  · have hne : slot ≠ slot' := by
      intro he
      rw [he, hf] at hu
      cases hu
    rw [h]
    exact update_of_ne hne ..

/-- An operation that goes through a handle changes at most the slot the handle names. -/
theorem ipc_other_slot {endpoints : Endpoints} {handle : UInt64} {slot : Fin 8}
    (hne : resolveEndpoint endpoints handle ≠ some slot) :
    (ipcEndpointDestroy endpoints handle).1 slot = endpoints slot ∧
    (∀ senderPid data length,
      (ipcSend endpoints handle senderPid data length).1 slot = endpoints slot) ∧
    (∀ receiverPid buffers capacity,
      (ipcReceive endpoints handle receiverPid buffers capacity).1 slot = endpoints slot) := by
  have key : ∀ slot' e, resolveEndpoint endpoints handle = some slot' →
      update endpoints slot' e slot = endpoints slot := by
    intro slot' e h
    apply update_of_ne
    intro he
    rw [he] at hne
    exact hne h
  refine ⟨?_, ?_, ?_⟩
  · rcases ipcEndpointDestroy_cases endpoints handle with ⟨h, -⟩ | ⟨slot', hs, h⟩
    · rw [h]
    · rw [h]
      exact key slot' _ hs
  · intro senderPid data length
    rcases ipcSend_cases endpoints handle senderPid data length with
      ⟨h, -⟩ | ⟨slot', bytes, hs, -, -, -, -, -, h⟩
    · rw [h]
    · rw [h]
      exact key slot' _ hs
  · intro receiverPid buffers capacity
    rcases ipcReceive_cases endpoints handle receiverPid buffers capacity with
      ⟨h, -⟩ | ⟨slot', hs, -, -, -, -, h⟩
    · rw [h]
    · rw [h]
      exact key slot' _ hs

end ArgusOs.Ipc
