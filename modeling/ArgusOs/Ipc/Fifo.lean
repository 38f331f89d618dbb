/-
  What the IPC service is for: one bounded FIFO per endpoint lifetime.

  `Fifos` keeps, for every slot, the lifetime it is in: the handle `ipc_endpoint_create`
  returned, the receiver it was created for, and the messages sent to and received from it
  so far. It is driven by the calls and by what they return (`fifoStep`) and knows nothing
  of rings, counts or generations. Lifetimes that ended are kept in `past`.

  `FifoRefines` ties the endpoint table to it: what has been sent is what has been received
  followed by what the ring holds. Every call keeps it (`fifoStep_refines`), and
  `ipc_refines_fifo` reads the guarantees of the service off it.
-/
import ArgusOs.Ipc.Endpoint

namespace ArgusOs.Ipc

open Lib Function

variable {slot : Fin 8}

/-! ## Runs -/

inductive IpcOp where
  | create (receiverPid : UInt64)
  | destroy (handle : UInt64)
  | send (handle senderPid : UInt64) (data : Option (Nat → UInt8)) (length : UInt32)
  | receive (handle receiverPid : UInt64) (buffers : ReceiveBuffers) (capacity : UInt32)
  | pending (handle receiverPid : UInt64)

def ipcStep (endpoints : Endpoints) : IpcOp → Endpoints
  | .create receiverPid => (ipcEndpointCreate endpoints receiverPid).1
  | .destroy handle => (ipcEndpointDestroy endpoints handle).1
  | .send handle senderPid data length => (ipcSend endpoints handle senderPid data length).1
  | .receive handle receiverPid buffers capacity =>
    (ipcReceive endpoints handle receiverPid buffers capacity).1
  | .pending _ _ => endpoints

def ipcRun (ops : List IpcOp) : Endpoints := ops.foldl ipcStep ipcInit

/-- The handle an operation goes through; `create` goes through none. -/
def IpcOp.handle : IpcOp → Option UInt64
  | .create _ => none
  | .destroy handle => some handle
  | .send handle _ _ _ => some handle
  | .receive handle _ _ _ => some handle
  | .pending handle _ => some handle

/-! ## Lifetimes -/

structure Lifetime where
  handle : UInt64
  owner : UInt64
  sent : List IpcMessage
  received : List IpcMessage
  deriving DecidableEq

structure Fifos where
  live : Fin 8 → Option Lifetime
  past : List Lifetime
  destroyed : Fin 8 → Nat

variable {l : Lifetime} {s : Endpoints × Fifos}

def Fifos.empty : Fifos := ⟨fun _ => none, [], fun _ => 0⟩

/-- The slot whose lifetime has this handle. -/
def Fifos.slotOf (f : Fifos) (handle : UInt64) : Option (Fin 8) :=
  firstSlot fun slot => (f.live slot).map Lifetime.handle = some handle

def Fifos.create (f : Fifos) (handle owner : UInt64) : Fifos :=
  match firstSlot fun slot => (f.live slot).isNone with
  | none => f
  | some slot => { f with live := update f.live slot (some ⟨handle, owner, [], []⟩) }

/-- Replace the lifetime with this handle. -/
def Fifos.amend (f : Fifos) (handle : UInt64) (g : Lifetime → Lifetime) : Fifos :=
  match f.slotOf handle with
  | none => f
  | some slot => { f with live := update f.live slot ((f.live slot).map g) }

def Fifos.destroy (f : Fifos) (handle : UInt64) : Fifos :=
  match f.slotOf handle with
  | none => f
  | some slot =>
    { live := update f.live slot none
      past := (f.live slot).toList ++ f.past
      destroyed := update f.destroyed slot (f.destroyed slot + 1) }

def Lifetime.send (l : Lifetime) (message : IpcMessage) : Lifetime :=
  { l with sent := l.sent ++ [message] }

def Lifetime.receive (l : Lifetime) (message : IpcMessage) : Lifetime :=
  { l with received := l.received ++ [message] }

/-- One call on the endpoint table, and what its answer does to the FIFOs. -/
def fifoStep (s : Endpoints × Fifos) (op : IpcOp) : Endpoints × Fifos :=
  (ipcStep s.1 op,
    match op with
    | .create receiverPid =>
      let handle := (ipcEndpointCreate s.1 receiverPid).2
      if handle = 0 then s.2 else s.2.create handle receiverPid
    | .destroy handle => if (ipcEndpointDestroy s.1 handle).2 then s.2.destroy handle else s.2
    | .send handle senderPid data length =>
      match (ipcSend s.1 handle senderPid data length).2, data with
      | true, some bytes =>
        s.2.amend handle fun l => l.send (sentMessage senderPid bytes length)
      | _, _ => s.2
    | .receive handle receiverPid buffers capacity =>
      match (ipcReceive s.1 handle receiverPid buffers capacity).2 with
      | some message => s.2.amend handle fun l => l.receive message
      | none => s.2
    | .pending _ _ => s.2)

def fifoRun (ops : List IpcOp) : Endpoints × Fifos := ops.foldl fifoStep (ipcInit, Fifos.empty)

theorem foldl_fifoStep_fst (s : Endpoints × Fifos) (ops : List IpcOp) :
    (ops.foldl fifoStep s).1 = ops.foldl ipcStep s.1 := by
  induction ops generalizing s with
  | nil => rfl
  | cons op ops ih =>
    rw [List.foldl_cons, ih]
    rfl

/-- The FIFOs ride along: the endpoint component is the plain run. -/
theorem fifoRun_fst (ops : List IpcOp) : (fifoRun ops).1 = ipcRun ops :=
  foldl_fifoStep_fst _ ops

/-! ## Refinement -/

/-- The generation `ipc_init` gives a slot. -/
def ipcStart (slot : Fin 8) : UInt32 := (ipcInit slot).generation

theorem ipcStart_ne_zero (slot : Fin 8) : ipcStart slot ≠ 0 := by
  revert slot
  decide +kernel

/-- An endpoint in a lifetime: the ring holds what was sent and not yet received. -/
structure InLifetime (slot : Fin 8) (endpoint : IpcEndpoint) (l : Lifetime) : Prop where
  used : endpoint.used = true
  handle : l.handle = makeEndpoint slot endpoint
  owner : endpoint.receiverPid = l.owner
  count_le : endpoint.count ≤ 8
  head : endpoint.head = ringIndex endpoint.tail endpoint.count
  sent : l.sent = l.received ++ ringContents endpoint.messages endpoint.tail endpoint.count

structure FifoRefines (endpoints : Endpoints) (f : Fifos) : Prop where
  generation : ∀ slot, (endpoints slot).generation = genAfter (ipcStart slot) (f.destroyed slot)
  free : ∀ slot, f.live slot = none → (endpoints slot).used = false
  live : ∀ slot l, f.live slot = some l → InLifetime slot (endpoints slot) l
  past : ∀ l ∈ f.past, l.received <+: l.sent

section Refines

variable {endpoints : Endpoints} {f : Fifos}

variable (h : FifoRefines endpoints f)

include h

theorem FifoRefines.live_of_used (hu : (endpoints slot).used = true) :
    ∃ l, f.live slot = some l := by
  cases hl : f.live slot with
  | none =>
    rw [h.free slot hl] at hu
    cases hu
  | some l => exact ⟨l, rfl⟩

theorem FifoRefines.live_isNone (slot : Fin 8) : (f.live slot).isNone = !(endpoints slot).used := by
  cases hl : f.live slot with
  | none => simp [h.free slot hl]
  | some l => simp [(h.live slot l hl).used]

theorem FifoRefines.generation_ne_zero (slot : Fin 8) : (endpoints slot).generation ≠ 0 := by
  rw [h.generation]
  exact genAfter_ne_zero (ipcStart_ne_zero slot) _

/-- Handles resolve to the slot whose lifetime they belong to. -/
theorem FifoRefines.resolve_iff (handle : UInt64) (slot : Fin 8) :
    resolveEndpoint endpoints handle = some slot ↔
      ∃ l, f.live slot = some l ∧ l.handle = handle := by
  rw [resolveEndpoint_eq_some]
  constructor
  · intro hr
    obtain ⟨l, hl⟩ := h.live_of_used hr.1
    exact ⟨l, hl, (h.live slot l hl).handle.trans hr.2⟩
  · intro hl
    obtain ⟨l, hl, hh⟩ := hl
    have hi := h.live slot l hl
    exact ⟨hi.used, by rw [← hi.handle, hh]⟩

theorem FifoRefines.slotOf_eq (handle : UInt64) :
    f.slotOf handle = resolveEndpoint endpoints handle := by
  have hmap : ∀ slot, (f.live slot).map Lifetime.handle = some handle ↔
      resolveEndpoint endpoints handle = some slot := by
    intro slot
    rw [h.resolve_iff handle slot, Option.map_eq_some_iff]
  unfold Fifos.slotOf
  cases hs : firstSlot fun slot => decide ((f.live slot).map Lifetime.handle = some handle) with
  | none =>
    cases hr : resolveEndpoint endpoints handle with
    | none => rfl
    | some slot =>
      have := (firstSlot_eq_none _).mp hs slot
      simp [(hmap slot).mpr hr] at this
  | some slot =>
    have := firstSlot_true hs
    rw [decide_eq_true_eq, hmap] at this
    exact this.symm

/-- A slot that changes alone: the rest of the relation carries over. -/
theorem FifoRefines.update {endpoint : IpcEndpoint}
    (hgen : endpoint.generation = (endpoints slot).generation) (hl : InLifetime slot endpoint l) :
    FifoRefines (update endpoints slot endpoint)
      { f with live := update f.live slot (some l) } := by
  refine ⟨?_, ?_, ?_, h.past⟩
  · intro i
    by_cases hi : i = slot
    · subst hi
      rw [update_self, hgen]
      exact h.generation i
    · rw [update_of_ne hi]
      exact h.generation i
  · intro i hn
    dsimp only at hn
    by_cases hi : i = slot
    · subst hi
      simp at hn
    · rw [update_of_ne hi] at hn ⊢
      exact h.free i hn
  · intro i l' hl'
    dsimp only at hl'
    by_cases hi : i = slot
    · subst hi
      rw [update_self, Option.some.injEq] at hl'
      subst hl'
      rw [update_self]
      exact hl
    · rw [update_of_ne hi] at hl' ⊢
      exact h.live i l' hl'

end Refines

/-! ## Every call keeps the refinement -/

theorem ipcInit_refines : FifoRefines ipcInit Fifos.empty where
  generation := fun _ => rfl
  free := fun _ _ => rfl
  live := fun _ _ h => by cases h
  past := fun _ h => by cases h

section

variable (h : FifoRefines s.1 s.2)

include h

theorem create_refines (receiverPid : UInt64) :
    FifoRefines (fifoStep s (.create receiverPid)).1 (fifoStep s (.create receiverPid)).2 := by
  rcases ipcEndpointCreate_cases s.1 receiverPid with ⟨heq, -⟩ | ⟨-, slot, hfirst, -, heq⟩
  · simp only [fifoStep, ipcStep, heq]
    exact h
  · have hfirst' : firstSlot (fun slot => (s.2.live slot).isNone) = some slot := by
      rw [← hfirst]
      exact firstSlot_congr fun i => h.live_isNone i
    simp only [fifoStep, ipcStep, heq, if_neg (makeEndpoint_ne_zero _ _), Fifos.create, hfirst']
    apply h.update
    · simp [createdEndpoint, h.generation_ne_zero slot]
    · exact ⟨rfl, rfl, rfl, Nat.zero_le _, (ringIndex_zero _).symm, rfl⟩

theorem destroy_refines (handle : UInt64) :
    FifoRefines (fifoStep s (.destroy handle)).1 (fifoStep s (.destroy handle)).2 := by
  rcases ipcEndpointDestroy_cases s.1 handle with ⟨heq, -⟩ | ⟨slot, hs, heq⟩
  · simp only [fifoStep, ipcStep, heq]
    exact h
  · obtain ⟨l, hl, -⟩ := (h.resolve_iff handle slot).mp hs
    have hslot : s.2.slotOf handle = some slot := by rw [h.slotOf_eq, hs]
    simp only [fifoStep, ipcStep, heq, if_true, Fifos.destroy, hslot]
    refine ⟨?_, ?_, ?_, ?_⟩
    · intro i
      by_cases hi : i = slot
      · subst hi
        simp only [update_self]
        rw [h.generation]
        rfl
      · simp only [update_of_ne hi]
        exact h.generation i
    · intro i hn
      dsimp only at hn
      by_cases hi : i = slot
      · subst hi
        rw [update_self]
        rfl
      · rw [update_of_ne hi] at hn ⊢
        exact h.free i hn
    · intro i l' hl'
      dsimp only at hl'
      by_cases hi : i = slot
      · subst hi
        rw [update_self] at hl'
        cases hl'
      · rw [update_of_ne hi] at hl' ⊢
        exact h.live i l' hl'
    · -- the lifetime that ends had received a prefix of what was sent
      intro l' hl'
      rw [hl, Option.toList_some, List.singleton_append, List.mem_cons] at hl'
      rcases hl' with rfl | hl'
      · rw [(h.live slot l' hl).sent]
        exact List.prefix_append _ _
      · exact h.past l' hl'

theorem send_refines (handle senderPid : UInt64) (data : Option (Nat → UInt8)) (length : UInt32) :
    FifoRefines (fifoStep s (.send handle senderPid data length)).1
      (fifoStep s (.send handle senderPid data length)).2 := by
  rcases ipcSend_cases s.1 handle senderPid data length with
    ⟨heq, -⟩ | ⟨slot, bytes, hs, rfl, -, -, -, hcap, heq⟩
  · simp only [fifoStep, ipcStep, heq]
    exact h
  · obtain ⟨l, hl, -⟩ := (h.resolve_iff handle slot).mp hs
    have hslot : s.2.slotOf handle = some slot := by rw [h.slotOf_eq, hs]
    have hi := h.live slot l hl
    have hlt : (s.1 slot).count < 8 := by
      have := hi.count_le
      unfold ipcQueueCapacity at hcap
      omega
    simp only [fifoStep, ipcStep, heq, Fifos.amend, hslot, hl, Option.map_some]
    refine h.update rfl ⟨hi.used, hi.handle, hi.owner, ?_, ?_, ?_⟩
    · show (s.1 slot).count + 1 ≤ 8
      omega
    · show (s.1 slot).head + 1 = ringIndex (s.1 slot).tail ((s.1 slot).count + 1)
      rw [hi.head, ringIndex_push]
    · show l.sent ++ [_] = l.received ++ ringContents (update (s.1 slot).messages
        (s.1 slot).head _) (s.1 slot).tail ((s.1 slot).count + 1)
      rw [hi.head, ringContents_push _ _ hlt, hi.sent, List.append_assoc]

theorem receive_refines (handle receiverPid : UInt64) (buffers : ReceiveBuffers)
    (capacity : UInt32) :
    FifoRefines (fifoStep s (.receive handle receiverPid buffers capacity)).1
      (fifoStep s (.receive handle receiverPid buffers capacity)).2 := by
  rcases ipcReceive_cases s.1 handle receiverPid buffers capacity with
    ⟨heq, -⟩ | ⟨slot, hs, -, -, hpos, -, heq⟩
  · simp only [fifoStep, ipcStep, heq]
    exact h
  · obtain ⟨l, hl, -⟩ := (h.resolve_iff handle slot).mp hs
    have hslot : s.2.slotOf handle = some slot := by rw [h.slotOf_eq, hs]
    have hi := h.live slot l hl
    obtain ⟨n, hn⟩ := Nat.exists_eq_succ_of_ne_zero hpos
    simp only [fifoStep, ipcStep, heq, Fifos.amend, hslot, hl, Option.map_some]
    refine h.update rfl ⟨hi.used, hi.handle, hi.owner, ?_, ?_, ?_⟩
    · show (s.1 slot).count - 1 ≤ 8
      have := hi.count_le
      omega
    · show (s.1 slot).head = ringIndex ((s.1 slot).tail + 1) ((s.1 slot).count - 1)
      rw [hi.head, hn, Nat.succ_eq_add_one, Nat.add_sub_cancel, ringIndex_succ]
    · show l.sent = (l.received ++ [_]) ++
        ringContents (s.1 slot).messages ((s.1 slot).tail + 1) ((s.1 slot).count - 1)
      rw [hi.sent, hn, Nat.succ_eq_add_one, Nat.add_sub_cancel, ringContents_pop,
        List.append_assoc, List.singleton_append]

theorem fifoStep_refines (op : IpcOp) : FifoRefines (fifoStep s op).1 (fifoStep s op).2 := by
  cases op with
  | create receiverPid => exact create_refines h receiverPid
  | destroy handle => exact destroy_refines h handle
  | send handle senderPid data length => exact send_refines h handle senderPid data length
  | receive handle receiverPid buffers capacity =>
    exact receive_refines h handle receiverPid buffers capacity
  | pending handle receiverPid => exact h

theorem foldl_fifoStep_refines (ops : List IpcOp) :
    FifoRefines (ops.foldl fifoStep s).1 (ops.foldl fifoStep s).2 := by
  induction ops generalizing s with
  | nil => exact h
  | cons op ops ih => exact ih (fifoStep_refines h op)

end

theorem fifoRun_refines (ops : List IpcOp) : FifoRefines (ipcRun ops) (fifoRun ops).2 := by
  rw [← fifoRun_fst]
  exact foldl_fifoStep_refines ipcInit_refines ops

/-! ## What the refinement says about the service -/

/-- Every operation through the handle fails and changes nothing. -/
def HandleDead (endpoints : Endpoints) (handle : UInt64) : Prop :=
  ipcEndpointDestroy endpoints handle = (endpoints, false) ∧
  (∀ senderPid data length,
    ipcSend endpoints handle senderPid data length = (endpoints, false)) ∧
  (∀ receiverPid buffers capacity,
    ipcReceive endpoints handle receiverPid buffers capacity = (endpoints, none)) ∧
  ∀ receiverPid, ipcPending endpoints handle receiverPid = 0

theorem handleDead_of_unresolved {endpoints : Endpoints} {handle : UInt64}
    (h : resolveEndpoint endpoints handle = none) : HandleDead endpoints handle := by
  simp [HandleDead, ipcEndpointDestroy, ipcSend, ipcReceive, ipcPending, h]

section Service

variable {endpoints : Endpoints} {f : Fifos}

variable (h : FifoRefines endpoints f)

include h

theorem FifoRefines.handle_live_or_dead (handle : UInt64) :
    (∃ slot l, f.live slot = some l ∧ l.handle = handle) ∨ HandleDead endpoints handle := by
  cases hr : resolveEndpoint endpoints handle with
  | none => exact Or.inr (handleDead_of_unresolved hr)
  | some slot => exact Or.inl ⟨slot, (h.resolve_iff handle slot).mp hr⟩

section

variable (hl : f.live slot = some l)

include hl

theorem FifoRefines.resolve_live : resolveEndpoint endpoints l.handle = some slot :=
  (h.resolve_iff l.handle slot).mpr ⟨l, hl, rfl⟩

theorem FifoRefines.count_eq : (endpoints slot).count = l.sent.length - l.received.length := by
  rw [(h.live slot l hl).sent, List.length_append, ringContents_length]
  omega

theorem FifoRefines.received_prefix : l.received <+: l.sent := by
  rw [(h.live slot l hl).sent]
  exact List.prefix_append _ _

theorem FifoRefines.pending (pid : UInt64) :
    ipcPending endpoints l.handle pid =
      if pid = l.owner then l.sent.length - l.received.length else 0 := by
  unfold ipcPending
  rw [h.resolve_live hl]
  dsimp only
  rw [(h.live slot l hl).owner, h.count_eq hl]
  simp only [eq_comm]

/-- A send succeeds exactly if its arguments are good and there is room. -/
theorem FifoRefines.send_iff (senderPid : UInt64) (data : Option (Nat → UInt8)) (length : UInt32) :
    (ipcSend endpoints l.handle senderPid data length).2 = true ↔
      senderPid ≠ 0 ∧ data.isSome = true ∧ length ≠ 0 ∧ length ≤ ipcMessageMax ∧
        l.sent.length - l.received.length < 8 := by
  have hroom : l.sent.length - l.received.length < 8 ↔
      (endpoints slot).count ≠ ipcQueueCapacity := by
    have hle := (h.live slot l hl).count_le
    rw [← h.count_eq hl]
    unfold ipcQueueCapacity
    omega
  rw [hroom]
  rcases ipcSend_cases endpoints l.handle senderPid data length with
    ⟨heq, hno⟩ | ⟨slot', bytes, hs, rfl, h1, h2, h3, h4, heq⟩
  · rw [heq]
    exact iff_of_false Bool.false_ne_true fun hok => hno ⟨slot, h.resolve_live hl, hok⟩
  · obtain rfl := Option.some.inj ((h.resolve_live hl).symm.trans hs)
    rw [heq]
    exact iff_of_true rfl ⟨h1, rfl, h2, h3, h4⟩

/-- A receive succeeds exactly if the owner asks with room enough, and then with the oldest
    message that is left. -/
theorem FifoRefines.receive_iff (receiverPid : UInt64) (buffers : ReceiveBuffers)
    (capacity : UInt32) (message : IpcMessage) :
    (ipcReceive endpoints l.handle receiverPid buffers capacity).2 = some message ↔
      receiverPid = l.owner ∧ buffers = .all ∧ l.sent[l.received.length]? = some message ∧
        message.data.length ≤ capacity.toNat := by
  have hi := h.live slot l hl
  have holdest : l.sent[l.received.length]? = if (endpoints slot).count = 0 then none
      else some ((endpoints slot).messages (endpoints slot).tail) := by
    rw [hi.sent, List.getElem?_append_right (Nat.le_refl _), Nat.sub_self]
    cases (endpoints slot).count with
    | zero => rfl
    | succ n =>
      rw [ringContents_pop]
      rfl
  rcases ipcReceive_cases endpoints l.handle receiverPid buffers capacity with
    ⟨heq, hno⟩ | ⟨slot', hs, h1, h2, h3, h4, heq⟩
  · rw [heq]
    refine iff_of_false nofun ?_
    rintro ⟨rfl, rfl, hmessage, hfit⟩
    rw [holdest] at hmessage
    split at hmessage
    · cases hmessage
    · next hne =>
      obtain rfl := Option.some.inj hmessage
      exact hno ⟨slot, h.resolve_live hl, hi.owner, rfl, hne, hfit⟩
  · obtain rfl := Option.some.inj ((h.resolve_live hl).symm.trans hs)
    rw [heq, holdest, if_neg h3, Option.some.injEq]
    constructor
    · rintro rfl
      exact ⟨h1.symm.trans hi.owner, h2, rfl, h4⟩
    · exact fun hok => hok.2.2.1

/-- An endpoint in use is changed by calls through its own handle only. -/
theorem FifoRefines.other_endpoint {op : IpcOp} (hop : op.handle ≠ some l.handle) :
    ipcStep endpoints op slot = endpoints slot := by
  have hother : ∀ handle, some handle ≠ some l.handle →
      resolveEndpoint endpoints handle ≠ some slot := by
    intro handle hne hr
    obtain ⟨l', hl', hh⟩ := (h.resolve_iff handle slot).mp hr
    rw [hl, Option.some.injEq] at hl'
    subst hl'
    exact hne (by rw [hh])
  cases op with
  | create receiverPid => exact ipcEndpointCreate_used (h.live slot l hl).used
  | destroy handle => exact (ipc_other_slot (hother handle hop)).1
  | send handle senderPid data length =>
    exact (ipc_other_slot (hother handle hop)).2.1 senderPid data length
  | receive handle receiverPid buffers capacity =>
    exact (ipc_other_slot (hother handle hop)).2.2 receiverPid buffers capacity
  | pending handle receiverPid => rfl

end

/-- A handle whose slot has been destroyed since, less than a full cycle of generations ago,
    is dead. -/
theorem FifoRefines.handle_stale {endpoints' : Endpoints} {f' : Fifos}
    (h' : FifoRefines endpoints' f') (hl : f.live slot = some l) {n : Nat}
    (hn : f'.destroyed slot = f.destroyed slot + n) (hpos : 0 < n) (hlt : n < genPeriod) :
    HandleDead endpoints' l.handle := by
  apply handleDead_of_unresolved
  cases hr : resolveEndpoint endpoints' l.handle with
  | none => rfl
  | some slot' =>
    obtain ⟨-, hh⟩ := (resolveEndpoint_eq_some ..).mp hr
    rw [(h.live slot l hl).handle, makeEndpoint_inj] at hh
    obtain ⟨rfl, hgen⟩ := hh
    rw [h'.generation, hn, genAfter_add, ← h.generation] at hgen
    exact absurd hgen (genAfter_ne_self (h.generation_ne_zero slot') hpos hlt)

end Service

/-- **The IPC service is one bounded FIFO per endpoint lifetime.** After any calls with any
    arguments from `ipc_init`: in the current and in every past lifetime of an endpoint, the
    messages received are a prefix of those sent; at most eight are pending, and `ipc_pending`
    tells their number to the owner and zero to anyone else; a send succeeds exactly with a sender,
    data of a good length and room, a receive exactly for the owner, with all buffers and room for
    the oldest message left, which is what it hands out; a handle is that of a current lifetime or
    every operation through it fails; a failed send or receive changes nothing; an endpoint in use
    is changed only by calls through its own handle; and a handle whose lifetime has ended stays
    dead until the slot has been destroyed `2 ^ 32 - 1` times since the handle was made. -/
theorem ipc_refines_fifo (ops : List IpcOp) :
    (∀ slot l, (fifoRun ops).2.live slot = some l →
      l.received <+: l.sent ∧ l.sent.length - l.received.length ≤ 8 ∧
      (∀ pid, ipcPending (ipcRun ops) l.handle pid =
        if pid = l.owner then l.sent.length - l.received.length else 0) ∧
      (∀ senderPid data length,
        (ipcSend (ipcRun ops) l.handle senderPid data length).2 = true ↔
          senderPid ≠ 0 ∧ data.isSome = true ∧ length ≠ 0 ∧ length ≤ ipcMessageMax ∧
            l.sent.length - l.received.length < 8) ∧
      ∀ receiverPid buffers capacity message,
        (ipcReceive (ipcRun ops) l.handle receiverPid buffers capacity).2 = some message ↔
          receiverPid = l.owner ∧ buffers = .all ∧ l.sent[l.received.length]? = some message ∧
            message.data.length ≤ capacity.toNat) ∧
    (∀ l ∈ (fifoRun ops).2.past, l.received <+: l.sent) ∧
    (∀ handle, (∃ slot l, (fifoRun ops).2.live slot = some l ∧ l.handle = handle) ∨
      HandleDead (ipcRun ops) handle) ∧
    (∀ handle senderPid data length,
      (ipcSend (ipcRun ops) handle senderPid data length).2 = false →
        (ipcSend (ipcRun ops) handle senderPid data length).1 = ipcRun ops) ∧
    (∀ handle receiverPid buffers capacity,
      (ipcReceive (ipcRun ops) handle receiverPid buffers capacity).2 = none →
        (ipcReceive (ipcRun ops) handle receiverPid buffers capacity).1 = ipcRun ops) ∧
    (∀ op slot l, (fifoRun ops).2.live slot = some l → op.handle ≠ some l.handle →
      ipcStep (ipcRun ops) op slot = ipcRun ops slot) ∧
    (∀ slot l later n, (fifoRun ops).2.live slot = some l →
      (fifoRun (ops ++ later)).2.destroyed slot = (fifoRun ops).2.destroyed slot + n →
      0 < n → n < 2 ^ 32 - 1 → HandleDead (ipcRun (ops ++ later)) l.handle) := by
  have h := fifoRun_refines ops
  refine ⟨?_, h.past, h.handle_live_or_dead, ?_, ?_, ?_, ?_⟩
  · intro slot l hl
    refine ⟨h.received_prefix hl, ?_, h.pending hl, h.send_iff hl, h.receive_iff hl⟩
    rw [← h.count_eq hl]
    exact (h.live slot l hl).count_le
  · intro handle senderPid data length hfail
    rcases ipcSend_cases (ipcRun ops) handle senderPid data length with
      ⟨heq, -⟩ | ⟨slot, bytes, -, -, -, -, -, -, heq⟩
    · rw [heq]
    · rw [heq] at hfail
      cases hfail
  · intro handle receiverPid buffers capacity hfail
    rcases ipcReceive_cases (ipcRun ops) handle receiverPid buffers capacity with
      ⟨heq, -⟩ | ⟨slot, -, -, -, -, -, heq⟩
    · rw [heq]
    · rw [heq] at hfail
      cases hfail
  · intro op slot l hl hop
    exact h.other_endpoint hl hop
  · intro slot l later n hl hn hpos hlt
    exact h.handle_stale (fifoRun_refines (ops ++ later)) hl hn hpos hlt

/-- Two messages for process 41, of which it takes the first. -/
def sampleOps : List IpcOp :=
  [.create 41, .send 0x495000D76779B801 17 (some fun i => [0x41, 0x52, 0x47].getD i 0) 3,
    .send 0x495000D76779B801 18 (some fun _ => 0x42) 1, .receive 0x495000D76779B801 41 .all 3]

/-- The second message is handed out to process 41 with room for it, and to nobody else; when the
    endpoint is destroyed and its slot taken again, the old handle is dead. -/
theorem ipc_refines_fifo_sample :
    ∃ l, (fifoRun sampleOps).2.live 0 = some l ∧ l.received = [⟨17, [0x41, 0x52, 0x47]⟩] ∧
      (ipcReceive (ipcRun sampleOps) l.handle 41 .all 1).2 = some ⟨18, [0x42]⟩ ∧
      (∀ message, (ipcReceive (ipcRun sampleOps) l.handle 42 .all 1).2 ≠ some message ∧
        (ipcReceive (ipcRun sampleOps) l.handle 41 .all 0).2 ≠ some message) ∧
      HandleDead (ipcRun (sampleOps ++ [.destroy l.handle, .create 41])) l.handle := by
  have hlive : (fifoRun sampleOps).2.live 0 = some ⟨0x495000D76779B801, 41,
      [⟨17, [0x41, 0x52, 0x47]⟩, ⟨18, [0x42]⟩], [⟨17, [0x41, 0x52, 0x47]⟩]⟩ := by
    decide +kernel
  obtain ⟨hserved, -, -, -, -, -, hstale⟩ := ipc_refines_fifo sampleOps
  obtain ⟨-, -, -, -, hreceive⟩ := hserved 0 _ hlive
  refine ⟨_, hlive, rfl, (hreceive 41 .all 1 _).mpr ⟨rfl, rfl, rfl, by decide⟩, ?_, ?_⟩
  · intro message
    refine ⟨fun h => absurd ((hreceive 42 .all 1 message).mp h).1 (by decide), fun h => ?_⟩
    obtain ⟨-, -, holdest, hfit⟩ := (hreceive 41 .all 0 message).mp h
    obtain rfl := Option.some.inj holdest
    exact absurd hfit (by decide)
  · exact hstale 0 _ _ 1 hlive (by decide +kernel) (by decide) (by decide)

end ArgusOs.Ipc
